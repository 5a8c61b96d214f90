import NetworkProtocol.Library.CMemory

/-! strtok in the memory it works on: it cuts the text up where it lies and goes on from a
cursor of its own. -/
namespace CMemory
open CString

/-- The block after a call, the cursor, and where the token starts; none is the NULL of a text
without one. -/
structure Strtok where
  block : Block
  cursor : Nat
  token : Option Nat
  deriving DecidableEq

/-- strtok from an offset on; a call with NULL is given the cursor. None where no NUL ends the
text inside the block. -/
def strtok (delimiters : List Char) (block : Block) (offset : Nat) : Option Strtok :=
  (cString (block.drop offset)).map (fun text =>
    let start := offset + (text.takeWhile (· ∈ delimiters)).length
    let word := (text.dropWhile (· ∈ delimiters)).takeWhile (· ∉ delimiters)
    let stop := start + word.length
    if word = [] then ⟨block, start, none⟩
    else if stop = offset + text.length then ⟨block, stop, some start⟩
    else ⟨block.set stop nul, stop + 1, some start⟩)

/-- The strings a loop over strtok sees, from the call at the offset to the NULL. -/
def strtokLoop (delimiters : List Char) : Nat → Block → Nat → Option (List CString)
  | 0, _, _ => none
  | fuel + 1, block, offset =>
    (strtok delimiters block offset).bind (fun t =>
      match t.token with
      | none => some []
      | some token =>
        (cString (t.block.drop token)).bind (fun word =>
          (strtokLoop delimiters fuel t.block t.cursor).map (word :: ·)))

section Cut
variable {delimiters : List Char} {before lead word text rest after : CString} {d : Char}

/-- A text is nothing but delimiters, or has a first word that ends with it or at a delimiter. -/
theorem cut (delimiters : List Char) (text : CString) :
    (∀ c ∈ text, c ∈ delimiters) ∨
    ∃ lead word, (∀ c ∈ lead, c ∈ delimiters) ∧ word ≠ [] ∧ (∀ c ∈ word, c ∉ delimiters) ∧
      (text = lead ++ word ∨ ∃ d rest, d ∈ delimiters ∧ text = lead ++ (word ++ d :: rest)) := by
  have hlead : ∀ c ∈ text.takeWhile (· ∈ delimiters), c ∈ delimiters :=
    fun c hc => by simpa using List.mem_takeWhile_imp hc
  cases hleft : text.dropWhile (· ∈ delimiters) with
  | nil =>
    refine .inl (fun c hc => ?_)
    rw [← List.takeWhile_append_dropWhile (p := (· ∈ delimiters)) (l := text), hleft,
      List.append_nil] at hc
    exact hlead c hc
  | cons first left =>
    refine .inr ⟨text.takeWhile (· ∈ delimiters),
      (first :: left).takeWhile (· ∉ delimiters), hlead, ?_, ?_, ?_⟩
    · have hfirst : first ∉ delimiters := by
        have hhead := List.head?_dropWhile_not (· ∈ delimiters) text
        simpa [hleft] using hhead
      simp [hfirst]
    · exact fun c hc => by simpa using List.mem_takeWhile_imp hc
    · have htext : text = text.takeWhile (· ∈ delimiters) ++ (first :: left) := by
        rw [← hleft, List.takeWhile_append_dropWhile]
      cases hrest : (first :: left).dropWhile (· ∉ delimiters) with
      | nil =>
        left
        conv_lhs => rw [htext, ← List.takeWhile_append_dropWhile
          (p := (· ∉ delimiters)) (l := first :: left), hrest, List.append_nil]
      | cons d rest =>
        right
        refine ⟨d, rest, ?_, ?_⟩
        · have hhead := List.head?_dropWhile_not (· ∉ delimiters) (first :: left)
          rw [hrest] at hhead
          simpa using hhead
        · conv_lhs => rw [htext, ← List.takeWhile_append_dropWhile
            (p := (· ∉ delimiters)) (l := first :: left), hrest]

private theorem cString_drop (hnul : nul ∉ text) :
    cString ((before ++ (text ++ nul :: after)).drop before.length) = some text := by
  rw [List.drop_left]
  exact cString_append hnul after

private theorem takeWhile_lead (rest : CString) (hlead : ∀ c ∈ lead, c ∈ delimiters)
    (hne : word ≠ []) (hword : ∀ c ∈ word, c ∉ delimiters) :
    (lead ++ (word ++ rest)).takeWhile (· ∈ delimiters) = lead ∧
      (lead ++ (word ++ rest)).dropWhile (· ∈ delimiters) = word ++ rest := by
  obtain ⟨first, left, rfl⟩ := List.exists_cons_of_ne_nil hne
  have hfirst : first ∉ delimiters := hword first List.mem_cons_self
  constructor
  · rw [List.takeWhile_append_of_pos (by simpa using hlead)]
    simp [hfirst]
  · rw [List.dropWhile_append_of_pos (by simpa using hlead)]
    simp [hfirst]

/-- In a text of delimiters strtok finds nothing. -/
theorem strtok_none (before after : CString) (h : ∀ c ∈ text, c ∈ delimiters)
    (hnul : nul ∉ text) :
    strtok delimiters (before ++ (text ++ nul :: after)) before.length =
      some ⟨before ++ (text ++ nul :: after), before.length + text.length, none⟩ := by
  have hall : text.dropWhile (· ∈ delimiters) = [] :=
    List.dropWhile_eq_nil_iff.mpr (by simpa using h)
  have htake : text.takeWhile (· ∈ delimiters) = text :=
    List.takeWhile_eq_self_iff.mpr (by simpa using h)
  rw [strtok, cString_drop hnul, Option.map_some, hall, htake]
  rfl

/-- The last word is ended by the text's own NUL. -/
theorem strtok_last (before after : CString) (hlead : ∀ c ∈ lead, c ∈ delimiters)
    (hne : word ≠ []) (hword : ∀ c ∈ word, c ∉ delimiters) (hnul : nul ∉ lead ++ word) :
    strtok delimiters (before ++ (lead ++ word ++ nul :: after)) before.length =
      some ⟨before ++ lead ++ (word ++ nul :: after), (before ++ lead ++ word).length,
        some (before ++ lead).length⟩ := by
  obtain ⟨htake, hdrop⟩ := takeWhile_lead [] hlead hne hword
  rw [List.append_nil] at htake hdrop
  have hself : word.takeWhile (· ∉ delimiters) = word :=
    List.takeWhile_eq_self_iff.mpr (by simpa using hword)
  rw [strtok, cString_drop hnul, Option.map_some, htake, hdrop, hself]
  dsimp only
  rw [if_neg hne, if_pos (by rw [List.length_append, Nat.add_assoc])]
  simp only [List.append_assoc, List.length_append, Nat.add_assoc]

/-- The delimiter behind a word is overwritten, and the next call starts behind it. -/
theorem strtok_word (before after : CString) (hlead : ∀ c ∈ lead, c ∈ delimiters)
    (hne : word ≠ []) (hword : ∀ c ∈ word, c ∉ delimiters) (hd : d ∈ delimiters)
    (hnul : nul ∉ lead ++ (word ++ d :: rest)) :
    strtok delimiters (before ++ (lead ++ (word ++ d :: rest) ++ nul :: after)) before.length =
      some ⟨before ++ lead ++ (word ++ nul :: (rest ++ nul :: after)),
        (before ++ lead ++ (word ++ [nul])).length, some (before ++ lead).length⟩ := by
  obtain ⟨htake, hdrop⟩ := takeWhile_lead (d :: rest) hlead hne hword
  have hself : (word ++ d :: rest).takeWhile (· ∉ delimiters) = word := by
    rw [List.takeWhile_append_of_pos (by simpa using hword)]
    simp [hd]
  have hstop : before.length + lead.length + word.length ≠
      before.length + (lead ++ (word ++ d :: rest)).length := by
    simp only [List.length_append, List.length_cons]
    omega
  have hset : (before ++ (lead ++ (word ++ d :: rest) ++ nul :: after)).set
      (before.length + lead.length + word.length) nul =
        before ++ lead ++ (word ++ nul :: (rest ++ nul :: after)) := by
    have hsplit : before ++ (lead ++ (word ++ d :: rest) ++ nul :: after) =
        (before ++ lead ++ word) ++ d :: (rest ++ nul :: after) := by simp
    have hlength : before.length + lead.length + word.length =
        (before ++ lead ++ word).length := by
      simp only [List.length_append]
    rw [hsplit, hlength, List.set_append_right _ _ (Nat.le_refl _), Nat.sub_self,
      List.set_cons_zero, List.append_assoc _ word]
  rw [strtok, cString_drop hnul, Option.map_some, htake, hdrop, hself]
  dsimp only
  rw [if_neg hne, if_neg hstop, hset]
  simp only [List.length_append, List.length_singleton, Nat.add_assoc]

/-- One call returns the first token, or NULL where there is none. -/
theorem strtok_head (delimiters before after : CString) (hnul : nul ∉ text) :
    ∃ t, strtok delimiters (before ++ (text ++ nul :: after)) before.length = some t ∧
      t.token.map (fun token => cString (t.block.drop token)) =
        (tokens delimiters text).head?.map some := by
  rcases cut delimiters text with
    hall | ⟨lead, word, hlead, hne, hword, rfl | ⟨d, rest, hd, rfl⟩⟩
  · refine ⟨_, strtok_none before after hall hnul, ?_⟩
    rw [tokens_delimiters hall]
    rfl
  · refine ⟨_, strtok_last before after hlead hne hword hnul, ?_⟩
    rw [Option.map_some, cString_drop (fun h => hnul (List.mem_append_right _ h)),
      tokens_lead hlead, tokens_word hne hword]
    rfl
  · refine ⟨_, strtok_word before after hlead hne hword hd hnul, ?_⟩
    rw [Option.map_some,
      cString_drop (fun h => hnul (List.mem_append_right _ (List.mem_append_left _ h))),
      tokens_lead hlead, tokens_cons hne hword hd]
    rfl

/-- Call after call, strtok returns the tokens of the text. -/
theorem strtokLoop_eq_tokens (before after : CString) {fuel : Nat} (hnul : nul ∉ text)
    (hfuel : text.length < fuel) :
    strtokLoop delimiters fuel (before ++ (text ++ nul :: after)) before.length =
      some (tokens delimiters text) := by
  induction fuel generalizing before text with
  | zero => omega
  | succ fuel ih =>
    rcases cut delimiters text with
      hall | ⟨lead, word, hlead, hne, hword, rfl | ⟨d, rest, hd, rfl⟩⟩
    · rw [strtokLoop, strtok_none before after hall hnul, tokens_delimiters hall]
      rfl
    · have hcut : nul ∉ word := fun h => hnul (List.mem_append_right _ h)
      have hlength : 0 < word.length := List.length_pos_iff.mpr hne
      rw [List.length_append] at hfuel
      have hnone : nul ∉ ([] : CString) := List.not_mem_nil
      have hloop := ih (before ++ lead ++ word) hnone (by rw [List.length_nil]; omega)
      rw [strtokLoop, strtok_last before after hlead hne hword hnul, Option.bind_some]
      dsimp only
      rw [cString_drop hcut, Option.bind_some, ← List.append_assoc _ word,
        ← List.nil_append (nul :: after), hloop, tokens_lead hlead, tokens_word hne hword,
        tokens_nil]
      rfl
    · have hcut : nul ∉ word :=
        fun h => hnul (List.mem_append_right _ (List.mem_append_left _ h))
      have hleft : nul ∉ rest := fun h =>
        hnul (List.mem_append_right _ (List.mem_append_right _ (List.mem_cons_of_mem _ h)))
      simp only [List.length_append, List.length_cons] at hfuel
      have hloop := ih (before ++ lead ++ (word ++ [nul])) hleft (by omega)
      have hblock : before ++ lead ++ (word ++ nul :: (rest ++ nul :: after)) =
          before ++ lead ++ (word ++ [nul]) ++ (rest ++ nul :: after) := by simp
      rw [strtokLoop, strtok_word before after hlead hne hword hd hnul, Option.bind_some]
      dsimp only
      rw [cString_drop hcut, Option.bind_some, hblock, hloop, tokens_lead hlead,
        tokens_cons hne hword hd]
      rfl

end Cut

end CMemory
