import Mathlib.Data.List.Basic
import Mathlib.Data.List.TakeWhile

/-! C strings as the characters before the first NUL, and the library functions on them in
the C locale. -/
abbrev CString := List Char

namespace CString

def isSpace (c : Char) : Bool := c ∈ [' ', '\t', '\n', '\x0b', '\x0c', '\r']

/-- The tokens strtok returns call after call: the maximal runs free of delimiters. -/
def tokens (delimiters : List Char) (s : CString) : List CString :=
  (s.splitOnP (· ∈ delimiters)).filter (· ≠ [])

/-- The value of the leading decimal digits. -/
def digits (s : CString) : Nat :=
  (s.takeWhile Char.isDigit).foldl (fun n c => 10 * n + (c.toNat - '0'.toNat)) 0

def atoi (s : CString) : Int :=
  match s.dropWhile isSpace with
  | '-' :: rest => -digits rest
  | '+' :: rest => digits rest
  | rest => digits rest

/-- What printf writes for %d. -/
def decimal (n : Int) : CString :=
  if n < 0 then '-' :: Nat.toDigits 10 n.natAbs else Nat.toDigits 10 n.natAbs

def toLowercase (s : CString) : CString := s.map Char.toLower

@[simp] theorem length_toLowercase (s : CString) : (toLowercase s).length = s.length :=
  List.length_map _

@[simp] theorem toLowercase_toLowercase (s : CString) :
    toLowercase (toLowercase s) = toLowercase s := by
  have hlower (c : Char) : c.toLower.toLower = c.toLower := by
    delta Char.toLower
    grind
  simp [toLowercase, hlower]

/-- A printed number consists of digits. -/
theorem isDigit_of_mem_toDigits {n : Nat} {c : Char} (h : c ∈ Nat.toDigits 10 n) :
    c.isDigit = true :=
  Nat.isDigit_of_mem_toDigits (by decide) (by decide) h

/-- Its digits have its value. -/
theorem digits_toDigits (n : Nat) : digits (Nat.toDigits 10 n) = n := by
  have hall : ∀ c ∈ Nat.toDigits 10 n, c.isDigit = true := fun c hc => isDigit_of_mem_toDigits hc
  rw [digits, List.takeWhile_eq_self_iff.mpr hall, ← Nat.ofDigitChars_eq_foldl]
  exact Nat.ofDigitChars_ten_toDigits

/-- A text that starts with a digit is read as its leading digits. -/
theorem atoi_of_digit {c : Char} {s : CString} (hc : c.isDigit = true) :
    atoi (c :: s) = digits (c :: s) := by
  have hspace : isSpace c = false := by
    rw [Bool.eq_false_iff]
    intro h
    simp only [isSpace, List.mem_cons, List.not_mem_nil, or_false, decide_eq_true_eq] at h
    rcases h with rfl | rfl | rfl | rfl | rfl | rfl <;> exact absurd hc (by decide)
  rw [atoi, List.dropWhile_cons_of_neg (by simp [hspace])]
  split
  · rename_i heq
    obtain ⟨rfl, -⟩ := List.cons.inj heq
    exact absurd hc (by decide)
  · rename_i heq
    obtain ⟨rfl, -⟩ := List.cons.inj heq
    exact absurd hc (by decide)
  · rfl

/-- atoi reads it back. -/
theorem atoi_toDigits (n : Nat) : atoi (Nat.toDigits 10 n) = n := by
  have hne : Nat.toDigits 10 n ≠ [] := Nat.toDigits_ne_nil
  obtain ⟨c, s, hcons⟩ := List.exists_cons_of_ne_nil hne
  have hc : c.isDigit = true := isDigit_of_mem_toDigits (n := n) (hcons ▸ List.mem_cons_self)
  rw [hcons, atoi_of_digit hc, ← hcons, digits_toDigits]

/-- Reading a number back from what printf wrote of it. -/
theorem atoi_decimal (n : Int) : atoi (decimal n) = n := by
  rw [decimal]
  split
  · rename_i hneg
    have hread : atoi ('-' :: Nat.toDigits 10 n.natAbs) = -digits (Nat.toDigits 10 n.natAbs) := rfl
    rw [hread, digits_toDigits]
    omega
  · rename_i hpos
    rw [atoi_toDigits]
    omega

/-- %d prints a sign and digits. -/
theorem mem_decimal {n : Int} {c : Char} (h : c ∈ decimal n) : c = '-' ∨ c.isDigit = true := by
  rw [decimal] at h
  split at h
  · rcases List.mem_cons.mp h with rfl | h
    · exact .inl rfl
    · exact .inr (isDigit_of_mem_toDigits h)
  · exact .inr (isDigit_of_mem_toDigits h)

/-- %d prints something. -/
theorem decimal_ne_nil (n : Int) : decimal n ≠ [] := by
  rw [decimal]
  split
  · exact List.cons_ne_nil _ _
  · exact Nat.toDigits_ne_nil

section Tokens
variable {delimiters : List Char} {w s lead : CString} {d : Char}

/-- A word free of delimiters is its own only token. -/
theorem tokens_word (hne : w ≠ []) (hfree : ∀ c ∈ w, c ∉ delimiters) :
    tokens delimiters w = [w] := by
  rw [tokens, List.splitOnP_eq_singleton (by simpa using hfree)]
  simp [hne]

/-- The first token ends at the first delimiter. -/
theorem tokens_cons (hne : w ≠ []) (hfree : ∀ c ∈ w, c ∉ delimiters) (hd : d ∈ delimiters) :
    tokens delimiters (w ++ d :: s) = w :: tokens delimiters s := by
  rw [tokens, List.splitOnP_append_cons_of_forall_mem (by simpa using hfree) d (by simpa using hd)]
  simp [tokens, hne]

/-- Everything else about tokens follows from this: a text falls apart at every delimiter. -/
theorem tokens_append (hd : d ∈ delimiters) (s t : CString) :
    tokens delimiters (s ++ d :: t) = tokens delimiters s ++ tokens delimiters t := by
  rw [tokens, List.splitOnP_append_cons s t (by simpa using hd), List.filter_append]
  rfl

/-- Nothing has no tokens. -/
theorem tokens_nil : tokens delimiters [] = [] := by simp [tokens, List.splitOnP_nil]

/-- A leading delimiter belongs to no token. -/
theorem tokens_delimiter (hd : d ∈ delimiters) (s : CString) :
    tokens delimiters (d :: s) = tokens delimiters s := by
  have happend := tokens_append hd [] s
  rwa [tokens_nil] at happend

/-- Delimiters alone have no tokens. -/
theorem tokens_delimiters (h : ∀ c ∈ s, c ∈ delimiters) : tokens delimiters s = [] := by
  induction s with
  | nil => exact tokens_nil
  | cons c s ih =>
    rw [tokens_delimiter (h c List.mem_cons_self)]
    exact ih (fun d hd => h d (List.mem_cons_of_mem _ hd))

/-- Leading delimiters do not matter to the tokens. -/
theorem tokens_lead (hlead : ∀ c ∈ lead, c ∈ delimiters) (s : CString) :
    tokens delimiters (lead ++ s) = tokens delimiters s := by
  induction lead with
  | nil => rfl
  | cons c lead ih =>
    rw [List.cons_append, tokens_delimiter (hlead c List.mem_cons_self)]
    exact ih (fun d hd => hlead d (List.mem_cons_of_mem _ hd))

/-- A run of delimiters ends the first token. -/
theorem tokens_run (hne : w ≠ []) (hfree : ∀ c ∈ w, c ∉ delimiters) (hlead : lead ≠ [])
    (hdelimiters : ∀ c ∈ lead, c ∈ delimiters) (s : CString) :
    tokens delimiters (w ++ (lead ++ s)) = w :: tokens delimiters s := by
  obtain ⟨d, left, rfl⟩ := List.exists_cons_of_ne_nil hlead
  rw [List.cons_append, tokens_cons hne hfree (hdelimiters d List.mem_cons_self),
    tokens_lead (fun c hc => hdelimiters c (List.mem_cons_of_mem _ hc))]

/-- A character that is no delimiter starts a token or extends the first one. -/
theorem tokens_character {c : Char} (hc : c ∉ delimiters) (s : CString) :
    (tokens delimiters (c :: s)).flatten = c :: (tokens delimiters s).flatten := by
  have hsplit : (c :: s).splitOnP (· ∈ delimiters) =
      (s.splitOnP (· ∈ delimiters)).modifyHead (c :: ·) := by
    rw [List.splitOnP_cons_eq_if_modifyHead, if_neg (by simpa using hc)]
  obtain ⟨first, rest, hfirst⟩ := List.exists_cons_of_ne_nil
    (List.splitOnP_ne_nil (· ∈ delimiters) s)
  rw [tokens, tokens, hsplit, hfirst]
  cases first <;> simp

/-- Put together again, the tokens are the text without its delimiters. -/
theorem flatten_tokens (delimiters : List Char) (s : CString) :
    (tokens delimiters s).flatten = s.filter (· ∉ delimiters) := by
  induction s with
  | nil => rw [tokens_nil]; rfl
  | cons c s ih =>
    by_cases hc : c ∈ delimiters
    · rw [tokens_delimiter hc, ih, List.filter_cons_of_neg (by simpa using hc)]
    · rw [tokens_character hc, ih, List.filter_cons_of_pos (by simpa using hc)]

private theorem mem_filter_of_mem_tokens (h : w ∈ tokens delimiters s) {c : Char} (hc : c ∈ w) :
    c ∈ s.filter (· ∉ delimiters) := by
  rw [← flatten_tokens]
  exact List.mem_flatten.mpr ⟨w, h, hc⟩

/-- A token has the characters of its text. -/
theorem mem_of_mem_tokens (h : w ∈ tokens delimiters s) {c : Char} (hc : c ∈ w) : c ∈ s :=
  (List.mem_filter.mp (mem_filter_of_mem_tokens h hc)).1

/-- No token contains a delimiter. -/
theorem not_mem_of_mem_tokens (h : w ∈ tokens delimiters s) {c : Char} (hc : c ∈ w) :
    c ∉ delimiters := by
  simpa using (List.mem_filter.mp (mem_filter_of_mem_tokens h hc)).2

/-- No token is longer than its text. -/
theorem length_le_of_mem_tokens (h : w ∈ tokens delimiters s) : w.length ≤ s.length := by
  have hflatten : w.length ≤ (tokens delimiters s).flatten.length :=
    (List.sublist_flatten_of_mem h).length_le
  rw [flatten_tokens] at hflatten
  exact hflatten.trans (List.length_filter_le _ _)

end Tokens

end CString
