import NetworkProtocol.Library.CMemory
import NetworkProtocol.Library.Runs

/-! The echoer's two loops: the client sends the letters of a word without a NUL, and the server
prints the string at the start of a buffer that it never clears. -/
namespace NetworkProtocol.Echo
open CMemory

def maxBufferSize : Nat := 1024

/-- What scanf's %s takes from the terminal at buff + 1 without leaving buff. -/
structure Word where
  text : CString
  ne_nil : text ≠ []
  visible : ∀ c ∈ text, c ≠ nul ∧ CString.isSpace c = false
  fits : text.length ≤ maxBufferSize - 2

/-- The buff of each of the two processes, and the strings the server has printed. -/
structure Echoer where
  client : Block := zeroed maxBufferSize []
  server : Block := zeroed maxBufferSize []
  printed : List CString := []

/-- The client's scanf, its buff after it and the bytes given to send. -/
def typed (buff : Block) (word : Word) : Option (Block × List Char) := do
  let buff ← writeString buff 1 word.text
  let bytes ← cString (buff.drop 1)
  return (buff, bytes)

/-- The server's recv of what one send sent, and the string printf is given. -/
def received (buff : Block) (bytes : List Char) : Option (Block × CString) := do
  let buff ← write buff 0 (bytes.take maxBufferSize)
  let text ← cString buff
  return (buff, text)

def turn (s : Echoer) (word : Word) : Option Echoer := do
  let (client, bytes) ← typed s.client word
  let (server, text) ← received s.server bytes
  return { client, server, printed := s.printed ++ [text] }

/-- The client's buff keeps its size, and the server's holds a text with zeros behind it. -/
structure Holds (s : Echoer) (text : CString) : Prop where
  client : s.client.length = maxBufferSize
  server : s.server = zeroed maxBufferSize text
  free : nul ∉ text
  fits : text.length ≤ maxBufferSize - 2

def shown (text : CString) : List CString → List CString
  | [] => []
  | word :: words => overlay text word :: shown (overlay text word) words

/-- scanf reads no NUL. -/
theorem Word.free (word : Word) : nul ∉ word.text :=
  fun hmem => (word.visible nul hmem).1 rfl

private theorem holds_init : Holds {} [] :=
  ⟨length_zeroed (Nat.zero_le _), rfl, List.not_mem_nil, Nat.zero_le _⟩

section Turn
variable {s : Echoer} {text : CString}

/-- The client sends the word alone. -/
theorem typed_eq {buff : Block} (h : buff.length = maxBufferSize) (word : Word) :
    ∃ buff', typed buff word = some (buff', word.text) ∧ buff'.length = maxBufferSize := by
  have hfits : 1 + (word.text ++ [nul]).length ≤ buff.length := by
    have hword := word.fits
    rw [List.length_append, List.length_singleton, h]
    rw [maxBufferSize] at hword ⊢
    omega
  obtain ⟨buff', hwrite, hlength⟩ := exists_write hfits
  have hread := cString_writeString word.free (by omega) hwrite
  refine ⟨buff', ?_, hlength.trans h⟩
  rw [typed, writeString, hwrite]
  simp only [Option.bind_eq_bind, Option.bind_some, hread]
  rfl

/-- The word covers the text that was there as far as it reaches. -/
theorem Holds.overlay (h : Holds s text) (word : Word) :
    nul ∉ overlay text word.text ∧ (overlay text word.text).length ≤ maxBufferSize - 2 := by
  have htext := h.fits
  have hword := word.fits
  constructor
  · rw [CMemory.overlay, List.mem_append, not_or]
    exact ⟨word.free, fun hmem => h.free (List.mem_of_mem_drop hmem)⟩
  · rw [CMemory.overlay, List.length_append, List.length_drop]
    omega

private theorem Holds.received (h : Holds s text) (word : Word) :
    received s.server word.text = some (zeroed maxBufferSize (CMemory.overlay text word.text),
      CMemory.overlay text word.text) := by
  obtain ⟨hfree, hfits⟩ := h.overlay word
  have htext : text.length ≤ maxBufferSize := h.fits.trans (Nat.sub_le _ _)
  have hword : word.text.length ≤ maxBufferSize := word.fits.trans (Nat.sub_le _ _)
  have hshort : word.text.length ≤ (zeroed maxBufferSize text).length := by
    rwa [length_zeroed htext]
  have hroom : (CMemory.overlay text word.text).length < maxBufferSize :=
    Nat.lt_of_le_of_lt hfits (by decide)
  have hread := cString_zeroed_alone hfree hroom
  rw [Echo.received, List.take_of_length_le hword, h.server, write_start hshort,
    overlay_zeroed htext hword]
  simp only [Option.bind_eq_bind, Option.bind_some, hread]
  rfl

private theorem Holds.turn (h : Holds s text) (word : Word) : ∃ s', turn s word = some s' ∧
    Holds s' (CMemory.overlay text word.text) ∧
    s'.printed = s.printed ++ [CMemory.overlay text word.text] := by
  obtain ⟨client, htyped, hclient⟩ := typed_eq h.client word
  obtain ⟨hfree, hfits⟩ := h.overlay word
  refine ⟨⟨client, zeroed maxBufferSize (CMemory.overlay text word.text),
    s.printed ++ [CMemory.overlay text word.text]⟩, ?_, ⟨hclient, rfl, hfree, hfits⟩, rfl⟩
  rw [Echo.turn, htyped]
  simp only [Option.bind_eq_bind, Option.bind_some, h.received word]
  rfl

/-- Over a whole session. -/
theorem Holds.run (h : Holds s text) (words : List Word) :
    ∃ s', Runs.run Echo.turn s words = some s' ∧
      s'.printed = s.printed ++ shown text (words.map Word.text) := by
  induction words generalizing s text with
  | nil => exact ⟨s, rfl, (List.append_nil _).symm⟩
  | cons word words ih =>
    obtain ⟨t, hturn, ht, hprinted⟩ := h.turn word
    obtain ⟨s', hrun, hrest⟩ := ih ht
    refine ⟨s', ?_, ?_⟩
    · rw [Runs.run_cons, hturn]
      exact hrun
    · rw [hrest, hprinted, List.append_assoc]
      rfl

end Turn

/-- A word stands alone where it reaches to the end of what was there. -/
theorem overlay_eq_iff {text word : CString} :
    overlay text word = word ↔ text.length ≤ word.length := by
  rw [overlay, List.append_right_eq_self, List.drop_eq_nil_iff]

/-- The words are shown as they are just when none is shorter than the text before it. -/
theorem shown_eq_iff (text : CString) (words : List CString) : shown text words = words ↔
    (∀ word ∈ words, text.length ≤ word.length) ∧
      words.Pairwise (fun earlier later => earlier.length ≤ later.length) := by
  induction words generalizing text with
  | nil => simp [shown]
  | cons word words ih =>
    rw [shown, List.cons.injEq, overlay_eq_iff, List.pairwise_cons, List.forall_mem_cons]
    constructor
    · rintro ⟨hword, hrest⟩
      rw [overlay_eq_iff.mpr hword, ih] at hrest
      exact ⟨⟨hword, fun next hnext => hword.trans (hrest.1 next hnext)⟩, hrest⟩
    · rintro ⟨⟨hword, -⟩, hrest⟩
      rw [overlay_eq_iff.mpr hword, ih]
      exact ⟨hword, hrest⟩

/-- The server prints the words typed exactly when no word is shorter than an earlier one. -/
theorem printed_iff_lengthening (words : List Word) : ∃ s, Runs.run turn {} words = some s ∧
    (s.printed = words.map Word.text ↔
      words.Pairwise (fun earlier later => earlier.text.length ≤ later.text.length)) := by
  obtain ⟨s, hrun, hprinted⟩ := holds_init.run words
  have hshown : s.printed = shown [] (words.map Word.text) := hprinted
  refine ⟨s, hrun, ?_⟩
  rw [hshown, shown_eq_iff, List.pairwise_map]
  exact and_iff_right (fun word _ => Nat.zero_le _)

/-- After hello, hi is printed as hillo. -/
theorem hi_after_hello :
    ¬ ∀ words, (Runs.run turn {} words).map (·.printed) = some (words.map Word.text) := by
  intro h
  let hello : Word :=
    ⟨['h', 'e', 'l', 'l', 'o'], by simp, by simp [nul, CString.isSpace], by decide⟩
  let hi : Word := ⟨['h', 'i'], by simp, by simp [nul, CString.isSpace], by decide⟩
  obtain ⟨s, hrun, hprinted⟩ := holds_init.run [hello, hi]
  have htyped := h [hello, hi]
  rw [hrun, Option.map_some, hprinted] at htyped
  exact absurd htyped (by decide)

end NetworkProtocol.Echo
