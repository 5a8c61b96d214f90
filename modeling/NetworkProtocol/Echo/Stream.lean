import NetworkProtocol.Echo.Echoer

/-! The echoer over a byte stream, where recv cuts what the sends have put together as it likes:
what is printed then, and when it is what was typed. -/
namespace NetworkProtocol.Echo
open CMemory

/-- Both processes, and what the stream between them still holds. words and chunks are history:
what was typed, and what recv has returned. In printed, none is a read beyond buff. -/
structure Connection where
  client : Block := zeroed maxBufferSize []
  server : Block := zeroed maxBufferSize []
  pending : List Char := []
  closed : Bool := false
  words : List Word := []
  chunks : List (List Char) := []
  printed : List (Option CString) := []

inductive Connection.Event where
  | word (word : Word)
  | close
  | recv (k : Nat)

namespace Connection

/-- recv returns at most as much as buff takes and is there, and 0 at the end only. -/
def Returns (c : Connection) (k : Nat) : Prop :=
  if k = 0 then c.closed ∧ c.pending = [] else k ≤ maxBufferSize ∧ k ≤ c.pending.length

instance (c : Connection) (k : Nat) : Decidable (c.Returns k) := by
  unfold Returns
  infer_instance

def step (c : Connection) : Event → Option Connection
  | .word word =>
    if c.closed then none
    else (typed c.client word).map (fun (client, bytes) =>
      { c with client := client, pending := c.pending ++ bytes, words := c.words ++ [word] })
  | .close => if c.closed then none else some { c with closed := true }
  | .recv k =>
    if c.Returns k then
      (write c.server 0 (c.pending.take k)).map (fun server =>
        { c with
          server := server
          pending := c.pending.drop k
          chunks := c.chunks ++ [c.pending.take k]
          printed := c.printed ++ [cString server] })
    else none

end Connection

/-- The text that chunks have left behind, each written over the ones before. -/
def covered (chunks : List (List Char)) : CString := chunks.foldl overlay []

/-- What printf shows of a text that starts buff: one without a NUL behind it has no end there. -/
def readable (text : CString) : Option CString :=
  if text.length < maxBufferSize then some text else none

structure Streams (c : Connection) : Prop where
  client : c.client.length = maxBufferSize
  server : c.server = zeroed maxBufferSize (covered c.chunks)
  free : nul ∉ covered c.chunks
  fits : (covered c.chunks).length ≤ maxBufferSize
  sent : c.chunks.flatten ++ c.pending = (c.words.map Word.text).flatten
  printed : c.printed = (shown [] c.chunks).map readable

private theorem length_overlay_eq_max (text chunk : CString) :
    (overlay text chunk).length = max text.length chunk.length := by
  rw [overlay, List.length_append, List.length_drop]
  omega

private theorem covered_concat (chunks : List (List Char)) (chunk : List Char) :
    covered (chunks ++ [chunk]) = overlay (covered chunks) chunk := by
  rw [covered, List.foldl_append]
  rfl

private theorem shown_concat (text : CString) (chunks : List CString) (chunk : CString) :
    shown text (chunks ++ [chunk]) =
      shown text chunks ++ [overlay (chunks.foldl overlay text) chunk] := by
  induction chunks generalizing text with
  | nil => rfl
  | cons first chunks ih =>
    rw [List.cons_append, shown, ih, shown, List.foldl_cons, List.cons_append]

/-- Every text shown stays below a length that every chunk stays below. -/
theorem shown_short_iff {text : CString} {n : Nat} (htext : text.length < n)
    (chunks : List CString) :
    (∀ t ∈ shown text chunks, t.length < n) ↔ ∀ chunk ∈ chunks, chunk.length < n := by
  induction chunks generalizing text with
  | nil => simp [shown]
  | cons chunk chunks ih =>
    rw [shown, List.forall_mem_cons, List.forall_mem_cons, length_overlay_eq_max, Nat.max_lt]
    constructor
    · rintro ⟨⟨-, hchunk⟩, hrest⟩
      exact ⟨hchunk, (ih (by rw [length_overlay_eq_max]; omega)).mp hrest⟩
    · rintro ⟨hchunk, hrest⟩
      exact ⟨⟨htext, hchunk⟩, (ih (by rw [length_overlay_eq_max]; omega)).mpr hrest⟩

/-- No letter received goes missing from the screen, and where none is shown twice each text
shown is the chunk received. -/
theorem length_flatten_shown (text : CString) (chunks : List CString) :
    chunks.flatten.length ≤ (shown text chunks).flatten.length ∧
      ((shown text chunks).flatten.length = chunks.flatten.length →
        shown text chunks = chunks) := by
  induction chunks generalizing text with
  | nil => exact ⟨Nat.le_refl _, fun _ => rfl⟩
  | cons chunk chunks ih =>
    obtain ⟨hle, hrest⟩ := ih (overlay text chunk)
    have hmax := length_overlay_eq_max text chunk
    simp only [shown, List.flatten_cons, List.length_append]
    refine ⟨by omega, fun heq => ?_⟩
    have hchunk : overlay text chunk = chunk := overlay_eq_iff.mpr (by omega)
    rw [hrest (by omega), hchunk]

private theorem eq_of_readable {text word : CString} (h : readable text = some word) :
    text = word := by
  rw [readable] at h
  split at h
  · exact Option.some.inj h
  · cases h

private theorem eq_of_map_readable {texts words : List CString}
    (h : texts.map readable = words.map some) : texts = words := by
  induction texts generalizing words with
  | nil => exact (List.map_eq_nil_iff.mp h.symm).symm
  | cons text texts ih =>
    cases words with
    | nil => cases h
    | cons word words =>
      obtain ⟨hword, hwords⟩ := List.cons.inj h
      rw [eq_of_readable hword, ih hwords]

private theorem cString_full {text : CString} (hfree : nul ∉ text)
    (hfits : text.length ≤ maxBufferSize) :
    cString (zeroed maxBufferSize text) = readable text := by
  rw [readable]
  split
  · rename_i hroom
    exact cString_zeroed_alone hfree hroom
  · rename_i hfull
    have hnone : zeroed maxBufferSize text = text := by
      rw [zeroed, Nat.sub_eq_zero_of_le (by omega), List.replicate_zero, List.append_nil]
    rw [hnone]
    exact cString_eq_none_iff.mpr hfree

private theorem streams_start : Streams {} where
  client := length_zeroed (Nat.zero_le _)
  server := rfl
  free := List.not_mem_nil
  fits := Nat.zero_le _
  sent := rfl
  printed := rfl

section Steps
variable {c c' : Connection}

private theorem Streams.pending_free (h : Streams c) : nul ∉ c.pending := by
  intro hmem
  have hsent : nul ∈ (c.words.map Word.text).flatten := by
    rw [← h.sent]
    exact List.mem_append_right _ hmem
  obtain ⟨text, htext, hnul⟩ := List.mem_flatten.mp hsent
  obtain ⟨word, -, rfl⟩ := List.mem_map.mp htext
  exact word.free hnul

private theorem Streams.word (h : Streams c) (word : Word)
    (hstep : c.step (.word word) = some c') : Streams c' := by
  rw [Connection.step] at hstep
  split at hstep
  · cases hstep
  · obtain ⟨client, htyped, hclient⟩ := typed_eq h.client word
    rw [htyped] at hstep
    obtain rfl := Option.some.inj hstep
    refine ⟨hclient, h.server, h.free, h.fits, ?_, h.printed⟩
    simp only [List.map_append, List.flatten_append, List.map_cons, List.map_nil,
      List.flatten_cons, List.flatten_nil, List.append_nil]
    rw [← List.append_assoc, h.sent]

private theorem Streams.recv (h : Streams c) {k : Nat}
    (hstep : c.step (.recv k) = some c') : Streams c' := by
  obtain ⟨hreturns, hstep⟩ := Option.ite_none_right_eq_some.mp hstep
  have hshort : (c.pending.take k).length ≤ maxBufferSize := by
    rw [List.length_take]
    rw [Connection.Returns] at hreturns
    split at hreturns <;> omega
  have hfree : nul ∉ overlay (covered c.chunks) (c.pending.take k) := by
    rw [overlay, List.mem_append, not_or]
    exact ⟨fun hmem => h.pending_free (List.mem_of_mem_take hmem),
      fun hmem => h.free (List.mem_of_mem_drop hmem)⟩
  have hfits : (overlay (covered c.chunks) (c.pending.take k)).length ≤ maxBufferSize := by
    rw [length_overlay_eq_max]
    exact Nat.max_le.mpr ⟨h.fits, hshort⟩
  rw [h.server, write_start (by rwa [length_zeroed h.fits]), overlay_zeroed h.fits hshort] at hstep
  obtain rfl := Option.some.inj hstep
  refine ⟨h.client, ?_, ?_, ?_, ?_, ?_⟩
  · rw [covered_concat]
  · rwa [covered_concat]
  · rwa [covered_concat]
  · simp only [List.flatten_append, List.flatten_cons, List.flatten_nil, List.append_nil]
    rw [List.append_assoc, List.take_append_drop, h.sent]
  · change c.printed ++ [cString _] = _
    rw [shown_concat, List.map_append, ← h.printed, cString_full hfree hfits]
    rfl

private theorem Streams.step {e : Connection.Event} (h : Streams c) (hstep : c.step e = some c') :
    Streams c' := by
  cases e with
  | word word => exact h.word word hstep
  | close =>
    obtain ⟨-, hstep⟩ := Option.ite_none_left_eq_some.mp hstep
    obtain rfl := Option.some.inj hstep
    exact ⟨h.client, h.server, h.free, h.fits, h.sent, h.printed⟩
  | recv k => exact h.recv hstep

private theorem Streams.readable_iff (h : Streams c) :
    none ∉ c.printed ↔ ∀ chunk ∈ c.chunks, chunk.length < maxBufferSize := by
  rw [← shown_short_iff (by decide : ([] : CString).length < maxBufferSize) c.chunks, h.printed,
    List.mem_map]
  constructor
  · intro hnone t ht
    by_contra hlong
    exact hnone ⟨t, ht, if_neg hlong⟩
  · rintro hshort ⟨t, ht, hnone⟩
    rw [readable, if_pos (hshort t ht)] at hnone
    cases hnone

private theorem map_readable {words : List Word} :
    (words.map Word.text).map readable = words.map (some ·.text) := by
  rw [List.map_map]
  refine List.map_congr_left fun word _ => if_pos ?_
  have hword := word.fits
  rw [maxBufferSize] at hword ⊢
  omega

/-- What was typed is on the screen where the sends were received one by one. -/
theorem Streams.exact_iff (h : Streams c) (hall : c.pending = []) :
    c.printed = c.words.map (some ·.text) ↔ c.chunks = c.words.map Word.text ∧
      c.words.Pairwise (fun earlier later => earlier.text.length ≤ later.text.length) := by
  have hsent := h.sent
  rw [hall, List.append_nil] at hsent
  have hpairwise (hchunks : c.chunks = c.words.map Word.text) : shown [] c.chunks = c.chunks ↔
      c.words.Pairwise (fun earlier later => earlier.text.length ≤ later.text.length) := by
    rw [shown_eq_iff, hchunks, List.pairwise_map]
    exact and_iff_right (fun word _ => Nat.zero_le _)
  rw [h.printed]
  constructor
  · intro hprinted
    have hshown : shown [] c.chunks = c.words.map Word.text := by
      apply eq_of_map_readable
      rw [hprinted, List.map_map]
      rfl
    have hsame : shown [] c.chunks = c.chunks :=
      (length_flatten_shown [] c.chunks).2 (by rw [hshown, hsent])
    have hchunks : c.chunks = c.words.map Word.text := hsame.symm.trans hshown
    exact ⟨hchunks, (hpairwise hchunks).mp hsame⟩
  · rintro ⟨hchunks, hlengths⟩
    rw [(hpairwise hchunks).mpr hlengths, hchunks, map_readable]

end Steps

/-- In every run, however the stream is cut: nothing is lost on the way, the server reads beyond
buff only once a recv has filled it, and when all has been received the words typed are printed
exactly if each recv returned one of them, and none is shorter than one before it. -/
theorem printed_over_stream (events : List Connection.Event) (c : Connection)
    (hrun : Runs.run Connection.step {} events = some c) :
    c.chunks.flatten ++ c.pending = (c.words.map Word.text).flatten ∧
      (none ∉ c.printed ↔ ∀ chunk ∈ c.chunks, chunk.length < maxBufferSize) ∧
      (c.pending = [] →
        (c.printed = c.words.map (some ·.text) ↔ c.chunks = c.words.map Word.text ∧
          c.words.Pairwise (fun earlier later => earlier.text.length ≤ later.text.length))) := by
  have hstart : Streams {} := streams_start
  have h : Streams c := Runs.run_invariant (fun _ _ _ h hstep => h.step hstep) hstart hrun
  exact ⟨h.sent, h.readable_iff, h.exact_iff⟩

private theorem hi_visible : ∀ c ∈ ['h', 'i'], c ≠ nul ∧ CString.isSpace c = false := by
  simp [nul, CString.isSpace]

private def hi : Word := ⟨['h', 'i'], List.cons_ne_nil _ _, hi_visible, by decide⟩

private def joined : List Connection.Event := [.word hi, .word hi, .recv 4]

/-- Two words that one recv returns are printed as one. -/
theorem joined_words : ∃ c, Runs.run Connection.step {} joined = some c ∧ c.pending = [] ∧
    c.printed ≠ c.words.map (some ·.text) := by
  have hrun : (Runs.run Connection.step {} joined).map (fun c =>
      (c.pending, c.chunks, c.words.map Word.text)) =
        some ([], [['h', 'i', 'h', 'i']], [['h', 'i'], ['h', 'i']]) := by decide +kernel
  obtain ⟨c, hc, hend⟩ := Option.map_eq_some_iff.mp hrun
  simp only [Prod.mk.injEq] at hend
  obtain ⟨hpending, hchunks, hwords⟩ := hend
  obtain ⟨-, -, hexact⟩ := printed_over_stream joined c hc
  refine ⟨c, hc, hpending, fun hprinted => ?_⟩
  have hcut := ((hexact hpending).mp hprinted).1
  rw [hchunks, hwords] at hcut
  cases hcut

end NetworkProtocol.Echo
