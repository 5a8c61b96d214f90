import NetworkProtocol.Library.Runs

/-! One direction of a connection as an ordered byte stream of records of one size, and the loop
that calls recv once for each turn and handles whatever it got as a record. -/
namespace ByteStream
variable {β γ : Type*} {size : Nat}

structure Record (β : Type*) (size : Nat) where
  bytes : List β
  length_bytes : bytes.length = size
  deriving DecidableEq

/-- What the peer has sent, part of a record being the last of it when it stopped inside one, and
how much of it the loop has received and handled. -/
structure Loop (β γ : Type*) (size : Nat) where
  sent : List (Record β size) := []
  part : List β := []
  closed : Bool := false
  received : Nat := 0
  handled : List γ := []

inductive Event (β : Type*) (size : Nat) where
  | send (record : Record β size)
  | close (part : List β)
  | recv (k : Nat)

namespace Loop

def bytes (s : Loop β γ size) : List β := (s.sent.map Record.bytes).flatten ++ s.part

/-- recv returns at most as much as was asked for and is pending, and 0 at the end only. -/
def Returns (s : Loop β γ size) (k : Nat) : Prop :=
  if k = 0 then s.closed ∧ s.received = s.bytes.length
  else k ≤ size ∧ s.received + k ≤ s.bytes.length

instance (s : Loop β γ size) (k : Nat) : Decidable (s.Returns k) := by
  unfold Returns
  infer_instance

def step (handle : List β → γ) (s : Loop β γ size) : Event β size → Option (Loop β γ size)
  | .send record => if s.closed then none else some { s with sent := s.sent ++ [record] }
  | .close part =>
    if s.closed ∨ size ≤ part.length then none else some { s with part := part, closed := true }
  | .recv k =>
    if s.Returns k then
      some { s with
        received := s.received + k
        handled := s.handled ++ [handle ((s.bytes.drop s.received).take k)] }
    else none

/-- Only records sent are handled, in order and as they were meant, and every one that has been
received. -/
def Exact (meaning : Record β size → γ) (s : Loop β γ size) : Prop :=
  s.handled <+: s.sent.map meaning ∧
    (s.sent.length * size ≤ s.received → s.handled = s.sent.map meaning)

/-- A recv returns one whole record. -/
def Whole (_ : Loop β γ size) : Event β size → Prop
  | .recv k => k = size
  | _ => True

structure Aligned (meaning : Record β size → γ) (s : Loop β γ size) : Prop where
  received : s.received = s.handled.length * size
  handled : s.handled = (s.sent.map meaning).take s.handled.length
  part : s.part.length < size

/-- Whole records have a whole number of sizes. -/
theorem length_flatten (sent : List (Record β size)) :
    (sent.map Record.bytes).flatten.length = sent.length * size := by
  induction sent with
  | nil => simp
  | cons r sent ih =>
    rw [List.map_cons, List.flatten_cons, List.length_append, ih, r.length_bytes, List.length_cons,
      Nat.succ_mul, Nat.add_comm]

/-- What was sent is its records and the part of one. -/
theorem length_bytes (s : Loop β γ size) :
    s.bytes.length = s.sent.length * size + s.part.length := by
  rw [bytes, List.length_append, length_flatten]

/-- Where the records before it end, a whole record is found. -/
theorem chunk_eq (sent : List (Record β size)) (part : List β) {n : Nat} (hn : n < sent.length) :
    ((((sent.map Record.bytes).flatten ++ part).drop (n * size)).take size) = sent[n].bytes := by
  induction sent generalizing n with
  | nil => simp at hn
  | cons r sent ih =>
    rw [List.map_cons, List.flatten_cons, List.append_assoc]
    cases n with
    | zero =>
      rw [Nat.zero_mul, List.drop_zero]
      exact List.take_left' r.length_bytes
    | succ n =>
      have hskip : (n + 1) * size = r.bytes.length + n * size := by
        rw [r.length_bytes, Nat.succ_mul, Nat.add_comm]
      rw [hskip, ← List.drop_drop, List.drop_left]
      exact ih (Nat.lt_of_succ_lt_succ hn)

section Steps
variable {handle : List β → γ} {meaning : Record β size → γ} {s s' : Loop β γ size}
  {record : Record β size} {part : List β} {k : Nat} {a : Event β size}

/-- A record can be sent as long as the stream is open. -/
theorem step_send (h : step handle s (.send record) = some s') :
    s.closed = false ∧ s' = { s with sent := s.sent ++ [record] } := by
  obtain ⟨hopen, h⟩ := Option.ite_none_left_eq_some.mp h
  exact ⟨Bool.of_not_eq_true hopen, (Option.some.inj h).symm⟩

/-- The stream closes with less than a record. -/
theorem step_close (h : step handle s (.close part) = some s') :
    s.closed = false ∧ part.length < size ∧ s' = { s with part := part, closed := true } := by
  obtain ⟨hopen, h⟩ := Option.ite_none_left_eq_some.mp h
  rw [not_or, not_le] at hopen
  exact ⟨Bool.of_not_eq_true hopen.1, hopen.2, (Option.some.inj h).symm⟩

/-- A recv takes what it returns. -/
theorem step_recv (h : step handle s (.recv k) = some s') :
    s.Returns k ∧ s' = { s with
      received := s.received + k
      handled := s.handled ++ [handle ((s.bytes.drop s.received).take k)] } :=
  Runs.guarded h

/-- recv returns neither more than it may nor more than there is. -/
theorem Returns.le (h : s.Returns k) : k ≤ size ∧ s.received + k ≤ s.bytes.length := by
  rw [Returns] at h
  split at h
  · rename_i hzero
    exact ⟨by omega, by omega⟩
  · exact h

/-- No record is handled that was not sent. -/
theorem Aligned.length_le (h : Aligned meaning s) : s.handled.length ≤ s.sent.length := by
  have hlength := congrArg List.length h.handled
  rw [List.length_take, List.length_map] at hlength
  omega

/-- Where recv is aligned, what is handled is what was sent. -/
theorem Aligned.exact (hsize : 0 < size) (h : Aligned meaning s) : Exact meaning s := by
  refine ⟨?_, ?_⟩
  · rw [h.handled]
    exact List.take_prefix _ _
  · intro hall
    rw [h.received] at hall
    have hle : s.sent.length ≤ s.handled.length := Nat.le_of_mul_le_mul_right hall hsize
    rw [h.handled, List.take_of_length_le (by simpa using hle)]

private theorem Aligned.send (h : Aligned meaning s) (record : Record β size) :
    Aligned meaning { s with sent := s.sent ++ [record] } := by
  refine ⟨h.received, ?_, h.part⟩
  change s.handled = ((s.sent ++ [record]).map meaning).take s.handled.length
  rw [List.map_append, List.take_append_of_le_length (by simpa using h.length_le)]
  exact h.handled

private theorem Aligned.recv (hhandle : ∀ r : Record β size, handle r.bytes = meaning r)
    (h : Aligned meaning s) (hreturns : s.Returns size) :
    Aligned meaning { s with
      received := s.received + size
      handled := s.handled ++ [handle ((s.bytes.drop s.received).take size)] } := by
  have hnext : s.handled.length < s.sent.length := by
    have hle := hreturns.le.2
    rw [length_bytes, h.received] at hle
    have hpart := h.part
    by_contra hge
    have hmul := Nat.mul_le_mul_right size (not_lt.mp hge)
    omega
  have hchunk : (s.bytes.drop s.received).take size = s.sent[s.handled.length].bytes := by
    rw [h.received]
    exact chunk_eq s.sent s.part hnext
  refine ⟨?_, ?_, h.part⟩
  · rw [List.length_append, List.length_singleton, Nat.succ_mul, h.received]
  · change s.handled ++ _ = List.take (s.handled ++ _).length _
    rw [List.length_append, List.length_singleton, List.take_succ_eq_append_getElem (by simpa),
      ← h.handled, hchunk, hhandle, List.getElem_map]

private theorem Aligned.step (hhandle : ∀ r : Record β size, handle r.bytes = meaning r)
    (h : Aligned meaning s) (hstep : step handle s a = some s')
    (hok : Whole s a) : Aligned meaning s' := by
  cases a with
  | send record =>
    obtain ⟨-, rfl⟩ := step_send hstep
    exact h.send record
  | close part =>
    obtain ⟨-, hpart, rfl⟩ := step_close hstep
    exact ⟨h.received, h.handled, hpart⟩
  | recv k =>
    obtain ⟨hreturns, rfl⟩ := step_recv hstep
    obtain rfl : k = size := hok
    exact h.recv hhandle hreturns

/-- How far the number of turns is ahead of the bytes received. -/
def lead (s : Loop β γ size) : Int := s.handled.length * size - s.received

private theorem lead_step (hstep : step handle s a = some s') :
    s.lead ≤ s'.lead ∧ (s'.lead = s.lead ↔ Whole s a) := by
  cases a with
  | send record =>
    obtain ⟨-, rfl⟩ := step_send hstep
    exact ⟨Int.le_refl _, iff_of_true rfl trivial⟩
  | close part =>
    obtain ⟨-, -, rfl⟩ := step_close hstep
    exact ⟨Int.le_refl _, iff_of_true rfl trivial⟩
  | recv k =>
    obtain ⟨hreturns, rfl⟩ := step_recv hstep
    have hle := hreturns.le.1
    have hlead : lead { s with
        received := s.received + k
        handled := s.handled ++ [handle ((s.bytes.drop s.received).take k)] } =
        s.lead + (size - k) := by
      simp only [lead, List.length_append, List.length_singleton]
      push_cast
      rw [Int.add_mul, Int.one_mul]
      omega
    rw [hlead, Whole]
    omega

private theorem lead_run {events : List (Event β size)}
    (hrun : Runs.run (Loop.step handle) s events = some s') :
    s.lead ≤ s'.lead ∧ (s'.lead = s.lead ↔ Runs.Along (Loop.step handle) Whole s events) := by
  induction events generalizing s with
  | nil =>
    obtain rfl := Option.some.inj hrun
    exact ⟨Int.le_refl _, iff_of_true rfl (Runs.along_nil s)⟩
  | cons a events ih =>
    obtain ⟨t, ht, hrun⟩ := Option.bind_eq_some_iff.mp hrun
    obtain ⟨hle, hwhole⟩ := lead_step ht
    obtain ⟨hle', halong⟩ := ih hrun
    refine ⟨Int.le_trans hle hle', ?_⟩
    rw [Runs.along_cons]
    constructor
    · rintro heq u hu
      obtain rfl := Option.some.inj (ht.symm.trans hu)
      exact ⟨hwhole.mp (by omega), halong.mp (by omega)⟩
    · intro h
      obtain ⟨hok, hrest⟩ := h t ht
      exact (halong.mpr hrest).trans (hwhole.mpr hok)

end Steps

/-- The loop is exact as long as each recv returns one whole record, and once everything sent has
been received it is so in no other case. -/
theorem exact_iff (hsize : 0 < size) {handle : List β → γ} {meaning : Record β size → γ}
    (hhandle : ∀ r : Record β size, handle r.bytes = meaning r) (events : List (Event β size)) :
    (Runs.Along (step handle) Whole {} events →
      Runs.Visits (step handle) (Exact meaning) {} events) ∧
    ∀ s, Runs.run (step handle) {} events = some s → s.received = s.bytes.length →
      (Exact meaning s ↔ Runs.Along (step handle) Whole {} events) := by
  have hstart : Aligned meaning ({} : Loop β γ size) := ⟨(Nat.zero_mul size).symm, rfl, hsize⟩
  have hvisits : Runs.Along (step handle) Whole {} events →
      Runs.Visits (step handle) (Aligned meaning) {} events := by
    intro h
    exact h.visits (fun s a s' => Aligned.step hhandle) hstart
  refine ⟨fun h => (hvisits h).mono fun s h => h.exact hsize, ?_⟩
  intro s hrun hall
  constructor
  · rintro ⟨hsent, -⟩
    obtain ⟨hle, hwhole⟩ := lead_run hrun
    apply hwhole.mp
    -- as many turns as records leave no byte of another record
    have hcount : s.handled.length * size ≤ s.sent.length * size := by
      simpa using Nat.mul_le_mul_right size hsent.length_le
    have hzero : ({} : Loop β γ size).lead = 0 := by simp [lead]
    rw [length_bytes] at hall
    rw [hzero, lead] at hle ⊢
    omega
  · exact fun h => (hvisits h events s (List.prefix_refl _) hrun).exact hsize

end Loop

/-- recv of at most size bytes: some of those pending, or none once the peer is gone. -/
def pull (size : Nat) (gone : Bool) (pending : List β) (k : Nat) : Option (List β × List β) :=
  if k = 0 then
    if gone && pending.isEmpty then some ([], []) else none
  else if k ≤ size ∧ k ≤ pending.length then some (pending.take k, pending.drop k)
  else none

/-- A stream of whole records, each of which is read as the message in its place. -/
def Bears (read : List β → Option γ) (size : Nat) (stream : List β) (messages : List γ) : Prop :=
  ∃ records : List (Record β size), stream = (records.map Record.bytes).flatten ∧
    records.map (read ·.bytes) = messages.map some

section Bears
variable {read : List β → Option γ} {stream : List β} {messages : List γ} {message : γ}

/-- An empty stream bears nothing. -/
theorem bears_nil : Bears read size [] [] := ⟨[], rfl, rfl⟩

/-- A stream that bears nothing is empty. -/
theorem Bears.stream_eq_nil (h : Bears read size stream []) : stream = [] := by
  obtain ⟨records, rfl, hread⟩ := h
  rw [List.map_nil, List.map_eq_nil_iff] at hread
  rw [hread]
  rfl

/-- One record more. -/
theorem Bears.push (h : Bears read size stream messages) (record : Record β size)
    (hread : read record.bytes = some message) :
    Bears read size (stream ++ record.bytes) (messages ++ [message]) := by
  obtain ⟨records, rfl, hrecords⟩ := h
  refine ⟨records ++ [record], by simp, ?_⟩
  rw [List.map_append, List.map_append, hrecords]
  simp [hread]

/-- A recv of one whole record gets the next message. -/
theorem Bears.pull (hsize : 0 < size) (gone : Bool)
    (h : Bears read size stream (message :: messages)) :
    ∃ (record : Record β size) (rest : List β),
      ByteStream.pull size gone stream size = some (record.bytes, rest) ∧
        read record.bytes = some message ∧ Bears read size rest messages := by
  obtain ⟨records, rfl, hrecords⟩ := h
  cases records with
  | nil => cases hrecords
  | cons record records =>
    obtain ⟨hread, hrest⟩ := List.cons.inj hrecords
    refine ⟨record, (records.map Record.bytes).flatten, ?_, hread, records, rfl, hrest⟩
    rw [List.map_cons, List.flatten_cons, ByteStream.pull, if_neg (Nat.ne_of_gt hsize), if_pos]
    · rw [List.take_left' record.length_bytes, List.drop_left' record.length_bytes]
    · rw [List.length_append, record.length_bytes]
      exact ⟨Nat.le_refl _, Nat.le_add_right _ _⟩

/-- Nothing is received where nothing has been sent, by a peer that is there. -/
theorem pull_nil (k : Nat) : ByteStream.pull size false ([] : List β) k = none := by
  rw [ByteStream.pull]
  split
  · rfl
  · rename_i hk
    exact if_neg fun h => hk (Nat.le_zero.mp h.2)

end Bears
end ByteStream
