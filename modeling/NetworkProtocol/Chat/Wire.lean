import NetworkProtocol.Chat.RingLaw
import NetworkProtocol.Library.CMemory

/-! The messages of the chat as the structs they are kept in: typed into one, sent whole, copied
into a slot of the malloc'ed array and sent from there. What is read of them is what the ring
over texts says, whatever the memory held before. -/
namespace NetworkProtocol.Chat
open CMemory

def maxBufferSize : Nat := 1024

structure MessageBlock where
  userId : Int
  message : Block

/-- What scanf's %s can take from the terminal. -/
structure Word where
  text : CString
  ne_nil : text ≠ []
  visible : ∀ c ∈ text, c ≠ nul ∧ CString.isSpace c = false

/-- The client's main: memset, scanf, userId = -1. -/
def typed (word : Word) : Option MessageBlock :=
  (writeString (zeroed maxBufferSize []) 0 word.text).map (⟨-1, ·⟩)

/-- The array of structs with its two indices, and what the clients have printed of the structs
sent to them. -/
structure Structs where
  messages : Int → MessageBlock
  front : Int := -1
  rear : Int := -1
  printed : List Message := []

/-- A word typed at a client and received by the thread with that *tid, or a dequeue by the
sender. -/
inductive Turn where
  | say (tid : Nat) (word : Word)
  | hand

/-- enqueue's copy into a slot: the struct's userId, and strcpy. -/
def copyTo (slot mes : MessageBlock) : Option MessageBlock := do
  let text ← cString mes.message
  let message ← writeString slot.message 0 text
  return { userId := mes.userId, message := message }

def shown (mes : MessageBlock) : Option Message := (cString mes.message).map (⟨mes.userId, ·⟩)

/-- Whole recvs and whole calls; none stands for a read or a write that leaves its array. -/
def Structs.step (s : Structs) : Turn → Option Structs
  | .say tid word => do
    let received ← typed word
    if s.front = s.rear + 1 then return s
    else
      let rear := (s.rear + 1).tmod maxMessageQueueSize
      let slot ← copyTo (s.messages rear) { received with userId := tid }
      return { s with
        messages := Function.update s.messages rear slot
        front := if s.front = -1 then 0 else s.front
        rear := rear }
  | .hand =>
    if s.rear = s.front then some s
    else (shown (s.messages s.front)).map fun mes =>
      { s with
        front := (s.front + 1).tmod maxMessageQueueSize
        printed := s.printed ++ [mes] }

def Turn.call : Turn → Call
  | .say tid word => .enqueue ⟨tid, word.text⟩
  | .hand => .dequeue

def Turn.Fits : Turn → Prop
  | .say _ word => word.text.length < maxBufferSize
  | .hand => True

/-- The slots that have been written hold the texts of the ring; the others hold anything. -/
structure Reads (s : Structs) (l : Log) : Prop where
  inv : Inv l
  front : s.front = l.ring.front
  rear : s.rear = l.ring.rear
  size : ∀ i, (s.messages i).message.length = maxBufferSize
  written : ∀ k < l.accepted.length, shown (s.messages (k % 100 : Nat)) =
    some (l.ring.messages (k % 100 : Nat))
  printed : s.printed = l.dequeued

section Copy
variable {slot : MessageBlock} {word : Word}

/-- scanf reads no NUL. -/
theorem Word.free (word : Word) : nul ∉ word.text :=
  fun hmem => (word.visible nul hmem).1 rfl

/-- A word that fits is in the struct with zeros behind it. -/
theorem typed_eq (h : word.text.length < maxBufferSize) :
    typed word = some ⟨-1, zeroed maxBufferSize word.text⟩ := by
  rw [typed, writeString_zeroed h, Option.map_some]

/-- What the slot held before does not show in what is read from it. -/
theorem copyTo_typed (h : word.text.length < maxBufferSize)
    (hslot : slot.message.length = maxBufferSize) (tid : Nat) :
    ∃ slot', copyTo slot ⟨tid, zeroed maxBufferSize word.text⟩ = some slot' ∧
      slot'.message.length = maxBufferSize ∧ shown slot' = some ⟨tid, word.text⟩ := by
  have hread : cString (zeroed maxBufferSize word.text) = some word.text :=
    cString_zeroed_alone word.free h
  have hfits : 0 + (word.text ++ [nul]).length ≤ slot.message.length := by
    rw [hslot, List.length_append, List.length_singleton]
    omega
  obtain ⟨message, hwrite, hlength⟩ := exists_write hfits
  have hback : cString message = some word.text :=
    cString_writeString word.free (Nat.zero_le _) hwrite
  refine ⟨⟨tid, message⟩, ?_, hlength.trans hslot, ?_⟩
  · simp [copyTo, hread, writeString, hwrite]
  · rw [shown, hback, Option.map_some]

end Copy

section Turns
variable {s : Structs} {l : Log}

private theorem Reads.say (h : Reads s l) (tid : Nat) {word : Word}
    (hfits : word.text.length < maxBufferSize) :
    ∃ s', s.step (.say tid word) = some s' ∧ Reads s' (call l (.enqueue ⟨tid, word.text⟩)) := by
  rcases Bool.eq_false_or_eq_true (isFull l.ring) with hfull | hfull
  · have hstop : s.front = s.rear + 1 := by
      rw [h.front, h.rear]
      simpa [isFull] using hfull
    refine ⟨s, ?_, ?_⟩
    · simp [Structs.step, typed_eq hfits, hstop]
    · simpa [call, enqueue, hfull] using h
  · have hgo : ¬ s.front = s.rear + 1 := by
      rw [h.front, h.rear]
      simpa [isFull] using hfull
    have hrear : (s.rear + 1).tmod maxMessageQueueSize = (l.accepted.length % 100 : Nat) := by
      rw [h.rear]
      exact next_rear h.inv
    obtain ⟨slot, hcopy, hsize, hshown⟩ :=
      copyTo_typed hfits (h.size (l.accepted.length % 100 : Nat)) tid
    have hcall : call l (.enqueue ⟨tid, word.text⟩) =
        { l with
          ring :=
            { messages := Function.update l.ring.messages (l.accepted.length % 100 : Nat)
                ⟨tid, word.text⟩
              front := if l.ring.front = -1 then 0 else l.ring.front
              rear := (l.accepted.length % 100 : Nat) }
          accepted := l.accepted ++ [⟨tid, word.text⟩]
          used := l.used ++ [((l.accepted.length % 100 : Nat) : Int)]
          overruns := if AtEnd l.ring then l.overruns + 1 else l.overruns } := by
      simp [call, enqueue, hfull, next_rear h.inv]
    have hstep : s.step (.say tid word) = some
        { s with
          messages := Function.update s.messages (l.accepted.length % 100 : Nat) slot
          front := if s.front = -1 then 0 else s.front
          rear := (l.accepted.length % 100 : Nat) } := by
      simp only [Structs.step, typed_eq hfits, hgo, hrear, hcopy, Option.bind_eq_bind,
        Option.bind_some, if_false]
      rfl
    refine ⟨_, hstep, keep_call h.inv _, ?_, ?_, ?_, ?_, ?_⟩
    · rw [hcall, ← h.front]
    · rw [hcall]
    · intro i
      dsimp only
      rcases eq_or_ne i (l.accepted.length % 100 : Nat) with rfl | hne
      · rw [Function.update_self]
        exact hsize
      · rw [Function.update_of_ne hne]
        exact h.size i
    · intro k hk
      rw [hcall] at hk ⊢
      dsimp only at hk ⊢
      rcases eq_or_ne (k % 100) (l.accepted.length % 100) with heq | hne
      · rw [heq, Function.update_self, Function.update_self]
        exact hshown
      · have hold : k < l.accepted.length := by
          rw [List.length_append, List.length_singleton] at hk
          rcases Nat.lt_succ_iff_lt_or_eq.mp hk with hlt | rfl
          · exact hlt
          · exact absurd rfl hne
        have hcast : ((k % 100 : Nat) : Int) ≠ (l.accepted.length % 100 : Nat) :=
          fun h => hne (Int.ofNat.inj h)
        rw [Function.update_of_ne hcast, Function.update_of_ne hcast]
        exact h.written k hold
    · rw [hcall]
      exact h.printed

/-- A struct sent is one that was written. -/
theorem Reads.hand (h : Reads s l) :
    ∃ s', s.step .hand = some s' ∧ Reads s' (call l .dequeue) := by
  rcases Bool.eq_false_or_eq_true (isEmpty l.ring) with hempty | hempty
  · have hstop : s.rear = s.front := by
      rw [h.front, h.rear]
      simpa [isEmpty] using hempty
    refine ⟨s, by simp [Structs.step, hstop], ?_⟩
    simpa [call, dequeue, hempty] using h
  · have hgo : ¬ s.rear = s.front := by
      rw [h.front, h.rear]
      simpa [isEmpty] using hempty
    have hne : l.accepted ≠ [] := by
      intro hnil
      obtain ⟨hf, hr, -, -⟩ := h.inv.fresh hnil
      simp [isEmpty, hf, hr] at hempty
    have hcounted := h.inv.counted hne
    have hshown : shown (s.messages s.front) = some (l.ring.messages l.ring.front) := by
      rw [h.front, hcounted.front]
      exact h.written l.dequeued.length hcounted.ahead
    have hcall : call l .dequeue =
        { l with
          ring := { l.ring with front := (l.ring.front + 1).tmod maxMessageQueueSize }
          dequeued := l.dequeued ++ [l.ring.messages l.ring.front]
          used := l.used ++ [l.ring.front] } := by
      simp [call, dequeue, hempty]
    have hstep : s.step .hand = some
        { s with
          front := (s.front + 1).tmod maxMessageQueueSize
          printed := s.printed ++ [l.ring.messages l.ring.front] } := by
      rw [Structs.step, if_neg hgo, hshown, Option.map_some]
    refine ⟨_, hstep, keep_call h.inv _, ?_, ?_, ?_, ?_, ?_⟩
    · rw [hcall, h.front]
    · rw [hcall]
      exact h.rear
    · exact h.size
    · rw [hcall]
      exact h.written
    · rw [hcall, h.printed]

private theorem Reads.run (h : Reads s l) (turns : List Turn) (hfits : ∀ t ∈ turns, t.Fits) :
    ∃ s', Runs.run Structs.step s turns = some s' ∧
      Reads s' ((turns.map Turn.call).foldl call l) := by
  induction turns generalizing s l with
  | nil => exact ⟨s, rfl, h⟩
  | cons t turns ih =>
    obtain ⟨ht, hfits⟩ := List.forall_mem_cons.mp hfits
    obtain ⟨s', hstep, h'⟩ : ∃ s', s.step t = some s' ∧ Reads s' (call l t.call) := by
      cases t with
      | say tid word => exact h.say tid ht
      | hand => exact h.hand
    obtain ⟨s'', hrun, h''⟩ := ih h' hfits
    exact ⟨s'', by rw [Runs.run_cons, hstep]; exact hrun, h''⟩

end Turns

/-- Whatever malloc left in the array, and whatever longer words a slot held before: no struct is
read or written beyond its array, and the clients print what the ring over texts hands out. -/
theorem printed_as_handed (blocks : Int → MessageBlock) (memory : Int → Message)
    (turns : List Turn) (hblocks : ∀ i, (blocks i).message.length = maxBufferSize)
    (hfits : ∀ t ∈ turns, t.Fits) :
    ∃ s, Runs.run Structs.step { messages := blocks } turns = some s ∧
      s.printed = (exec memory (turns.map Turn.call)).dequeued ∧
      s.front = (exec memory (turns.map Turn.call)).ring.front ∧
      s.rear = (exec memory (turns.map Turn.call)).ring.rear := by
  have hstart : Reads { messages := blocks } (start memory) :=
    ⟨inv_start memory, rfl, rfl, hblocks, by simp [start], rfl⟩
  obtain ⟨s, hrun, h⟩ := hstart.run turns hfits
  exact ⟨s, hrun, h.printed, h.front, h.rear⟩

private def wordOf (c : Char) (n : Nat) (h : c ≠ nul ∧ CString.isSpace c = false) : Word :=
  ⟨List.replicate (n + 1) c, by simp, fun d hd => List.eq_of_mem_replicate hd ▸ h⟩

private theorem visible_h : 'h' ≠ nul ∧ CString.isSpace 'h' = false := by
  simp [nul, CString.isSpace]

private theorem visible_y : 'y' ≠ nul ∧ CString.isSpace 'y' = false := by
  simp [nul, CString.isSpace]

/-- A short word over memory that holds no NUL at all. -/
theorem printed_from_garbage : ∃ s,
    Runs.run Structs.step { messages := fun _ => ⟨7, List.replicate maxBufferSize 'x'⟩ }
      [.say 0 (wordOf 'h' 1 visible_h), .say 1 (wordOf 'y' 2 visible_y), .hand] = some s ∧
    s.printed = [⟨0, ['h', 'h']⟩] := by
  obtain ⟨s, hrun, hprinted, -⟩ := printed_as_handed
    (fun _ => ⟨7, List.replicate maxBufferSize 'x'⟩) (fun _ => ⟨0, []⟩)
    [.say 0 (wordOf 'h' 1 visible_h), .say 1 (wordOf 'y' 2 visible_y), .hand]
    (fun _ => List.length_replicate) (by simp [Turn.Fits, wordOf, maxBufferSize])
  exact ⟨s, hrun, hprinted⟩

end NetworkProtocol.Chat
