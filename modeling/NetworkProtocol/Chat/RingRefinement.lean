import NetworkProtocol.Chat.RingDelivery

/-! The ring against what it is meant to be, a first-in first-out queue of at most 100
messages. Run side by side, the two differ at the missed full test and at the last message. -/
namespace NetworkProtocol.Chat

structure Queue where
  waiting : List Message := []
  taken : List Message := []
  deriving DecidableEq, Repr

def Queue.call (q : Queue) : Call → Queue
  | .enqueue mes => if q.waiting.length < 100 then { q with waiting := q.waiting ++ [mes] } else q
  | .dequeue =>
    match q.waiting with
    | [] => q
    | mes :: waiting => { waiting := waiting, taken := q.taken ++ [mes] }

def pairStep (p : Log × Queue) (c : Call) : Option (Log × Queue) := some (call p.1 c, p.2.call c)

def Alike (p : Log × Queue) : Prop :=
  stored p.1.ring = p.2.waiting ∧ p.1.dequeued = p.2.taken

/-- No enqueue is made at front = 0, rear = 99, and no dequeue while one message is stored. -/
def Modest (p : Log × Queue) : Call → Prop
  | .enqueue _ => ¬ AtEnd p.1.ring
  | .dequeue => (stored p.1.ring).length ≠ 1

section Tests
variable {l : Log}

/-- isFull answers yes for a hundred stored messages, but not at front = 0, rear = 99. -/
theorem isFull_iff (h : Inv l) :
    isFull l.ring = true ↔ (stored l.ring).length = 100 ∧ ¬ AtEnd l.ring := by
  rcases eq_or_ne l.accepted [] with hnil | hne
  · obtain ⟨hf, hr, -, -⟩ := h.fresh hnil
    simp [isFull, stored, hf, hr]
  · obtain ⟨hr, hf, -, -⟩ := h.counted hne
    rw [h.stored_length hne]
    simp only [isFull, decide_eq_true_eq, occupied, maxMessageQueueSize, AtEnd, hr, hf]
    omega

/-- isEmpty answers yes for no stored message, and for one. -/
theorem isEmpty_iff (h : Inv l) : isEmpty l.ring = true ↔ (stored l.ring).length ≤ 1 := by
  rcases eq_or_ne l.accepted [] with hnil | hne
  · obtain ⟨hf, hr, -, -⟩ := h.fresh hnil
    simp [isEmpty, stored, hf, hr]
  · obtain ⟨hr, hf, -, -⟩ := h.counted hne
    rw [h.stored_length hne]
    simp only [isEmpty, decide_eq_true_eq, occupied, maxMessageQueueSize, hr, hf]
    omega

/-- An accepted enqueue adds to the window, or starts it anew when it overruns. -/
theorem stored_enqueue (h : Inv l) (hfull : isFull l.ring = false) (mes : Message) :
    stored (call l (.enqueue mes)).ring =
      if AtEnd l.ring then [mes] else stored l.ring ++ [mes] := by
  obtain ⟨hacc, hdeq, hover⟩ := call_accepted hfull mes
  rw [(keep_call h _).stored_eq_drop, h.stored_eq_drop, hacc, hdeq, hover]
  split
  · rename_i hend
    have hne : l.accepted ≠ [] := by
      intro hnil
      simp [AtEnd, (h.fresh hnil).1] at hend
    obtain ⟨hsum, -⟩ := h.balance hne
    have hhundred : occupied l.ring = 100 := by
      simp [occupied, maxMessageQueueSize, hend.1, hend.2]
    rw [List.drop_append, List.drop_eq_nil_of_le (by omega), List.nil_append]
    have hzero : l.dequeued.length + 100 * (l.overruns + 1) - l.accepted.length = 0 := by omega
    rw [hzero]
    rfl
  · have hle : l.dequeued.length + 100 * l.overruns ≤ l.accepted.length := by
      rcases eq_or_ne l.accepted [] with hnil | hne
      · simp [hnil, (h.fresh hnil).2.2.1, (h.fresh hnil).2.2.2]
      · have hsum := (h.balance hne).1
        omega
    rw [List.drop_append_of_le_length hle]

end Tests

section Steps
variable {l : Log} {q : Queue}

private theorem stored_length_le (h : Inv l) : (stored l.ring).length ≤ 100 := by
  rcases eq_or_ne l.accepted [] with hnil | hne
  · simp [stored, (h.fresh hnil).1]
  · rw [h.stored_length hne]
    exact (h.balance hne).2

private theorem alike_enqueue (h : Inv l) (hq : Alike (l, q)) (mes : Message)
    (hend : ¬ AtEnd l.ring) : Alike (call l (.enqueue mes), q.call (.enqueue mes)) := by
  obtain ⟨hstored, htaken⟩ := hq
  dsimp only at hstored htaken
  have hfull := isFull_iff h
  have hle := stored_length_le h
  rw [hstored] at hfull hle
  rcases Bool.eq_false_or_eq_true (isFull l.ring) with hyes | hno
  · obtain ⟨hhundred, -⟩ := hfull.mp hyes
    have hsame : call l (.enqueue mes) = l := by simp [call, enqueue, hyes]
    simp [Alike, Queue.call, hsame, hhundred, hstored, htaken]
  · have hroom : q.waiting.length < 100 := by
      refine Nat.lt_of_le_of_ne hle fun hhundred => ?_
      rw [hfull.mpr ⟨hhundred, hend⟩] at hno
      cases hno
    have hnew := stored_enqueue h hno mes
    rw [if_neg hend, hstored] at hnew
    obtain ⟨-, hdeq, -⟩ := call_accepted hno mes
    simp [Alike, Queue.call, hroom, hnew, hdeq, htaken]

private theorem alike_dequeue (h : Inv l) (hq : Alike (l, q))
    (hone : (stored l.ring).length ≠ 1) : Alike (call l .dequeue, q.call .dequeue) := by
  obtain ⟨hstored, htaken⟩ := hq
  dsimp only at hstored htaken
  have hempty := isEmpty_iff h
  rcases Bool.eq_false_or_eq_true (isEmpty l.ring) with hyes | hno
  · have hsame : call l .dequeue = l := by simp [call, dequeue, hyes]
    have hnil : stored l.ring = [] := by
      have hle := hempty.mp hyes
      exact List.eq_nil_of_length_eq_zero (by omega)
    have hwaiting : q.waiting = [] := hstored.symm.trans hnil
    simp [Alike, Queue.call, hsame, hwaiting, hnil, htaken]
  · obtain ⟨mes, hdeq, -, -, hcons⟩ := stored_dequeue h hno
    have hwaiting : q.waiting = mes :: stored (call l .dequeue).ring := hstored.symm.trans hcons
    simp [Alike, Queue.call, hwaiting, hdeq, htaken]

private theorem apart_enqueue (h : Inv l) (hq : Alike (l, q)) (mes : Message)
    (hend : AtEnd l.ring) : ¬ Alike (call l (.enqueue mes), q.call (.enqueue mes)) := by
  rintro ⟨hstored', -⟩
  have hfull : isFull l.ring = false := by simp [isFull, hend.1, hend.2]
  have hne : l.accepted ≠ [] := by
    intro hnil
    simp [AtEnd, (h.fresh hnil).1] at hend
  have hhundred : q.waiting.length = 100 := by
    rw [← hq.1, h.stored_length hne]
    simp [occupied, maxMessageQueueSize, hend.1, hend.2]
  have hlen := congrArg List.length hstored'
  rw [stored_enqueue h hfull mes, if_pos hend] at hlen
  simp [Queue.call, hhundred] at hlen

private theorem apart_dequeue (h : Inv l) (hq : Alike (l, q))
    (hone : (stored l.ring).length = 1) : ¬ Alike (call l .dequeue, q.call .dequeue) := by
  rintro ⟨hstored', -⟩
  have hyes := (isEmpty_iff h).mpr hone.le
  have hsame : call l .dequeue = l := by simp [call, dequeue, hyes]
  obtain ⟨mes, hmes⟩ := List.length_eq_one_iff.mp hone
  have hwaiting : q.waiting = [mes] := hq.1.symm.trans hmes
  simp [Queue.call, hsame, hwaiting, hmes] at hstored'

end Steps

/-- Ring and queue store and hand out the same in every state of a run just when no enqueue of
the run meets front = 0, rear = 99 and no dequeue meets a single stored message. -/
theorem alike_iff (memory : Int → Message) (calls : List Call) :
    Runs.Visits pairStep Alike (start memory, {}) calls ↔
      Runs.Along pairStep Modest (start memory, {}) calls := by
  apply Runs.visits_iff_along (I := fun p => Inv p.1 ∧ Alike p)
  · rintro ⟨l, q⟩ c p' ⟨h, hq⟩ hstep hok
    obtain rfl := Option.some.inj hstep
    refine ⟨keep_call h c, ?_⟩
    cases c with
    | enqueue mes => exact alike_enqueue h hq mes hok
    | dequeue => exact alike_dequeue h hq hok
  · exact fun p hp => hp.2
  · rintro ⟨l, q⟩ c p' ⟨h, hq⟩ hstep hbad
    obtain rfl := Option.some.inj hstep
    cases c with
    | enqueue mes => exact apart_enqueue h hq mes (not_not.mp hbad)
    | dequeue => exact apart_dequeue h hq (not_not.mp hbad)
  · exact ⟨inv_start memory, rfl, rfl⟩

end NetworkProtocol.Chat
