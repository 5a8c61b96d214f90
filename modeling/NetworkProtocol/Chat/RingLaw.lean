import NetworkProtocol.Chat.Ring

/-! What the two indices of the ring say about its history. In every reachable state they are
the numbers of messages accepted and handed out, modulo the size of the array. -/
namespace NetworkProtocol.Chat
open CyclicBuffer

structure Counted (l : Log) : Prop where
  rear : l.ring.rear = ((l.accepted.length - 1) % 100 : Nat)
  front : l.ring.front = (l.dequeued.length % 100 : Nat)
  ahead : l.dequeued.length < l.accepted.length
  overruns : l.overruns = (l.accepted.length - 1 - l.dequeued.length) / 100

structure Inv (l : Log) : Prop where
  fresh : l.accepted = [] →
    l.ring.front = -1 ∧ l.ring.rear = -1 ∧ l.dequeued = [] ∧ l.overruns = 0
  counted : l.accepted ≠ [] → Counted l
  holds : Holds 100 (fun k => l.ring.messages k) l.accepted
  order : l.dequeued.Sublist (l.accepted.take (l.dequeued.length + 100 * l.overruns))
  bounds : ∀ i ∈ l.used, 0 ≤ i ∧ i ≤ 99

/-- The ring starts empty. -/
theorem inv_start (memory : Int → Message) : Inv (start memory) where
  fresh := fun _ => ⟨rfl, rfl, rfl, rfl⟩
  counted := fun h => absurd rfl h
  holds := holds_nil
  order := List.Sublist.slnil
  bounds := by simp [start]

/-- The new rear is the number of messages accepted so far, modulo 100. -/
theorem next_rear {l : Log} (h : Inv l) :
    (l.ring.rear + 1).tmod maxMessageQueueSize = (l.accepted.length % 100 : Nat) := by
  rcases eq_or_ne l.accepted [] with hnil | hne
  · rw [(h.fresh hnil).2.1, hnil]
    rfl
  · have hpos := List.length_pos_of_ne_nil hne
    rw [(h.counted hne).rear, maxMessageQueueSize,
      Int.tmod_eq_emod_of_nonneg (by omega)]
    omega

private theorem enqueue_counts {l : Log} (h : Inv l) (hfull : isFull l.ring = false) :
    (if AtEnd l.ring then l.overruns + 1 else l.overruns) =
        (l.accepted.length - l.dequeued.length) / 100 ∧
      (if l.ring.front = -1 then 0 else l.ring.front) = (l.dequeued.length % 100 : Nat) ∧
      l.dequeued.length ≤ l.accepted.length := by
  have hnotfull : l.ring.front ≠ l.ring.rear + 1 := by simpa [isFull] using hfull
  rcases eq_or_ne l.accepted [] with hnil | hne
  · obtain ⟨hf, -, hd, ho⟩ := h.fresh hnil
    simp [AtEnd, hf, hd, ho, hnil]
  · obtain ⟨hr, hf, hlt, ho⟩ := h.counted hne
    refine ⟨?_, ?_, hlt.le⟩
    · by_cases hend : AtEnd l.ring
      · obtain ⟨hf', hr'⟩ := hend
        rw [if_pos ⟨hf', hr'⟩]
        omega
      · have hmiss : ¬ (l.ring.front = 0 ∧ l.ring.rear = 99) := hend
        rw [if_neg hend]
        omega
    · rw [if_neg (by omega), hf]

private theorem keep_enqueue {l : Log} (h : Inv l) (mes : Message) :
    Inv (call l (.enqueue mes)) := by
  rcases Bool.eq_false_or_eq_true (isFull l.ring) with hfull | hfull
  · simpa [call, enqueue, hfull] using h
  · have hrear := next_rear h
    have hcall : call l (.enqueue mes) =
        { ring :=
            { messages := Function.update l.ring.messages (l.accepted.length % 100 : Nat) mes
              front := if l.ring.front = -1 then 0 else l.ring.front
              rear := (l.accepted.length % 100 : Nat) }
          accepted := l.accepted ++ [mes]
          dequeued := l.dequeued
          used := l.used ++ [((l.accepted.length % 100 : Nat) : Int)]
          overruns := if AtEnd l.ring then l.overruns + 1 else l.overruns } := by
      simp [call, enqueue, hfull, hrear]
    obtain ⟨hover, hfront, hle⟩ := enqueue_counts h hfull
    rw [hcall]
    refine ⟨?_, ?_, ?_, ?_, ?_⟩
    · intro hnil
      simp at hnil
    · intro _
      refine ⟨?_, ?_, ?_, ?_⟩
      · simp
      · exact hfront
      · simp only [List.length_append, List.length_singleton]
        omega
      · simpa using hover
    · exact h.holds.push_at mes
    · have hmono : l.overruns ≤ if AtEnd l.ring then l.overruns + 1 else l.overruns := by
        split <;> omega
      have hmore : l.dequeued.length + 100 * l.overruns ≤ l.dequeued.length +
          100 * if AtEnd l.ring then l.overruns + 1 else l.overruns := by omega
      rw [List.take_append]
      exact (h.order.trans (List.take_sublist_take_left hmore)).trans
        (List.sublist_append_left _ _)
    · intro i hi
      rcases List.mem_append.mp hi with hi | hi
      · exact h.bounds i hi
      · rw [List.mem_singleton.mp hi]
        omega

/-- What a successful dequeue reads: the oldest message still in the window. -/
theorem front_message {l : Log} (h : Inv l) (hne : l.accepted ≠ [])
    (hlt : l.dequeued.length + 100 * l.overruns < l.accepted.length) :
    l.ring.messages l.ring.front = l.accepted[l.dequeued.length + 100 * l.overruns] := by
  obtain ⟨-, hf, hd, ho⟩ := h.counted hne
  have hmod : (l.dequeued.length + 100 * l.overruns) % 100 = l.dequeued.length % 100 := by omega
  rw [hf, ← h.holds _ hlt (by omega), hmod]

private theorem keep_dequeue {l : Log} (h : Inv l) : Inv (call l .dequeue) := by
  rcases Bool.eq_false_or_eq_true (isEmpty l.ring) with hempty | hempty
  · simpa [call, dequeue, hempty] using h
  · have hne : l.accepted ≠ [] := by
      intro hnil
      obtain ⟨hf, hr, -, -⟩ := h.fresh hnil
      simp [isEmpty, hf, hr] at hempty
    have hdiff : l.ring.rear ≠ l.ring.front := by simpa [isEmpty] using hempty
    obtain ⟨hr, hf, hlt, ho⟩ := h.counted hne
    have hidx : l.dequeued.length + 100 * l.overruns < l.accepted.length := by omega
    have hcall : call l .dequeue =
        { l with
          ring := { l.ring with front := ((l.dequeued.length + 1) % 100 : Nat) }
          dequeued := l.dequeued ++ [l.accepted[l.dequeued.length + 100 * l.overruns]]
          used := l.used ++ [((l.dequeued.length % 100 : Nat) : Int)] } := by
      have hfront : (l.ring.front + 1).tmod maxMessageQueueSize =
          ((l.dequeued.length + 1) % 100 : Nat) := by
        rw [hf, maxMessageQueueSize, Int.tmod_eq_emod_of_nonneg (by omega)]
        omega
      simp only [call, dequeue, hempty, Bool.false_eq_true, if_false, hfront,
        front_message h hne hidx]
      rw [hf]
    rw [hcall]
    refine ⟨?_, ?_, ?_, ?_, ?_⟩
    · exact fun hnil => absurd hnil hne
    · intro _
      refine ⟨?_, ?_, ?_, ?_⟩
      · exact hr
      · simp
      · simp only [List.length_append, List.length_singleton]
        omega
      · simp only [List.length_append, List.length_singleton]
        omega
    · exact h.holds
    · have htake : l.accepted.take (l.dequeued.length + 1 + 100 * l.overruns) =
          l.accepted.take (l.dequeued.length + 100 * l.overruns) ++
            [l.accepted[l.dequeued.length + 100 * l.overruns]] := by
        rw [Nat.add_right_comm]
        exact (List.take_concat_get' l.accepted _ hidx).symm
      rw [List.length_append, List.length_singleton, htake]
      exact h.order.append_right _
    · intro i hi
      rcases List.mem_append.mp hi with hi | hi
      · exact h.bounds i hi
      · rw [List.mem_singleton.mp hi]
        omega

/-- Both calls keep the invariant. -/
theorem keep_call {l : Log} (h : Inv l) : ∀ c, Inv (call l c)
  | .enqueue mes => keep_enqueue h mes
  | .dequeue => keep_dequeue h

/-- It holds after any calls. -/
theorem inv_exec (memory : Int → Message) (calls : List Call) : Inv (exec memory calls) := by
  have hrun := Runs.run_total call (start memory) calls
  refine Runs.run_invariant ?_ (inv_start memory) hrun
  intro l c l' h hstep
  obtain rfl := Option.some.inj hstep
  exact keep_call h c

section Reachable
variable {l : Log}

/-- Accepted messages are handed out, stored, or lost in an overrun, a hundred at a time. -/
theorem Inv.balance (h : Inv l) (hne : l.accepted ≠ []) :
    l.accepted.length = l.dequeued.length + occupied l.ring + 100 * l.overruns ∧
      occupied l.ring ≤ 100 := by
  obtain ⟨hr, hf, hlt, ho⟩ := h.counted hne
  simp only [occupied, maxMessageQueueSize, hr, hf]
  omega

/-- The inclusive window front..rear holds the last accepted messages. -/
theorem Inv.stored_eq (h : Inv l) (hne : l.accepted ≠ []) :
    stored l.ring = l.accepted.drop (l.accepted.length - occupied l.ring) := by
  obtain ⟨-, hf, -, -⟩ := h.counted hne
  obtain ⟨hsum, hle⟩ := h.balance hne
  rw [← h.holds.window_eq (l.dequeued.length % 100) hle (by omega) (by omega)]
  rw [stored, if_neg (by omega), window, hf]
  apply List.map_congr_left
  intro i _
  congr 1

/-- What is stored follows what was handed out and what was lost. -/
theorem Inv.stored_eq_drop (h : Inv l) :
    stored l.ring = l.accepted.drop (l.dequeued.length + 100 * l.overruns) := by
  rcases eq_or_ne l.accepted [] with hnil | hne
  · obtain ⟨hf, -, -, -⟩ := h.fresh hnil
    simp [stored, hf, hnil]
  · obtain ⟨hsum, -⟩ := h.balance hne
    rw [h.stored_eq hne]
    congr 1
    omega

/-- Once a message was accepted, as many are stored as isFull counts. -/
theorem Inv.stored_length (h : Inv l) (hne : l.accepted ≠ []) :
    (stored l.ring).length = occupied l.ring := by
  obtain ⟨hsum, -⟩ := h.balance hne
  rw [h.stored_eq hne, List.length_drop]
  omega

end Reachable

/-- Slots stay in range, nothing is duplicated, reordered or invented, and from the first
accepted message on the window holds the last n of them. -/
theorem ring_law (memory : Int → Message) (calls : List Call) :
    let l := exec memory calls
    (∀ i ∈ l.used, 0 ≤ i ∧ i ≤ 99) ∧ l.dequeued.Sublist l.accepted ∧
    (l.accepted ≠ [] →
      stored l.ring = l.accepted.drop (l.accepted.length - occupied l.ring) ∧
      l.accepted.length = l.dequeued.length + occupied l.ring + 100 * l.overruns) := by
  have h := inv_exec memory calls
  refine ⟨h.bounds, h.order.trans (List.take_sublist _ _), fun hne => ⟨h.stored_eq hne, ?_⟩⟩
  exact (h.balance hne).1

end NetworkProtocol.Chat
