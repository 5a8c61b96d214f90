import NetworkProtocol.Chat.RingLaw

/-! When the ring delivers what it accepted. It overwrites a hundred messages each time an
enqueue meets front = 0, rear = 99, and it always keeps its last message back. -/
namespace NetworkProtocol.Chat
open CyclicBuffer

def ringStep (l : Log) (c : Call) : Option Log := some (call l c)

/-- What was handed out is a prefix of what was accepted, and the rest is still in the slots. -/
def NothingLost (l : Log) : Prop :=
  l.dequeued <+: l.accepted ∧ stored l.ring = l.accepted.drop l.dequeued.length

def NoOverrun (l : Log) (c : Call) : Prop := AtEnd l.ring → ∀ mes, c ≠ .enqueue mes

/-- A message that finds room is accepted. -/
theorem call_accepted {l : Log} (h : isFull l.ring = false) (mes : Message) :
    (call l (.enqueue mes)).accepted = l.accepted ++ [mes] ∧
      (call l (.enqueue mes)).dequeued = l.dequeued ∧
      (call l (.enqueue mes)).overruns =
        if AtEnd l.ring then l.overruns + 1 else l.overruns := by
  simp [call, enqueue, h]

private theorem call_overruns {l : Log} {c : Call} (h : NoOverrun l c) :
    (call l c).overruns = l.overruns := by
  cases c with
  | enqueue mes =>
    have hend : ¬ AtEnd l.ring := fun hend => h hend mes rfl
    unfold call
    dsimp only
    split
    · rfl
    · exact if_neg hend
  | dequeue =>
    unfold call
    cases dequeue l.ring <;> rfl

private theorem Inv.nothingLost {l : Log} (h : Inv l) (ho : l.overruns = 0) : NothingLost l := by
  have horder := h.order
  rw [ho, Nat.mul_zero, Nat.add_zero] at horder
  have hle : l.dequeued.length ≤ l.accepted.length := by
    rcases eq_or_ne l.accepted [] with hnil | hne
    · simp [hnil, (h.fresh hnil).2.2.1]
    · exact (h.counted hne).ahead.le
  have heq : l.dequeued = l.accepted.take l.dequeued.length :=
    horder.eq_of_length (by rw [List.length_take, Nat.min_eq_left hle])
  refine ⟨heq ▸ List.take_prefix _ _, ?_⟩
  rw [h.stored_eq_drop, ho, Nat.mul_zero, Nat.add_zero]

private theorem Inv.lost {l : Log} (h : Inv l) (hne : l.accepted ≠ []) (ho : l.overruns ≠ 0) :
    ¬ NothingLost l := by
  rintro ⟨-, hstored⟩
  obtain ⟨hsum, -⟩ := h.balance hne
  have hlen := congrArg List.length (hstored.symm.trans (h.stored_eq hne))
  simp only [List.length_drop] at hlen
  omega

/-- The ring loses nothing in any state of a run just when no enqueue of the run is made at
front = 0, rear = 99. -/
theorem nothing_lost_iff (memory : Int → Message) (calls : List Call) :
    Runs.Visits ringStep NothingLost (start memory) calls ↔
      Runs.Along ringStep NoOverrun (start memory) calls := by
  apply Runs.visits_iff_along (I := fun l => Inv l ∧ l.overruns = 0)
  · rintro l c l' ⟨h, ho⟩ hstep hok
    obtain rfl := Option.some.inj hstep
    exact ⟨keep_call h c, (call_overruns hok).trans ho⟩
  · exact fun l h => h.1.nothingLost h.2
  · rintro l c l' ⟨h, ho⟩ hstep hbad
    obtain rfl := Option.some.inj hstep
    simp only [NoOverrun, Classical.not_imp, not_forall, not_not] at hbad
    obtain ⟨hend, mes, rfl⟩ := hbad
    have hfull : isFull l.ring = false := by simp [isFull, hend.1, hend.2]
    obtain ⟨hacc, -, hover⟩ := call_accepted hfull mes
    apply (keep_call h (.enqueue mes)).lost
    · simp [hacc]
    · simp [hover, hend]
  · exact ⟨inv_start memory, rfl⟩

/-- 101 enqueues in a row are all accepted, and the last one overwrites the first message. -/
theorem ring_overwrites : ¬ ∀ memory calls, NothingLost (exec memory calls) := by
  intro h
  let calls : List Call := List.replicate 101 (.enqueue ⟨0, ['h', 'i']⟩)
  have hacc : (exec (fun _ => ⟨0, []⟩) calls).accepted ≠ [] := by decide +kernel
  have hover : (exec (fun _ => ⟨0, []⟩) calls).overruns = 1 := by decide +kernel
  have hinv := inv_exec (fun _ => ⟨0, []⟩) calls
  exact hinv.lost hacc (by rw [hover]; decide) (h _ calls)

/-- dequeue until it returns NULL; none when the fuel runs out first. -/
def drain : Nat → Log → Option Log
  | 0, _ => none
  | fuel + 1, l =>
    match dequeue l.ring with
    | none => some l
    | some _ => drain fuel (call l .dequeue)

/-- NULL means that everything accepted was handed out, and draining reaches that point. -/
def Drainable (l : Log) : Prop :=
  (dequeue l.ring = none → l.dequeued = l.accepted) ∧
  ∃ fuel l', drain fuel l = some l' ∧ l'.dequeued = l'.accepted

/-- A successful dequeue hands out the first message of the window. -/
theorem stored_dequeue {l : Log} (h : Inv l) (hsome : isEmpty l.ring = false) :
    ∃ mes, (call l .dequeue).dequeued = l.dequeued ++ [mes] ∧
      (call l .dequeue).accepted = l.accepted ∧ l.accepted ≠ [] ∧
      stored l.ring = mes :: stored (call l .dequeue).ring := by
  have hne : l.accepted ≠ [] := by
    intro hnil
    obtain ⟨hf, hr, -, -⟩ := h.fresh hnil
    simp [isEmpty, hf, hr] at hsome
  have hidx : l.dequeued.length + 100 * l.overruns < l.accepted.length := by
    obtain ⟨hsum, -⟩ := h.balance hne
    have hpos : 0 < occupied l.ring := Nat.succ_pos _
    omega
  have hdeq : (call l .dequeue).dequeued = l.dequeued ++ [l.ring.messages l.ring.front] := by
    simp [call, dequeue, hsome]
  have hacc : (call l .dequeue).accepted = l.accepted := by
    simp [call, dequeue, hsome]
  have hover : (call l .dequeue).overruns = l.overruns := by
    simp [call, dequeue, hsome]
  refine ⟨_, hdeq, hacc, hne, ?_⟩
  rw [h.stored_eq_drop, (keep_call h .dequeue).stored_eq_drop, hacc, hdeq, hover,
    List.drop_eq_getElem_cons hidx, front_message h hne hidx, List.length_append,
    List.length_singleton, Nat.add_right_comm]

/-- Draining hands out the whole window but its last message, and stops there. -/
theorem drain_keeps_last {l : Log} (h : Inv l) (hne : l.accepted ≠ []) :
    ∃ l', drain (occupied l.ring) l = some l' ∧ l'.accepted = l.accepted ∧
      l'.dequeued = l.dequeued ++ (stored l.ring).dropLast := by
  generalize hn : occupied l.ring = n
  induction n generalizing l with
  | zero => simp [occupied] at hn
  | succ n ih =>
    cases hempty : isEmpty l.ring with
    | true =>
      have hone : (stored l.ring).length = 1 := by
        have hsame : l.ring.rear = l.ring.front := by simpa [isEmpty] using hempty
        rw [h.stored_length hne, occupied, hsame]
        simp
      obtain ⟨mes, hmes⟩ := List.length_eq_one_iff.mp hone
      exact ⟨l, by simp [drain, dequeue, hempty], rfl, by simp [hmes]⟩
    | false =>
      obtain ⟨mes, hdeq, hacc, -, hstored⟩ := stored_dequeue h hempty
      have h' := keep_call h .dequeue
      have hne' : (call l .dequeue).accepted ≠ [] := hacc ▸ hne
      have hrest := h'.stored_length hne'
      have hall := h.stored_length hne
      rw [hstored, List.length_cons] at hall
      obtain ⟨l', hdrain, hacc', hout⟩ := ih h' hne' (by omega)
      refine ⟨l', ?_, hacc'.trans hacc, ?_⟩
      · simpa [drain, dequeue, hempty] using hdrain
      · have hcons : stored (call l .dequeue).ring ≠ [] := by
          intro hnil
          rw [hnil, List.length_nil] at hrest
          simp [occupied] at hrest
        rw [hout, hdeq, hstored, List.dropLast_cons_of_ne_nil hcons, List.append_assoc]
        rfl

private theorem first_enqueue (memory : Int → Message) (mes : Message) :
    ¬ Drainable (call (start memory) (.enqueue mes)) := by
  rintro ⟨hnull, -⟩
  have hdeq := hnull rfl
  simp [call, enqueue, isFull, start] at hdeq

/-- Every state of a run can be drained just when the run enqueues nothing at all. -/
theorem drainable_iff (memory : Int → Message) (calls : List Call) :
    Runs.Visits ringStep Drainable (start memory) calls ↔
      ∀ c ∈ calls, ∀ mes, c ≠ .enqueue mes := by
  unfold ringStep
  rw [← Runs.along_total_iff call (fun c => ∀ mes, c ≠ .enqueue mes) (start memory)]
  apply Runs.visits_iff_along (I := fun l => l = start memory)
  · rintro l c l' rfl hstep hok
    obtain rfl := Option.some.inj hstep
    cases c with
    | enqueue mes => exact absurd rfl (hok mes)
    | dequeue => rfl
  · rintro l rfl
    exact ⟨fun _ => rfl, 1, start memory, rfl, rfl⟩
  · rintro l c l' rfl hstep hbad
    obtain rfl := Option.some.inj hstep
    simp only [not_forall, not_not] at hbad
    obtain ⟨mes, rfl⟩ := hbad
    exact first_enqueue memory mes
  · rfl

/-- One accepted message is never handed out: dequeue answers NULL at once. -/
theorem one_message_stays : ¬ ∀ memory calls, Drainable (exec memory calls) :=
  fun h => first_enqueue (fun _ => ⟨0, []⟩) ⟨0, ['h', 'i']⟩ (h _ [.enqueue ⟨0, ['h', 'i']⟩])

end NetworkProtocol.Chat
