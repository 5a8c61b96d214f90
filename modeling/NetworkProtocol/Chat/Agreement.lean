import NetworkProtocol.Chat.RingLaw

/-! The sender's loop over the clients. dequeue gives the slot up before it is sent, and each
of the ten sends reads the slot anew, so what the clients get depends on the enqueues made
in between. -/
namespace NetworkProtocol.Chat.Agreement

abbrev maxNumClient : Nat := 10

/-- The for loop of senderWorkload: the slot its pointer names and the next client. -/
structure Round where
  slot : Int
  id : Nat

/-- sent is history: what each client has been sent. -/
structure Room where
  log : Log
  round : Option Round := none
  sent : Nat → List Message := fun _ => []

inductive Action where
  | enqueue (mes : Message)
  | dequeue
  | send
  deriving DecidableEq, Repr

def Room.enqueue (m : Room) (mes : Message) : Room := { m with log := call m.log (.enqueue mes) }

/-- The sender's dequeue; a message starts a round at client 0. -/
def Room.dequeue (m : Room) : Room :=
  { m with
    log := call m.log .dequeue
    round := (Chat.dequeue m.log.ring).map (fun (slot, _) => ⟨slot, 0⟩) }

def Room.send (m : Room) (r : Round) : Room :=
  { m with
    round := if r.id + 1 < maxNumClient then some ⟨r.slot, r.id + 1⟩ else none
    sent := Function.update m.sent r.id (m.sent r.id ++ [m.log.ring.messages r.slot]) }

/-- Receivers enqueue at any time; the sender dequeues between two rounds only. -/
def step (m : Room) : Action → Option Room
  | .enqueue mes => some (m.enqueue mes)
  | .dequeue => if m.round.isNone then some m.dequeue else none
  | .send => m.round.map m.send

def opened (memory : Int → Message) : Room := { log := start memory }

def due (m : Room) (id : Nat) : List Message :=
  match m.round with
  | none => m.log.dequeued
  | some r => if id < r.id then m.log.dequeued else m.log.dequeued.dropLast

/-- Every client has been sent the messages as they were at their dequeue. -/
def Agreed (m : Room) : Prop := ∀ id < maxNumClient, m.sent id = due m id

/-- An enqueue made during a round with 99 slots taken brings the very message of the slot. -/
def Untouched (m : Room) : Action → Prop
  | .enqueue mes =>
    ∀ r, m.round = some r → occupied m.log.ring = 99 → mes = m.log.ring.messages r.slot
  | _ => True

/-- The slot of a round in progress still holds the message that was dequeued from it. -/
structure Pending (l : Log) (r : Round) : Prop where
  id : r.id < maxNumClient
  some_dequeued : l.dequeued ≠ []
  slot : r.slot = ((l.dequeued.length - 1) % 100 : Nat)
  kept : l.dequeued.getLast? = some (l.ring.messages r.slot)

structure Sound (m : Room) : Prop where
  log : Inv m.log
  agreed : Agreed m
  pending : ∀ r, m.round = some r → Pending m.log r

section Due
variable {m : Room} {r : Round} {id : Nat}

/-- Between two rounds every client is due the whole conversation. -/
theorem due_of_none (h : m.round = none) : due m id = m.log.dequeued := by
  rw [due, h]

/-- In a round those behind its index are due all but the last message. -/
theorem due_of_some (h : m.round = some r) :
    due m id = if id < r.id then m.log.dequeued else m.log.dequeued.dropLast := by
  rw [due, h]

private theorem due_send (hid : id < maxNumClient) :
    due (m.send r) id = if id < r.id + 1 then m.log.dequeued else m.log.dequeued.dropLast := by
  by_cases hmore : r.id + 1 < maxNumClient
  · exact due_of_some (r := ⟨r.slot, r.id + 1⟩) (if_pos hmore)
  · have hpast : id < r.id + 1 := by omega
    rw [if_pos hpast]
    exact due_of_none (if_neg hmore)

end Due

section Enqueue
variable {l : Log} {r : Round}

private theorem enqueue_frame (h : Inv l) (mes : Message) :
    (call l (.enqueue mes)).dequeued = l.dequeued ∧
    ∀ slot : Int, slot ≠ (l.accepted.length % 100 : Nat) →
      (call l (.enqueue mes)).ring.messages slot = l.ring.messages slot := by
  rcases Bool.eq_false_or_eq_true (isFull l.ring) with hfull | hfull
  · simp [call, enqueue, hfull]
  · refine ⟨by simp [call, enqueue, hfull], fun slot hslot => ?_⟩
    have hnext := next_rear h
    simp only [call, enqueue, hfull, hnext]
    exact Function.update_of_ne hslot _ _

private theorem reused_iff (h : Inv l) (hp : Pending l r) :
    r.slot = (l.accepted.length % 100 : Nat) ↔ occupied l.ring = 99 := by
  have hpos := List.length_pos_of_ne_nil hp.some_dequeued
  have hne : l.accepted ≠ [] := fun hnil => hp.some_dequeued (h.fresh hnil).2.2.1
  obtain ⟨hr, hf, hlt, -⟩ := h.counted hne
  simp only [hp.slot, occupied, maxMessageQueueSize, hr, hf]
  omega

private theorem enqueue_reuses (h : Inv l) (hp : Pending l r) (h99 : occupied l.ring = 99)
    (mes : Message) :
    (call l (.enqueue mes)).ring.messages r.slot = mes := by
  have hfull : isFull l.ring = false := by
    by_contra hfull
    have hnext : l.ring.front = l.ring.rear + 1 := by simpa [isFull] using hfull
    simp only [occupied, maxMessageQueueSize, hnext] at h99
    omega
  have hnext := next_rear h
  simp only [call, enqueue, hfull, hnext, (reused_iff h hp).mpr h99]
  exact Function.update_self _ _ _

private theorem Pending.enqueue (h : Inv l) (hp : Pending l r) {mes : Message}
    (hok : occupied l.ring = 99 → mes = l.ring.messages r.slot) :
    Pending (call l (.enqueue mes)) r := by
  obtain ⟨hdeq, hframe⟩ := enqueue_frame h mes
  have hsame : (call l (.enqueue mes)).ring.messages r.slot = l.ring.messages r.slot := by
    by_cases h99 : occupied l.ring = 99
    · rw [enqueue_reuses h hp h99 mes, hok h99]
    · exact hframe _ (fun heq => h99 ((reused_iff h hp).mp heq))
  exact ⟨hp.id, hdeq ▸ hp.some_dequeued, hdeq ▸ hp.slot, by rw [hdeq, hsame, hp.kept]⟩

end Enqueue

section Steps
variable {m : Room} {r : Round} {mes : Message}

/-- A message into an untouched slot keeps all sound. -/
theorem Sound.enqueue (h : Sound m) (hok : Untouched m (.enqueue mes)) :
    Sound (m.enqueue mes) := by
  obtain ⟨hdeq, -⟩ := enqueue_frame h.log mes
  refine ⟨?_, ?_, ?_⟩
  · exact keep_call h.log (.enqueue mes)
  · intro id hid
    have hagreed := h.agreed id hid
    simp only [due, Room.enqueue, hdeq] at hagreed ⊢
    exact hagreed
  · exact fun r hr => (h.pending r hr).enqueue h.log (hok r hr)

/-- A new round starts at client 0 with the message just handed out. -/
theorem Sound.dequeue (h : Sound m) (hround : m.round = none) : Sound m.dequeue := by
  have hagreed : ∀ id < maxNumClient, m.sent id = m.log.dequeued :=
    fun id hid => (h.agreed id hid).trans (due_of_none hround)
  rcases Bool.eq_false_or_eq_true (isEmpty m.log.ring) with hempty | hempty
  · refine ⟨?_, ?_, ?_⟩
    · exact keep_call h.log .dequeue
    · intro id hid
      simpa [due, Room.dequeue, Chat.dequeue, call, hempty] using hagreed id hid
    · intro r hr
      simp [Room.dequeue, Chat.dequeue, hempty] at hr
  · have hne : m.log.accepted ≠ [] := by
      intro hnil
      obtain ⟨hf, hr, -, -⟩ := h.log.fresh hnil
      simp [isEmpty, hf, hr] at hempty
    have hfront := (h.log.counted hne).front
    refine ⟨?_, ?_, ?_⟩
    · exact keep_call h.log .dequeue
    · intro id hid
      simpa [due, Room.dequeue, Chat.dequeue, call, hempty] using hagreed id hid
    · intro r hr
      obtain rfl : ⟨m.log.ring.front, 0⟩ = r := by
        simpa [Room.dequeue, Chat.dequeue, hempty] using hr
      refine ⟨?_, ?_, ?_, ?_⟩
      · exact Nat.zero_lt_succ 9
      · simp [Room.dequeue, Chat.dequeue, call, hempty]
      · simp [Room.dequeue, Chat.dequeue, call, hempty, hfront]
      · simp [Room.dequeue, Chat.dequeue, call, hempty]

/-- So does one more send of a round. -/
theorem Sound.send (h : Sound m) (hr : m.round = some r) : Sound (m.send r) := by
  have hp := h.pending r hr
  have hlast : m.log.dequeued.dropLast ++ [m.log.ring.messages r.slot] = m.log.dequeued :=
    List.dropLast_append_getLast? _ hp.kept
  refine ⟨?_, ?_, ?_⟩
  · exact h.log
  · intro id hid
    have hold := (h.agreed id hid).trans (due_of_some hr)
    rw [due_send hid]
    rcases eq_or_ne id r.id with rfl | hne
    · rw [if_neg (lt_irrefl r.id)] at hold
      rw [if_pos (Nat.lt_succ_self r.id), ← hlast, ← hold]
      exact Function.update_self _ _ _
    · have hrest : (m.send r).sent id = m.sent id := Function.update_of_ne hne _ _
      rw [hrest, hold]
      congr 1
      simp only [eq_iff_iff]
      omega
  · intro r' hr'
    have hmore : r.id + 1 < maxNumClient ∧ ⟨r.slot, r.id + 1⟩ = r' := by
      simpa [Room.send] using hr'
    obtain ⟨hmore, rfl⟩ := hmore
    exact ⟨hmore, hp.some_dequeued, hp.slot, hp.kept⟩

private theorem Sound.reuse_shows (h : Sound m) (hr : m.round = some r)
    (h99 : occupied m.log.ring = 99) (hother : mes ≠ m.log.ring.messages r.slot) :
    ¬ Agreed ((m.enqueue mes).send r) := by
  intro hagreed
  have hp := h.pending r hr
  obtain ⟨hdeq, -⟩ := enqueue_frame h.log mes
  have hsent := (hagreed r.id hp.id).trans (due_send hp.id)
  rw [if_pos (Nat.lt_succ_self r.id)] at hsent
  have hnew : ((m.enqueue mes).send r).sent r.id = m.sent r.id ++ [mes] := by
    have hslot := enqueue_reuses h.log hp h99 mes
    simp [Room.send, Room.enqueue, hslot]
  have hlast : m.log.dequeued.getLast? = some mes := by
    rw [← hdeq]
    change (m.enqueue mes).log.dequeued.getLast? = some mes
    rw [← hsent, hnew, List.getLast?_concat]
  exact hother (Option.some.inj (hlast.symm.trans hp.kept))

end Steps

/-- All clients are sent the dequeued messages in every state of a run in which no enqueue
reuses the slot being sent, and the sends that follow any other run can tell. -/
theorem agreed_iff (memory : Int → Message) (actions : List Action) :
    (Runs.Along step Untouched (opened memory) actions →
      Runs.Visits step Agreed (opened memory) actions) ∧
    (Runs.Visits step (Runs.Henceforth step (· = .send) Agreed) (opened memory) actions ↔
      Runs.Along step Untouched (opened memory) actions) := by
  suffices hiff : _ from ⟨fun h => (hiff.mpr h).now, hiff⟩
  apply Runs.visits_henceforth_iff_along (I := Sound)
  · intro m a m' h hstep hok
    cases a with
    | enqueue mes =>
      obtain rfl := Option.some.inj hstep
      exact h.enqueue hok
    | dequeue =>
      obtain ⟨hround, rfl⟩ : m.round = none ∧ m.dequeue = m' := by simpa [step] using hstep
      exact h.dequeue hround
    | send =>
      obtain ⟨r, hr, rfl⟩ := Option.map_eq_some_iff.mp hstep
      exact h.send hr
  · exact fun m h => h.agreed
  · rintro m a rfl
    trivial
  · intro m a m' h hstep hbad
    cases a with
    | enqueue mes =>
      obtain rfl := Option.some.inj hstep
      simp only [Untouched, Classical.not_imp, not_forall] at hbad
      obtain ⟨r, hr, h99, hother⟩ := hbad
      refine ⟨[.send], (m.enqueue mes).send r, by simp, ?_, h.reuse_shows hr h99 hother⟩
      simp [step, Room.enqueue, hr]
    | dequeue => exact absurd trivial hbad
    | send => exact absurd trivial hbad
  · exact ⟨inv_start memory, fun _ _ => rfl, by simp [opened]⟩

/-- A hundred messages fill the ring; one is dequeued, and before it is sent another one is
enqueued into its slot. -/
theorem slot_reused :
    ¬ ∀ memory actions m, Runs.run step (opened memory) actions = some m → Agreed m := by
  intro h
  let actions : List Action :=
    List.replicate 100 (.enqueue ⟨0, ['h', 'i']⟩) ++
      [.dequeue, .enqueue ⟨1, ['y', 'o']⟩, .send]
  have hrun : ((Runs.run step (opened (fun _ => ⟨0, []⟩)) actions).map
      (fun m => decide (m.sent 0 = due m 0))) = some false := by decide +kernel
  obtain ⟨m, hm, hne⟩ := Option.map_eq_some_iff.mp hrun
  exact of_decide_eq_false hne (h _ _ m hm 0 (by decide))

end NetworkProtocol.Chat.Agreement
