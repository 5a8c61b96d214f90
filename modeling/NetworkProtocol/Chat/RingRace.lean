import NetworkProtocol.Chat.Ring

/-! The ring between threads. The full and the empty test are made outside the mutex, so the
indices may have moved on by the time the body that a test has let through runs. -/
namespace NetworkProtocol.Chat.Race
open CyclicBuffer

abbrev Numbered := Message × Nat

/-- The accepted messages as a slot can hold them; a slot that no enqueue has written holds none. -/
def numbered (accepted : List Message) : List (Option Numbered) := accepted.zipIdx.map some

/-- Who is inside the mutex, and how far: an enqueue before or after the update of rear, or a
dequeue that has picked its slot. -/
inductive Body where
  | enqueuing (receiver : Nat) (mes : Message) (rearUpdated : Bool)
  | dequeuing (mes : Option Numbered)
  deriving DecidableEq

def Body.thread : Body → Option Nat
  | .enqueuing receiver _ _ => some receiver
  | .dequeuing _ => none

/-- The ring, the body inside the mutex, the receivers and the sender whose test has let them
through, and what has been accepted and returned so far. -/
structure State where
  messages : Int → Option Numbered := fun _ => none
  front : Int := -1
  rear : Int := -1
  inside : Option Body := none
  waiting : Nat → Option Message := fun _ => none
  passed : Bool := false
  accepted : List Message := []
  returned : List (Option Numbered) := []

/-- The tests, and the assignments of the two bodies; the first one of a body comes with the lock
and the last one with the unlock. -/
inductive Action where
  | testFull (receiver : Nat) (mes : Message)
  | setFront (receiver : Nat)
  | updateRear
  | write
  | testEmpty
  | pick
  | updateFront

namespace State

def isFull (s : State) : Bool := s.front = s.rear + 1

def isEmpty (s : State) : Bool := s.rear = s.front

def lockEnqueue (s : State) (receiver : Nat) (mes : Message) : State :=
  { s with
    front := if s.front = -1 then 0 else s.front
    inside := some (.enqueuing receiver mes false)
    waiting := Function.update s.waiting receiver none }

def advanceRear (s : State) (receiver : Nat) (mes : Message) : State :=
  { s with
    rear := (s.rear + 1).tmod maxMessageQueueSize
    inside := some (.enqueuing receiver mes true) }

def store (s : State) (mes : Message) : State :=
  { s with
    messages := Function.update s.messages s.rear (some (mes, s.accepted.length))
    inside := none
    accepted := s.accepted ++ [mes] }

def lockDequeue (s : State) : State :=
  { s with inside := some (.dequeuing (s.messages s.front)), passed := false }

def advanceFront (s : State) (mes : Option Numbered) : State :=
  { s with
    front := (s.front + 1).tmod maxMessageQueueSize
    inside := none
    returned := s.returned ++ [mes] }

end State

/-- One step of one thread. A test that fails ends its call. -/
def step (s : State) : Action → Option State
  | .testFull receiver mes =>
    if s.waiting receiver = none ∧ s.inside.map Body.thread ≠ some (some receiver) then
      some (if s.isFull then s
        else { s with waiting := Function.update s.waiting receiver (some mes) })
    else none
  | .setFront receiver =>
    (s.waiting receiver).bind (fun mes =>
      if s.inside = none then some (s.lockEnqueue receiver mes) else none)
  | .updateRear =>
    match s.inside with
    | some (.enqueuing receiver mes false) => some (s.advanceRear receiver mes)
    | _ => none
  | .write =>
    match s.inside with
    | some (.enqueuing _ mes true) => some (s.store mes)
    | _ => none
  | .testEmpty =>
    if s.passed = false ∧ s.inside.map Body.thread ≠ some none then
      some (if s.isEmpty then s else { s with passed := true })
    else none
  | .pick => if s.passed = true ∧ s.inside = none then some s.lockDequeue else none
  | .updateFront =>
    match s.inside with
    | some (.dequeuing mes) => some (s.advanceFront mes)
    | _ => none

section Steps
variable {s s' : State}

private theorem step_updateRear (h : step s .updateRear = some s') : ∃ receiver mes,
    s.inside = some (.enqueuing receiver mes false) ∧ s' = s.advanceRear receiver mes := by
  simp only [step] at h
  split at h
  · exact ⟨_, _, ‹_›, (Option.some.inj h).symm⟩
  · cases h

private theorem step_write (h : step s .write = some s') : ∃ receiver mes,
    s.inside = some (.enqueuing receiver mes true) ∧ s' = s.store mes := by
  simp only [step] at h
  split at h
  · exact ⟨_, _, ‹_›, (Option.some.inj h).symm⟩
  · cases h

private theorem step_updateFront (h : step s .updateFront = some s') : ∃ mes,
    s.inside = some (.dequeuing mes) ∧ s' = s.advanceFront mes := by
  simp only [step] at h
  split at h
  · exact ⟨_, ‹_›, (Option.some.inj h).symm⟩
  · cases h

end Steps

/-- Every slot returned has been written, and the messages returned are accepted ones, in the
order of their acceptance and none of them twice. -/
structure Ordered (s : State) : Prop where
  written : none ∉ s.returned
  order : s.returned.Sublist (numbered s.accepted)

/-- A dequeue ends while the message returned last is not the one accepted last. -/
def Behind (s : State) : Action → Prop
  | .updateFront => s.returned.getLast? ≠ (numbered s.accepted).getLast?
  | _ => True

section Numbered
variable {accepted : List Message}

@[simp] theorem length_numbered : (numbered accepted).length = accepted.length := by
  simp [numbered]

private theorem numbered_push (mes : Message) :
    numbered (accepted ++ [mes]) = numbered accepted ++ [some (mes, accepted.length)] := by
  simp [numbered, List.zipIdx_append]

private theorem take_numbered_push (mes : Message) {n : Nat} (h : n ≤ accepted.length) :
    (numbered (accepted ++ [mes])).take n = (numbered accepted).take n := by
  rw [numbered_push, List.take_append_of_le_length (by rwa [length_numbered])]

private theorem mem_numbered {x : Option Numbered} :
    x ∈ numbered accepted ↔ ∃ mes i, accepted[i]? = some mes ∧ x = some (mes, i) := by
  simp [numbered, List.mem_zipIdx_iff_getElem?, eq_comm]

/-- The numbers grow along the list. -/
theorem numbered_increasing : (numbered accepted).Pairwise
    (fun x y => ∀ m i n j, x = some (m, i) → y = some (n, j) → i < j) := by
  rw [List.pairwise_iff_getElem]
  intro i j hi hj hij m i' n j' hx hy
  simp only [numbered, List.getElem_map, List.getElem_zipIdx, Option.some.injEq,
    Prod.mk.injEq] at hx hy
  omega

private theorem getLast?_numbered (hne : accepted ≠ []) :
    ∃ mes, (numbered accepted).getLast? = some (some (mes, accepted.length - 1)) := by
  refine ⟨accepted.getLast hne, ?_⟩
  conv_lhs => rw [← List.dropLast_concat_getLast hne]
  rw [numbered_push, List.getLast?_concat, List.length_dropLast]

private theorem lt_of_mem_take_numbered {mes : Message} {i n : Nat}
    (h : some (mes, i) ∈ (numbered accepted).take n) : i < n := by
  obtain ⟨j, hj, hget⟩ := List.mem_take_iff_getElem.mp h
  simp only [numbered, List.getElem_map, List.getElem_zipIdx, Option.some.injEq,
    Prod.mk.injEq] at hget
  omega

end Numbered

namespace State

def advanced (s : State) : Nat :=
  match s.inside with
  | some (.enqueuing _ _ true) => s.accepted.length + 1
  | _ => s.accepted.length

def Started (s : State) : Prop :=
  s.accepted ≠ [] ∨ ∃ receiver, s.inside.map Body.thread = some (some receiver)

end State

/-- Both indices count modulo 100: rear the accepted messages and front the first read of them,
which the returned ones are among. -/
structure Inv (s : State) (read : Nat) : Prop where
  fresh : s.advanced = 0 → s.rear = -1
  rear : 0 < s.advanced → s.rear = ((s.advanced - 1) % 100 : Nat)
  unset : ¬ s.Started → s.front = -1
  front : s.Started → s.front = (read % 100 : Nat)
  behind : read ≤ s.accepted.length
  within : s.accepted.length ≤ read + 100
  holds : Holds 100 (fun k : Nat => s.messages k) (numbered s.accepted)
  unwritten : ∀ k : Nat, k < 100 → s.accepted.length ≤ k → s.messages k = none
  order : s.returned.Sublist ((numbered s.accepted).take read)
  caughtUp : read = s.accepted.length →
    s.returned.getLast? = (numbered s.accepted).getLast?
  passed : s.passed = true → s.Started
  picked : ∀ mes, s.inside = some (.dequeuing mes) → s.accepted ≠ [] ∧ mes = s.messages s.front

/-- Nothing is waiting at the start. -/
theorem inv_init : Inv {} 0 where
  fresh := fun _ => rfl
  rear := fun h => absurd h (Nat.lt_irrefl 0)
  unset := fun _ => rfl
  front := fun h => by simp [State.Started] at h
  behind := Nat.le_refl 0
  within := Nat.zero_le _
  holds := holds_nil
  unwritten := fun _ _ _ => rfl
  order := List.Sublist.slnil
  caughtUp := fun _ => rfl
  passed := nofun
  picked := nofun

section Invariant
variable {s : State} {read : Nat}

private theorem Inv.ordered (h : Inv s read) : Ordered s := by
  have horder := h.order.trans (List.take_sublist _ _)
  refine ⟨fun hnone => ?_, horder⟩
  obtain ⟨mes, i, -, hsome⟩ := mem_numbered.mp (horder.subset hnone)
  exact Option.some_ne_none _ hsome.symm

/-- The new rear is the number of messages accepted so far, modulo 100. -/
theorem Inv.next_rear (h : Inv s read) :
    (s.rear + 1).tmod maxMessageQueueSize = (s.advanced % 100 : Nat) := by
  rcases Nat.eq_zero_or_pos s.advanced with hzero | hpos
  · rw [h.fresh hzero, hzero]
    rfl
  · rw [h.rear hpos, maxMessageQueueSize, Int.tmod_eq_emod_of_nonneg (by omega)]
    omega

private theorem Inv.rear_of (h : Inv s read) {n : Nat} (hadvanced : s.advanced = n) :
    (n = 0 → s.rear = -1) ∧ (0 < n → s.rear = ((n - 1) % 100 : Nat)) :=
  hadvanced ▸ ⟨h.fresh, h.rear⟩

private theorem Inv.next_front (h : Inv s read) (hstarted : s.Started) :
    (s.front + 1).tmod maxMessageQueueSize = ((read + 1) % 100 : Nat) := by
  rw [h.front hstarted, maxMessageQueueSize, Int.tmod_eq_emod_of_nonneg (by omega)]
  omega

/-- Who waits to be written makes no difference. -/
theorem Inv.waiting (h : Inv s read) (waiting : Nat → Option Message) :
    Inv { s with waiting := waiting } read := { h with }

/-- Before the first enqueue has started, front and rear are both -1. -/
theorem Inv.testEmpty (h : Inv s read) (hempty : s.isEmpty = false) :
    Inv { s with passed := true } read := by
  refine { h with passed := fun _ => ?_ }
  by_contra hstarted
  have hadvanced : s.advanced = 0 := by
    obtain ⟨hnil, hnone⟩ := not_or.mp hstarted
    unfold State.advanced
    split
    · rename_i receiver mes hinside
      exact absurd ⟨receiver, by simp [hinside, Body.thread]⟩ hnone
    · simpa using hnil
  simp [State.isEmpty, h.unset hstarted, h.fresh hadvanced] at hempty

private theorem Inv.lockEnqueue (h : Inv s read) (hfree : s.inside = none) (receiver : Nat)
    (mes : Message) : Inv (s.lockEnqueue receiver mes) read := by
  have hadvanced : s.advanced = s.accepted.length := by simp [State.advanced, hfree]
  have hread : (if s.front = -1 then 0 else s.front) = (read % 100 : Nat) := by
    rcases eq_or_ne s.accepted [] with hnil | hne
    · have hunset : ¬ s.Started := by simp [State.Started, hnil, hfree]
      have hbehind := h.behind
      rw [hnil, List.length_nil] at hbehind
      rw [h.unset hunset, Nat.le_zero.mp hbehind]
      rfl
    · rw [h.front (.inl hne), if_neg (by omega)]
  obtain ⟨hfresh, hrear⟩ := h.rear_of hadvanced
  have hstarted : (s.lockEnqueue receiver mes).Started := .inr ⟨receiver, rfl⟩
  exact { h with
    fresh := hfresh
    rear := hrear
    unset := fun hunset => absurd hstarted hunset
    front := fun _ => hread
    passed := fun _ => hstarted
    picked := nofun }

private theorem Inv.advanceRear (h : Inv s read) {receiver : Nat} {mes : Message}
    (hinside : s.inside = some (.enqueuing receiver mes false)) :
    Inv (s.advanceRear receiver mes) read := by
  have hadvanced : s.advanced = s.accepted.length := by simp [State.advanced, hinside]
  have hstarted : s.Started := .inr ⟨receiver, by simp [hinside, Body.thread]⟩
  have hrear := h.next_rear
  rw [hadvanced] at hrear
  have hstarted' : (s.advanceRear receiver mes).Started := .inr ⟨receiver, rfl⟩
  exact { h with
    fresh := fun hzero => absurd hzero (Nat.succ_ne_zero _)
    rear := fun _ => hrear
    unset := fun hunset => absurd hstarted' hunset
    front := fun _ => h.front hstarted
    passed := fun _ => hstarted'
    picked := nofun }

private theorem Inv.overwrite (h : Inv s read) :
    ∃ read', read ≤ read' ∧ read' % 100 = read % 100 ∧ read' ≤ s.accepted.length ∧
      s.accepted.length + 1 ≤ read' + 100 := by
  rcases h.within.eq_or_lt with heq | hlt
  · exact ⟨s.accepted.length, h.behind, by omega, Nat.le_refl _, by omega⟩
  · exact ⟨read, Nat.le_refl _, rfl, h.behind, hlt⟩

private theorem Inv.store (h : Inv s read) {receiver : Nat} {mes : Message}
    (hinside : s.inside = some (.enqueuing receiver mes true)) :
    ∃ read', Inv (s.store mes) read' := by
  have hadvanced : s.advanced = s.accepted.length + 1 := by simp [State.advanced, hinside]
  have hstarted : s.Started := .inr ⟨receiver, by simp [hinside, Body.thread]⟩
  have hrear : s.rear = (s.accepted.length % 100 : Nat) :=
    (h.rear_of hadvanced).2 (Nat.succ_pos _)
  have hlength : (s.store mes).accepted.length = s.accepted.length + 1 := by simp [State.store]
  have hslots : (s.store mes).messages =
      Function.update s.messages (s.accepted.length % 100 : Nat)
        (some (mes, s.accepted.length)) := by
    rw [← hrear]
    rfl
  obtain ⟨read', hle, hmod, hbehind, hwithin⟩ := h.overwrite
  refine ⟨read', ?_, ?_, ?_, ?_, ?_, ?_, ?_, ?_, ?_, ?_, ?_, nofun⟩
  · intro hzero
    simp [State.advanced, State.store] at hzero
  · intro _
    simpa [State.advanced, State.store] using hrear
  · intro hunset
    simp [State.Started, State.store] at hunset
  · intro _
    rw [hmod]
    exact h.front hstarted
  · omega
  · omega
  · have hpush := h.holds.push_at (some (mes, s.accepted.length))
    rw [length_numbered, ← numbered_push] at hpush
    rw [hslots]
    exact hpush
  · intro k hk hnew
    have hne : (k : Int) ≠ (s.accepted.length % 100 : Nat) := by omega
    rw [hslots, Function.update_of_ne hne]
    exact h.unwritten k hk (by omega)
  · change s.returned.Sublist ((numbered (s.accepted ++ [mes])).take read')
    rw [take_numbered_push mes hbehind]
    exact h.order.trans (List.take_sublist_take_left hle)
  · intro heq
    omega
  · intro _
    exact .inl (by simp [State.store])

private theorem Inv.lockDequeue (h : Inv s read) (hfree : s.inside = none)
    (hpassed : s.passed = true) :
    Inv s.lockDequeue read := by
  have hne : s.accepted ≠ [] := by
    have hstarted := h.passed hpassed
    simpa [State.Started, hfree] using hstarted
  have hadvanced : s.advanced = s.accepted.length := by simp [State.advanced, hfree]
  obtain ⟨hfresh, hrear⟩ := h.rear_of hadvanced
  exact { h with
    fresh := hfresh
    rear := hrear
    unset := fun hunset => absurd (.inl hne) hunset
    front := fun _ => h.front (.inl hne)
    passed := nofun
    picked := fun mes hmes => ⟨hne, by simpa [State.lockDequeue, eq_comm] using hmes⟩ }

/-- The slot picked holds the first message that has not been read. -/
theorem Inv.picked_eq (h : Inv s read) {mes : Option Numbered}
    (hinside : s.inside = some (.dequeuing mes)) (hlt : read < (numbered s.accepted).length) :
    mes = (numbered s.accepted)[read] := by
  obtain ⟨hne, hmes⟩ := h.picked mes hinside
  have hholds := h.holds read hlt (by simpa using h.within)
  rw [hmes, h.front (.inl hne)]
  exact hholds

private theorem Inv.advanceFront (h : Inv s read) {mes : Option Numbered}
    (hinside : s.inside = some (.dequeuing mes))
    (hbehind : s.returned.getLast? ≠ (numbered s.accepted).getLast?) :
    Inv (s.advanceFront mes) (read + 1) := by
  obtain ⟨hne, -⟩ := h.picked mes hinside
  have hadvanced : s.advanced = s.accepted.length := by simp [State.advanced, hinside]
  have hlt : read < s.accepted.length :=
    Nat.lt_of_le_of_ne h.behind (fun heq => hbehind (h.caughtUp heq))
  have hread : read < (numbered s.accepted).length := by simpa using hlt
  have hwithin := h.within
  obtain ⟨hfresh, hrear⟩ := h.rear_of hadvanced
  refine { h with
    fresh := hfresh
    rear := hrear
    unset := fun hunset => absurd (.inl hne) hunset
    front := fun _ => h.next_front (.inl hne)
    behind := hlt
    within := ?_
    order := ?_
    caughtUp := fun hall => ?_
    passed := fun _ => .inl hne
    picked := nofun }
  · change s.accepted.length ≤ read + 1 + 100
    omega
  · change (s.returned ++ [mes]).Sublist ((numbered s.accepted).take (read + 1))
    rw [← List.take_concat_get' _ read hread, h.picked_eq hinside hread]
    exact h.order.append_right _
  · change (s.returned ++ [mes]).getLast? = (numbered s.accepted).getLast?
    have hall : read + 1 = s.accepted.length := hall
    rw [List.getLast?_concat, List.getLast?_eq_getElem?, length_numbered, ← hall,
      Nat.add_sub_cancel, List.getElem?_eq_getElem hread, h.picked_eq hinside hread]

/-- Behind the message accepted last, front has come round to an unwritten slot or to a message
of a hundred numbers ago. -/
theorem Inv.not_ordered (h : Inv s read) {mes : Option Numbered}
    (hinside : s.inside = some (.dequeuing mes))
    (hlast : s.returned.getLast? = (numbered s.accepted).getLast?) :
    ¬ Ordered (s.advanceFront mes) := by
  rintro ⟨hwritten, horder⟩
  obtain ⟨hne, hmes⟩ := h.picked mes hinside
  have hpos := List.length_pos_of_ne_nil hne
  obtain ⟨m, hm⟩ := getLast?_numbered hne
  have hreturned := List.mem_of_getLast? (hlast.trans hm)
  have hread : read = s.accepted.length := by
    have hlt := lt_of_mem_take_numbered (h.order.subset hreturned)
    have hbehind := h.behind
    omega
  rw [h.front (.inl hne), hread] at hmes
  rcases Nat.lt_or_ge s.accepted.length 100 with hfew | hmany
  · rw [Nat.mod_eq_of_lt hfew, h.unwritten _ hfew (Nat.le_refl _)] at hmes
    exact hwritten (List.mem_append_right _ (List.mem_singleton.mpr hmes.symm))
  · obtain ⟨n, hn⟩ := Nat.exists_eq_add_of_le' hmany
    have hlt : n < (numbered s.accepted).length := by
      rw [length_numbered]
      omega
    have hold : s.messages (n % 100 : Nat) = (numbered s.accepted)[n] :=
      h.holds n hlt (by rw [length_numbered]; omega)
    rw [hn, Nat.add_mod_right, hold] at hmes
    have hincreasing := numbered_increasing.sublist horder
    have hbefore := (List.pairwise_append.mp hincreasing).2.2 _ hreturned mes
      (List.mem_singleton.mpr rfl)
    have hnumber := hbefore m (s.accepted.length - 1) s.accepted[n] n rfl
      (by rw [hmes]; simp [numbered])
    omega

/-- A step keeps the invariant, unless a dequeue ends that has caught up with the enqueues. -/
theorem Inv.step (h : Inv s read) {a : Action} {s' : State} (hstep : step s a = some s')
    (hbehind : Behind s a) : ∃ read', Inv s' read' := by
  cases a with
  | testFull receiver mes =>
    obtain ⟨-, rfl⟩ := Runs.guarded hstep
    split
    · exact ⟨read, h⟩
    · exact ⟨read, h.waiting _⟩
  | setFront receiver =>
    obtain ⟨mes, -, hstep⟩ := Option.bind_eq_some_iff.mp hstep
    obtain ⟨hfree, rfl⟩ := Runs.guarded hstep
    exact ⟨read, h.lockEnqueue hfree receiver mes⟩
  | updateRear =>
    obtain ⟨receiver, mes, hinside, rfl⟩ := step_updateRear hstep
    exact ⟨read, h.advanceRear hinside⟩
  | write =>
    obtain ⟨receiver, mes, hinside, rfl⟩ := step_write hstep
    exact h.store hinside
  | testEmpty =>
    obtain ⟨-, rfl⟩ := Runs.guarded hstep
    rcases Bool.eq_false_or_eq_true s.isEmpty with hempty | hempty
    · rw [if_pos hempty]
      exact ⟨read, h⟩
    · rw [if_neg (by simp [hempty])]
      exact ⟨read, h.testEmpty hempty⟩
  | pick =>
    obtain ⟨⟨hpassed, hfree⟩, rfl⟩ := Runs.guarded hstep
    exact ⟨read, h.lockDequeue hfree hpassed⟩
  | updateFront =>
    obtain ⟨mes, hinside, rfl⟩ := step_updateFront hstep
    exact ⟨read + 1, h.advanceFront hinside hbehind⟩

private theorem Inv.step_not_ordered (h : Inv s read) {a : Action} {s' : State}
    (hstep : Race.step s a = some s') (hcaught : ¬ Behind s a) : ¬ Ordered s' := by
  cases a with
  | updateFront =>
    obtain ⟨mes, hinside, rfl⟩ := step_updateFront hstep
    exact h.not_ordered hinside (not_not.mp hcaught)
  | _ => exact absurd trivial hcaught

end Invariant

/-- Over every interleaving of the tests and the bodies: no unwritten slot is returned and the
messages come in the order of their acceptance exactly when no dequeue ends with the message
returned last being the one accepted last. -/
theorem ordered_iff (actions : List Action) :
    Runs.Visits step Ordered {} actions ↔ Runs.Along step Behind {} actions := by
  refine Runs.visits_iff_along (I := fun s => ∃ read, Inv s read) ?_ ?_ ?_ ⟨0, inv_init⟩ actions
  · rintro s a s' ⟨read, h⟩ hstep hbehind
    exact h.step hstep hbehind
  · rintro s ⟨read, h⟩
    exact h.ordered
  · rintro s a s' ⟨read, h⟩ hstep hcaught
    exact h.step_not_ordered hstep hcaught

/-- The sender's first test falls between front = 0 and the update of rear: its second call finds
front past rear and returns a slot that nothing has been written to. -/
theorem unwritten_returned :
    ¬ ∀ actions s, Runs.run step {} actions = some s → Ordered s := by
  intro h
  obtain ⟨s, hrun, hreturned⟩ : ∃ s, Runs.run step {}
      [.testFull 0 ⟨0, []⟩, .setFront 0, .testEmpty, .updateRear, .write, .pick, .updateFront,
        .testEmpty, .pick, .updateFront] = some s ∧
      s.returned = [some (⟨0, []⟩, 0), none] := ⟨_, rfl, rfl⟩
  have hwritten := (h _ s hrun).written
  simp [hreturned] at hwritten

end NetworkProtocol.Chat.Race
