import Mathlib.Data.Finset.Basic
import NetworkProtocol.Library.Runs
import NetworkProtocol.Broker.Pass

/-! The condition variable of the broker. A broadcast is kept by the threads that wait at
that moment and forgotten by the others, and the wait has no predicate to test. -/
namespace NetworkProtocol.Broker.WakeUp
open Std OrderedMap

/-- A sender thread: before its first wait, in the wait, woken with its pass to come, or
done with the pass and not yet back in the wait. -/
inductive Sender where
  | starting
  | waiting
  | woken
  | passed
  deriving DecidableEq, Repr

/-- registered and toggled hold the updates whose broadcast is still to come; the sender
threads are listed by user id. -/
structure Machine where
  broker : State := {}
  senders : List Sender := []
  registered : Option Topic := none
  toggled : Finset UserId := ∅

inductive Action where
  | accept
  | register (message : Message)
  | distribute
  | toggle (id : UserId) (topic : Topic)
  | notify (id : UserId)
  | wait (id : UserId)
  | pass (id : UserId)
  deriving DecidableEq, Repr

def wake : Sender → Sender
  | .waiting => .woken
  | s => s

def broadcast (m : Machine) : Machine := { m with senders := m.senders.map wake }

/-- distribute_message: the broadcast is skipped for a topic without a key. -/
def distributeMessage (topic : Topic) (m : Machine) : Machine :=
  if topic ∈ m.broker.topics then broadcast m else m

def step (m : Machine) : Action → Option Machine
  | .accept => some { m with senders := m.senders ++ [.starting] }
  | .register message =>
    if m.registered = none then
      some { m with
        broker := registerMessage message m.broker
        registered := some message.topic }
    else none
  | .distribute =>
    m.registered.map (fun topic => distributeMessage topic { m with registered := none })
  | .toggle id topic =>
    if id < m.senders.length ∧ id ∉ m.toggled then
      some { m with
        broker := handleReceiver id topic m.broker
        toggled := insert id m.toggled }
    else none
  | .notify id =>
    if id ∈ m.toggled then some (broadcast { m with toggled := m.toggled.erase id }) else none
  | .wait id =>
    if m.senders[id]? = some .starting ∨ m.senders[id]? = some .passed then
      some { m with senders := m.senders.set id .waiting }
    else none
  | .pass id =>
    if m.senders[id]? = some .woken then
      some { m with
        broker := handleSender id m.broker
        senders := m.senders.set id .passed }
    else none

/-- A wake-up without a broadcast, as pthread_cond_wait may have it. -/
def rouse (m : Machine) (id : UserId) : Option Machine :=
  if m.senders[id]? = some .waiting then
    some { m with senders := m.senders.set id .woken }
  else none

/-- What a step does to the broker's tables, as a run of the broker. -/
def performed : Action → List Broker.Action
  | .register message => [.publish message]
  | .toggle id topic => [.toggle id topic]
  | .pass id => [.pass id]
  | _ => []

/-- The broker behind the machine does the steps that the machine performs. -/
theorem step_performed {m m' : Machine} {a : Action} (hstep : step m a = some m') :
    m'.broker = (performed a).foldl Broker.step m.broker := by
  cases a with
  | accept =>
    obtain rfl := Option.some.inj hstep
    rfl
  | distribute =>
    obtain ⟨topic, -, rfl⟩ := Option.map_eq_some_iff.mp hstep
    rw [distributeMessage]
    split
    · rfl
    · rfl
  | _ =>
    obtain ⟨-, rfl⟩ := Runs.guarded hstep
    rfl

/-- The sender threads stay. -/
theorem length_senders {m m' : Machine} {a : Action} (hstep : step m a = some m') :
    m.senders.length ≤ m'.senders.length := by
  cases a with
  | accept =>
    obtain rfl := Option.some.inj hstep
    rw [List.length_append]
    exact Nat.le_add_right _ _
  | distribute =>
    obtain ⟨topic, -, rfl⟩ := Option.map_eq_some_iff.mp hstep
    rw [distributeMessage]
    split
    · rw [broadcast, List.length_map]
    · exact le_rfl
  | _ =>
    obtain ⟨-, rfl⟩ := Runs.guarded hstep
    simp [broadcast]

def UpToDate (s : State) (id : UserId) : Prop :=
  ∀ topic e, s.entry id topic = some e → e.isSubscribed →
    e.isReadUpTo = (s.published topic).length

/-- All sender threads sleep and no update stands before its broadcast. -/
def Asleep (m : Machine) : Prop :=
  m.registered = none ∧ m.toggled = ∅ ∧ ∀ s ∈ m.senders, s = .waiting

def NothingLeft (m : Machine) : Prop := Asleep m → ∀ id, UpToDate m.broker id

/-- The thread would miss a broadcast and make no pass after it. -/
def Deaf (m : Machine) (id : UserId) : Prop :=
  m.senders[id]? = some .starting ∨ m.senders[id]? = some .passed

/-- The last outstanding broadcast must not be made while a thread that would miss it still
has something to deliver. -/
def Heard (m : Machine) : Action → Prop
  | .distribute => m.toggled = ∅ → ∀ id, Deaf m id → UpToDate m.broker id
  | .notify id => m.registered = none → m.toggled = {id} →
    ∀ id', Deaf m id' → UpToDate m.broker id'
  | _ => True

def Own (a : Action) : Prop := ∃ id, a = .wait id ∨ a = .pass id

structure Inv (m : Machine) : Prop where
  cursor : ∀ id topic e, m.broker.entry id topic = some e →
    e.isReadUpTo ≤ (m.broker.published topic).length
  accepted : ∀ id topic e, m.broker.entry id topic = some e → id < m.senders.length
  stored : ∀ topic, m.registered = some topic → topic ∈ m.broker.topics
  signalled : ∀ id, UpToDate m.broker id ∨ m.registered ≠ none ∨ m.toggled ≠ ∅ ∨
    m.senders[id]? = some .woken

/-- Without threads nothing can be missed. -/
theorem inv_init : Inv {} where
  cursor := by
    intro id topic e he
    simp at he
  accepted := by
    intro id topic e he
    simp at he
  stored := nofun
  signalled := by
    intro id
    refine .inl fun topic e he => ?_
    simp at he

/-- The invariant leaves nothing undelivered once all is quiet. -/
theorem Inv.nothingLeft {m : Machine} (hm : Inv m) : NothingLeft m := by
  rintro ⟨hreg, htog, hall⟩ id
  rcases hm.signalled id with h | h | h | h
  · exact h
  · exact absurd hreg h
  · exact absurd htog h
  · exact absurd (hall _ (List.mem_of_getElem? h)) (by decide)

private theorem broadcast_wakes {m : Machine} {id : UserId} (hlt : id < m.senders.length)
    (h : ¬ Deaf m id) : (broadcast m).senders[id]? = some .woken := by
  have hget : m.senders[id]? = some m.senders[id] := List.getElem?_eq_getElem hlt
  cases hs : m.senders[id] with
  | starting => exact absurd (.inl (hget.trans (congrArg some hs))) h
  | passed => exact absurd (.inr (hget.trans (congrArg some hs))) h
  | waiting => simp [broadcast, hget, hs, wake]
  | woken => simp [broadcast, hget, hs, wake]

/-- A broadcast that every reader in need hears restores the signal. -/
theorem inv_broadcast {m : Machine}
    (hc : ∀ id topic e, m.broker.entry id topic = some e →
      e.isReadUpTo ≤ (m.broker.published topic).length)
    (ha : ∀ id topic e, m.broker.entry id topic = some e → id < m.senders.length)
    (hs : ∀ topic, m.registered = some topic → topic ∈ m.broker.topics)
    (hok : m.registered = none → m.toggled = ∅ → ∀ id, Deaf m id → UpToDate m.broker id) :
    Inv (broadcast m) := by
  refine ⟨hc, fun id topic e he => ?_, hs, fun id => ?_⟩
  · simpa [broadcast] using ha id topic e he
  · by_cases hreg : m.registered = none
    · by_cases htog : m.toggled = ∅
      · by_cases hup : UpToDate m.broker id
        · exact .inl hup
        · have hlt : id < m.senders.length := by
            simp only [UpToDate, not_forall] at hup
            obtain ⟨topic, e, he, -⟩ := hup
            exact ha id topic e he
          have hdeaf : ¬ Deaf m id := fun hd => hup (hok hreg htog id hd)
          exact .inr (.inr (.inr (broadcast_wakes hlt hdeaf)))
      · exact .inr (.inr (.inl htog))
    · exact .inr (.inl hreg)

private theorem mem_topics_registerMessage (message : Message) (s : State) :
    message.topic ∈ (registerMessage message s).topics := by
  unfold registerMessage
  cases s.topics[message.topic]? <;> simp

/-- A registered Message has its broadcast still to come. -/
theorem keep_register {m : Machine} (hm : Inv m) (message : Message) : Inv
    { m with
      broker := registerMessage message m.broker
      registered := some message.topic } := by
  refine ⟨?_, ?_, ?_, ?_⟩
  · intro id topic e he
    have hold := hm.cursor id topic e (by simpa using he)
    rcases eq_or_ne message.topic topic with rfl | ht
    · simp only [registerMessage_published_self, List.length_append]
      omega
    · simpa only [registerMessage_published_of_ne message m.broker ht] using hold
  · intro id topic e he
    exact hm.accepted id topic e (by simpa using he)
  · intro topic ht
    obtain rfl := Option.some.inj ht
    exact mem_topics_registerMessage message m.broker
  · exact fun _ => .inr (.inl nofun)

/-- So has a toggled subscription. -/
theorem keep_toggle {m : Machine} (hm : Inv m) {id : UserId} (topic : Topic)
    (hlt : id < m.senders.length) : Inv
    { m with
      broker := handleReceiver id topic m.broker
      toggled := insert id m.toggled } := by
  refine ⟨?_, ?_, ?_, ?_⟩
  · intro id' topic' e he
    obtain ⟨rfl, rfl, rfl⟩ | ⟨-, hold⟩ := handleReceiver_entry_cases id topic m.broker he
    · exact toggled_isReadUpTo_le (hm.cursor id topic)
    · exact hm.cursor id' topic' e hold
  · intro id' topic' e he
    obtain ⟨rfl, rfl, rfl⟩ | ⟨-, hold⟩ := handleReceiver_entry_cases id topic m.broker he
    · exact hlt
    · exact hm.accepted id' topic' e hold
  · exact hm.stored
  · exact fun _ => .inr (.inr (.inl (Finset.insert_ne_empty id m.toggled)))

private theorem upToDate_handleSender_of_ne {s : State} {id id' : UserId} (h : id ≠ id') :
    UpToDate (handleSender id s) id' ↔ UpToDate s id' := by
  simp only [UpToDate, handleSender_entry_of_ne id s h, handleSender_published]

/-- A pass leaves its user up to date. -/
theorem upToDate_handleSender_self {s : State} {id : UserId}
    (hc : ∀ topic e, s.entry id topic = some e → e.isReadUpTo ≤ (s.published topic).length) :
    UpToDate (handleSender id s) id := by
  intro topic e he hsub
  rw [handleSender_entry_self] at he
  obtain ⟨e₀, he₀, rfl⟩ := Option.map_eq_some_iff.mp he
  rw [settled_isSubscribed] at hsub
  rw [handleSender_published]
  exact settled_isReadUpTo s e₀ hsub (hc topic e₀ he₀)

private theorem topics_scanEntry (id : UserId) (s : State) (copied : Topic × Subscription)
    {topic : Topic} (h : topic ∈ s.topics) : topic ∈ (scanEntry id s copied).topics := by
  have htouch : ∀ t, topic ∈ touch s.topics t := by
    intro t
    exact ExtTreeMap.mem_insertIfNew.mpr (.inr h)
  unfold scanEntry
  dsimp only
  split
  · split
    · exact htouch _
    · exact htouch _
  · exact h

/-- A pass may add keys to topics but drops none. -/
theorem topics_handleSender (id : UserId) (s : State) {topic : Topic} (h : topic ∈ s.topics) :
    topic ∈ (handleSender id s).topics := by
  unfold handleSender
  have hfold : ∀ (l : List (Topic × Subscription)) (s : State), topic ∈ s.topics →
      topic ∈ (l.foldl (scanEntry id) s).topics := by
    intro l
    induction l with
    | nil => exact fun _ h => h
    | cons e l ih => exact fun s h => ih _ (topics_scanEntry id s e h)
  exact hfold _ _ h

/-- A pass leaves its user nothing to deliver. -/
theorem keep_pass {m : Machine} (hm : Inv m) (id : UserId) : Inv
    { m with
      broker := handleSender id m.broker
      senders := m.senders.set id .passed } := by
  refine ⟨?_, ?_, ?_, ?_⟩
  · intro id' topic e he
    rw [handleSender_published]
    obtain ⟨rfl, e₀, he₀, rfl⟩ | ⟨-, hold⟩ := handleSender_entry_cases id m.broker he
    · exact settled_isReadUpTo_le m.broker e₀ (hm.cursor id topic e₀ he₀)
    · exact hm.cursor id' topic e hold
  · intro id' topic e he
    rw [List.length_set]
    obtain ⟨rfl, e₀, he₀, -⟩ | ⟨-, hold⟩ := handleSender_entry_cases id m.broker he
    · exact hm.accepted id topic e₀ he₀
    · exact hm.accepted id' topic e hold
  · exact fun topic ht => topics_handleSender id m.broker (hm.stored topic ht)
  · intro id'
    rcases eq_or_ne id id' with rfl | hid
    · exact .inl (upToDate_handleSender_self (hm.cursor id))
    · have hold := hm.signalled id'
      rw [← upToDate_handleSender_of_ne (s := m.broker) hid] at hold
      simpa only [List.getElem?_set_ne hid] using hold

/-- A step with a last broadcast that all can hear keeps the invariant. -/
theorem keep {m : Machine} {a : Action} {m' : Machine} (hm : Inv m)
    (hstep : step m a = some m') (hok : Heard m a) : Inv m' := by
  cases a with
  | accept =>
    obtain rfl := Option.some.inj hstep
    refine ⟨hm.cursor, fun id topic e he => ?_, hm.stored, fun id => ?_⟩
    · rw [List.length_append]
      exact (hm.accepted id topic e he).trans_le (Nat.le_add_right _ _)
    · refine (hm.signalled id).imp_right (.imp_right (.imp_right fun hw => ?_))
      rw [List.getElem?_append_left (List.getElem?_eq_some_iff.mp hw).1, hw]
  | register message =>
    obtain ⟨-, rfl⟩ := Runs.guarded hstep
    exact keep_register hm message
  | distribute =>
    obtain ⟨topic, hreg, rfl⟩ := Option.map_eq_some_iff.mp hstep
    rw [distributeMessage, if_pos (hm.stored topic hreg)]
    exact inv_broadcast hm.cursor hm.accepted nofun (fun _ => hok)
  | toggle id topic =>
    obtain ⟨⟨hlt, -⟩, rfl⟩ := Runs.guarded hstep
    exact keep_toggle hm topic hlt
  | notify id =>
    obtain ⟨hmem, rfl⟩ := Runs.guarded hstep
    refine inv_broadcast hm.cursor hm.accepted hm.stored (fun hreg herase => hok hreg ?_)
    rcases Finset.erase_eq_empty_iff _ _ |>.mp herase with h | h
    · simp [h] at hmem
    · exact h
  | wait id =>
    obtain ⟨hdeaf, rfl⟩ := Runs.guarded hstep
    refine ⟨hm.cursor, fun id' topic e he => ?_, hm.stored, fun id' => ?_⟩
    · rw [List.length_set]
      exact hm.accepted id' topic e he
    · refine (hm.signalled id').imp_right (.imp_right (.imp_right fun hw => ?_))
      have hid : id ≠ id' := by
        rintro rfl
        rcases hdeaf with h | h <;> simp [h] at hw
      rw [List.getElem?_set_ne hid, hw]
  | pass id =>
    obtain ⟨-, rfl⟩ := Runs.guarded hstep
    exact keep_pass hm id

/-- So does a spurious wake-up. -/
theorem Inv.rouse {m m' : Machine} {id : UserId} (hm : Inv m) (h : rouse m id = some m') :
    Inv m' := by
  obtain ⟨hwaiting, rfl⟩ := Runs.guarded h
  refine ⟨hm.cursor, fun id' topic e he => ?_, hm.stored, fun id' => ?_⟩
  · rw [List.length_set]
    exact hm.accepted id' topic e he
  · refine (hm.signalled id').imp_right (.imp_right (.imp_right fun hw => ?_))
    have hid : id ≠ id' := by
      rintro rfl
      simp [hwaiting] at hw
    rw [List.getElem?_set_ne hid, hw]

/-- Left to themselves, the sender threads all fall asleep over something undelivered. -/
def Strands (m : Machine) : Prop :=
  ∃ w m', (∀ a ∈ w, Own a) ∧ Runs.run step m w = some m' ∧ ¬ NothingLeft m'

private structure Settles (m : Machine) (n : Nat) (x : UserId) (m' : Machine) : Prop where
  registered : m'.registered = m.registered
  toggled : m'.toggled = m.toggled
  length : m'.senders.length = m.senders.length
  asleep : ∀ i < n, m'.senders[i]? = some .waiting
  ahead : ∀ i, n ≤ i → m'.senders[i]? = m.senders[i]?
  behind : ¬ UpToDate m'.broker x

/-- A thread that has passed goes into its wait. -/
theorem step_wait {m : Machine} {id : UserId} (h : Deaf m id) :
    step m (.wait id) = some { m with senders := m.senders.set id .waiting } := if_pos h

/-- A thread that has been woken makes its pass. -/
theorem step_pass {m : Machine} {id : UserId} (h : m.senders[id]? = some .woken) :
    step m (.pass id) = some
      { m with
        broker := handleSender id m.broker
        senders := m.senders.set id .passed } := if_pos h

private theorem settles_set {m m' : Machine} {n : Nat} {x : UserId} (h : Settles m n x m')
    (hn : n < m.senders.length) (s : State) (hs : ¬ UpToDate s x) (v : Sender) :
    Settles m (n + 1) x
      { m' with
        broker := s
        senders := (m'.senders.set n v).set n .waiting } := by
  have hlen : n < m'.senders.length := h.length ▸ hn
  refine ⟨h.registered, h.toggled, by simp [h.length], fun i hi => ?_, fun i hi => ?_, hs⟩
  · rcases Nat.lt_succ_iff_lt_or_eq.mp hi with hlt | rfl
    · have hne : n ≠ i := by omega
      simp [List.getElem?_set_ne hne, h.asleep i hlt]
    · simp [hlen]
  · have hne : n ≠ i := by omega
    simp [List.getElem?_set_ne hne, h.ahead i (by omega)]

private theorem settle {m : Machine} {x : UserId} (hdeaf : Deaf m x)
    (hx : ¬ UpToDate m.broker x) (n : Nat) (hn : n ≤ m.senders.length) :
    ∃ w m', (∀ a ∈ w, Own a) ∧ Runs.run step m w = some m' ∧ Settles m n x m' := by
  induction n with
  | zero =>
    refine ⟨[], m, by simp, rfl, ⟨rfl, rfl, rfl, nofun, fun _ _ => rfl, hx⟩⟩
  | succ n ih =>
    obtain ⟨w, m₁, hw, hr, hs⟩ := ih (by omega)
    have hget : m₁.senders[n]? = m.senders[n]? := hs.ahead n le_rfl
    have hsome : m.senders[n]? = some m.senders[n] := List.getElem?_eq_getElem hn
    have hwait (id : UserId) : Own (.wait id) := ⟨id, .inl rfl⟩
    have hback (hd : Deaf m₁ n) :
        ∃ w m', (∀ a ∈ w, Own a) ∧ Runs.run step m w = some m' ∧ Settles m (n + 1) x m' := by
      have hset := settles_set hs hn m₁.broker hs.behind .waiting
      rw [List.set_set] at hset
      refine ⟨w ++ [.wait n], _, ?_, Runs.run_trans hr ?_, hset⟩
      · exact List.forall_mem_append.mpr ⟨hw, List.forall_mem_singleton.mpr (hwait n)⟩
      · rw [Runs.run_cons, step_wait hd]
        rfl
    cases hphase : m.senders[n] with
    | waiting =>
      refine ⟨w, m₁, hw, hr, { hs with asleep := ?_, ahead := fun i hi => hs.ahead i (by omega) }⟩
      intro i hi
      rcases Nat.lt_succ_iff_lt_or_eq.mp hi with hlt | rfl
      · exact hs.asleep i hlt
      · rw [hget, hsome, hphase]
    | woken =>
      -- the reader in need is deaf, so this is somebody else's pass
      have hne : n ≠ x := by
        rintro rfl
        rcases hdeaf with h | h <;> simp [h, hphase] at hsome
      have hwoken : m₁.senders[n]? = some .woken := by rw [hget, hsome, hphase]
      have hlen : n < m₁.senders.length := hs.length ▸ hn
      let m₂ : Machine :=
        { m₁ with
          broker := handleSender n m₁.broker
          senders := m₁.senders.set n .passed }
      have hdeaf₂ : Deaf m₂ n := .inr (by simp [m₂, hlen])
      refine ⟨w ++ [.pass n, .wait n], _, ?_, Runs.run_trans hr ?_,
        settles_set hs hn (handleSender n m₁.broker) ?_ .passed⟩
      · have hpass : Own (.pass n) := ⟨n, .inr rfl⟩
        exact List.forall_mem_append.mpr ⟨hw, by simp [hpass, hwait n]⟩
      · rw [Runs.run_cons, step_pass hwoken]
        exact (Runs.run_cons m₂ _ []).trans (by rw [step_wait hdeaf₂]; rfl)
      · rw [upToDate_handleSender_of_ne hne]
        exact hs.behind
    | starting => exact hback (.inl (by rw [hget, hsome, hphase]))
    | passed => exact hback (.inr (by rw [hget, hsome, hphase]))

private theorem strands_broadcast {m : Machine} {x : UserId} (hreg : m.registered = none)
    (htog : m.toggled = ∅) (hdeaf : Deaf m x) (hx : ¬ UpToDate m.broker x) :
    Strands (broadcast m) := by
  have hdeaf' : Deaf (broadcast m) x := by
    rcases hdeaf with h | h
    · exact .inl (by simp [broadcast, h, wake])
    · exact .inr (by simp [broadcast, h, wake])
  obtain ⟨w, m', hw, hr, hs⟩ := settle hdeaf' hx _ le_rfl
  refine ⟨w, m', hw, hr, fun hnl => hs.behind (hnl ⟨?_, ?_, ?_⟩ x)⟩
  · exact hs.registered.trans hreg
  · exact hs.toggled.trans htog
  · intro s hmem
    obtain ⟨i, hi, rfl⟩ := List.getElem_of_mem hmem
    have hi' : i < (broadcast m).senders.length := hs.length ▸ hi
    exact Option.some.inj ((List.getElem?_eq_getElem hi).symm.trans (hs.asleep i hi'))

/-- Sleeping senders leave nothing behind in any state of a run in which no last outstanding
broadcast is missed by a thread that still has work; after any other they go on to. -/
theorem nothing_left_iff (as : List Action) :
    (Runs.Along step Heard {} as → Runs.Visits step NothingLeft {} as) ∧
    (Runs.Visits step (Runs.Henceforth step Own NothingLeft) {} as ↔
      Runs.Along step Heard {} as) := by
  suffices hiff : _ from ⟨fun h => (hiff.mpr h).now, hiff⟩
  apply Runs.visits_henceforth_iff_along (I := Inv)
  · exact fun m a m' hm hstep hok => keep hm hstep hok
  · exact fun m hm => hm.nothingLeft
  · rintro m a ⟨id, rfl | rfl⟩ <;> trivial
  · intro m a m' hm hstep hbad
    cases a with
    | distribute =>
      simp only [Heard, Classical.not_imp, not_forall] at hbad
      obtain ⟨htog, x, hdeaf, hx⟩ := hbad
      obtain ⟨topic, hreg, rfl⟩ := Option.map_eq_some_iff.mp hstep
      rw [distributeMessage, if_pos (hm.stored topic hreg)]
      exact strands_broadcast rfl htog hdeaf hx
    | notify id =>
      simp only [Heard, Classical.not_imp, not_forall] at hbad
      obtain ⟨hreg, htog, x, hdeaf, hx⟩ := hbad
      obtain ⟨-, rfl⟩ := Runs.guarded hstep
      refine strands_broadcast (x := x) hreg ?_ hdeaf hx
      simp [htog]
    | _ => exact absurd trivial hbad
  · exact inv_init

/-- The only sender starts while a message is published and subscribed to; both broadcasts
are forgotten, and it goes to sleep over an unread message. -/
theorem something_left : ¬ ∀ as m, Runs.run step {} as = some m → NothingLeft m := by
  intro h
  let t : Topic := ['t']
  let as : List Action :=
    [.accept, .register ⟨t, ['x']⟩, .distribute, .toggle 0 t, .notify 0, .wait 0]
  obtain ⟨m, hr⟩ : ∃ m, Runs.run step {} as = some m := ⟨_, rfl⟩
  have hent : (Runs.run step {} as).map (fun m => m.broker.entry 0 t) = some (some ⟨true, 0⟩) := by
    decide +kernel
  have hsize : (Runs.run step {} as).map (fun m => (m.broker.published t).length) = some 1 := by
    decide +kernel
  have hidle : (Runs.run step {} as).map (fun m => (m.registered, m.toggled, m.senders)) =
      some (none, ∅, [.waiting]) := by
    decide +kernel
  simp only [hr, Option.map_some, Option.some.injEq, Prod.mk.injEq] at hent hsize hidle
  obtain ⟨hreg, htog, hsend⟩ := hidle
  have hup := h as m hr ⟨hreg, htog, by simp [hsend]⟩ 0 t _ hent rfl
  rw [hsize] at hup
  exact absurd hup (by decide)

end NetworkProtocol.Broker.WakeUp
