import NetworkProtocol.Library.Runs

/-! handle_subscriber hands every sender and receiver thread a pointer to the same two variables
of its loop body, so what a thread finds there depends on when it first runs. -/
namespace NetworkProtocol.Broker.Spawn

inductive Role where
  | sender | receiver
  deriving DecidableEq, Repr

structure Port where
  receiver : Nat
  sender : Nat
  deriving DecidableEq, Repr

def Port.of (port : Port) : Role → Nat
  | .sender => port.sender
  | .receiver => port.receiver

structure User where
  port : Nat
  id : Nat
  deriving DecidableEq, Repr

/-- The statements of the accept loop, by what they do: accept, the numbering and the send of
the ports are one. -/
inductive Place where
  | accepting | senderId | senderPort | createSender | receiverId | receiverPort | createReceiver
  deriving DecidableEq, Repr

namespace Place

def next : Place → Place
  | .accepting => .senderId
  | .senderId => .senderPort
  | .senderPort => .createSender
  | .createSender => .receiverId
  | .receiverId => .receiverPort
  | .receiverPort => .createReceiver
  | .createReceiver => .accepting

def rank : Place → Nat
  | .accepting => 0
  | .senderId => 1
  | .senderPort => 2
  | .createSender => 3
  | .receiverId => 4
  | .receiverPort => 5
  | .createReceiver => 6

/-- Where the variable handed to a thread gets its id, its port, and its thread. -/
def ofId : Role → Place
  | .sender => .senderId
  | .receiver => .receiverId

def ofPort : Role → Place
  | .sender => .senderPort
  | .receiver => .receiverPort

def ofCreate : Role → Place
  | .sender => .createSender
  | .receiver => .createReceiver

private theorem ofId_ne_accepting (role : Role) : ofId role ≠ .accepting := by
  cases role <;> nofun

private theorem ofPort_ne_accepting (role : Role) : ofPort role ≠ .accepting := by
  cases role <;> nofun

private theorem ofCreate_ne_accepting (role : Role) : ofCreate role ≠ .accepting := by
  cases role <;> nofun

end Place

/-- A thread started for one subscriber, with its locals id and port once it has copied them. -/
structure Started where
  role : Role
  subscriber : Nat
  id : Option Nat := none
  port : Option Nat := none
  deriving DecidableEq, Repr

/-- handle_subscriber with its locals, the threads it has started, and the ports each subscriber
has been sent. -/
structure Acceptor where
  subscriberIdx : Nat := 0
  portForEachSubscriber : Nat := 20000
  place : Place := .accepting
  subscriberId : Nat := 0
  port : Port := ⟨0, 0⟩
  dataSender : User := ⟨0, 0⟩
  dataReceiver : User := ⟨0, 0⟩
  given : List Port := []
  threads : List Started := []

inductive Action where
  | statement
  | copyId (i : Nat)
  | copyPort (i : Nat)

namespace Acceptor

def data (s : Acceptor) : Role → User
  | .sender => s.dataSender
  | .receiver => s.dataReceiver

def create (role : Role) (s : Acceptor) : Acceptor :=
  { s with threads := s.threads ++ [{ role := role, subscriber := s.given.length - 1 }] }

def statement (s : Acceptor) : Acceptor :=
  match s.place with
  | .accepting =>
    let port : Port :=
      { receiver := s.portForEachSubscriber, sender := s.portForEachSubscriber + 1 }
    { s with
      subscriberIdx := s.subscriberIdx + 1
      portForEachSubscriber := s.portForEachSubscriber + 2
      subscriberId := s.subscriberIdx
      port := port
      given := s.given ++ [port] }
  | .senderId => { s with dataSender := { s.dataSender with id := s.subscriberId } }
  | .senderPort => { s with dataSender := { s.dataSender with port := s.port.sender } }
  | .createSender => s.create .sender
  | .receiverId => { s with dataReceiver := { s.dataReceiver with id := s.subscriberId } }
  | .receiverPort => { s with dataReceiver := { s.dataReceiver with port := s.port.receiver } }
  | .createReceiver => s.create .receiver

def copyId (s : Acceptor) (i : Nat) (t : Started) : Acceptor :=
  { s with threads := s.threads.set i { t with id := some (s.data t.role).id } }

def copyPort (s : Acceptor) (i : Nat) (t : Started) : Acceptor :=
  { s with threads := s.threads.set i { t with port := some (s.data t.role).port } }

def step (s : Acceptor) : Action → Option Acceptor
  | .statement => some { s.statement with place := s.place.next }
  | .copyId i => s.threads[i]?.bind (fun t => if t.id = none then some (s.copyId i t) else none)
  | .copyPort i => s.threads[i]?.bind (fun t =>
      if t.id ≠ none ∧ t.port = none then some (s.copyPort i t) else none)

def executions (s : Acceptor) (p : Place) : Nat :=
  if s.place = .accepting ∨ p.rank < s.place.rank then s.subscriberIdx else s.subscriberIdx - 1

/-- Every thread runs with the id of its subscriber and the port that one was sent, and no two
sender threads with one id. -/
structure Identified (s : Acceptor) : Prop where
  id : ∀ t ∈ s.threads, ∀ id, t.id = some id → id = t.subscriber
  port : ∀ t ∈ s.threads, ∀ port, t.port = some port →
    (s.given[t.subscriber]?).map (Port.of · t.role) = some port
  distinct : ((s.threads.filter (·.role = .sender)).filterMap (·.id)).Nodup

/-- A thread copies a field before the next iteration assigns it. -/
def Timely (s : Acceptor) : Action → Prop
  | .statement => True
  | .copyId i => ∀ t, s.threads[i]? = some t → s.executions (.ofId t.role) = t.subscriber + 1
  | .copyPort i => ∀ t, s.threads[i]? = some t → s.executions (.ofPort t.role) = t.subscriber + 1

def portsOf (k : Nat) : Port := { receiver := 20000 + 2 * k, sender := 20001 + 2 * k }

private theorem portsOf_injective {role : Role} {j k : Nat}
    (h : (portsOf j).of role = (portsOf k).of role) : j = k := by
  cases role <;> simp only [portsOf, Port.of] at h <;> omega

section Executions
variable (s : Acceptor)

/-- What comes earlier in the loop has been executed at least as often. -/
theorem executions_mono {p q : Place} (h : p.rank ≤ q.rank) : s.executions q ≤ s.executions p := by
  unfold executions
  split_ifs with hq hp
  · exact Nat.le_refl _
  · exact absurd (hq.imp_right (Nat.lt_of_le_of_lt h)) hp
  · exact Nat.sub_le _ _
  · exact Nat.le_refl _

private theorem executions_le (p : Place) : s.executions p ≤ s.subscriberIdx := by
  unfold executions
  split
  · exact Nat.le_refl _
  · exact Nat.sub_le _ _

/-- A statement other than accept counts for its own place. -/
theorem executions_statement {p : Place} (hp : p ≠ .accepting) :
    ({ s.statement with place := s.place.next } : Acceptor).executions p =
      if p = s.place then s.subscriberIdx else s.executions p := by
  cases hplace : s.place <;> cases p <;>
    simp_all [executions, statement, Place.next, Place.rank, create]

private theorem data_statement_id (role : Role) : (s.statement.data role).id =
    if Place.ofId role = s.place then s.subscriberId else (s.data role).id := by
  cases hplace : s.place <;> cases role <;> simp [statement, hplace, data, create, Place.ofId]

private theorem data_statement_port (role : Role) : (s.statement.data role).port =
    if Place.ofPort role = s.place then s.port.of role else (s.data role).port := by
  cases hplace : s.place <;> cases role <;>
    simp [statement, hplace, data, create, Place.ofPort, Port.of]

end Executions

structure Numbered (s : Acceptor) : Prop where
  given : s.given = (List.range s.subscriberIdx).map portsOf
  next : s.portForEachSubscriber = 20000 + 2 * s.subscriberIdx

/-- The two variables hold what their last assignments have put there, and every thread runs with
what was meant for it. -/
structure Inv (s : Acceptor) : Prop where
  given : s.given = (List.range s.subscriberIdx).map portsOf
  next : s.portForEachSubscriber = 20000 + 2 * s.subscriberIdx
  present : s.place ≠ .accepting →
    s.subscriberIdx = s.subscriberId + 1 ∧ s.port = portsOf s.subscriberId
  dataId : ∀ role k, s.executions (.ofId role) = k + 1 → (s.data role).id = k
  dataPort : ∀ role k, s.executions (.ofPort role) = k + 1 →
    (s.data role).port = (portsOf k).of role
  started : ∀ t ∈ s.threads, t.subscriber < s.executions (.ofCreate t.role)
  once : (s.threads.map (fun t => (t.role, t.subscriber))).Nodup
  id : ∀ t ∈ s.threads, ∀ id, t.id = some id → id = t.subscriber
  port : ∀ t ∈ s.threads, ∀ port, t.port = some port → port = (portsOf t.subscriber).of t.role

/-- No thread has started. -/
theorem inv_init : Inv {} where
  given := rfl
  next := rfl
  present := fun h => absurd rfl h
  dataId := fun role k h => by simp [executions] at h
  dataPort := fun role k h => by simp [executions] at h
  started := by simp
  once := List.nodup_nil
  id := by simp
  port := by simp

section Invariant
variable {s s' : Acceptor} {a : Action}

/-- Each subscriber has been given its ports. -/
theorem Inv.length_given (h : Inv s) : s.given.length = s.subscriberIdx := by
  rw [h.given, List.length_map, List.length_range]

/-- A thread belongs to a subscriber who has ports. -/
theorem Inv.given_at (h : Inv s) {t : Started} (ht : t ∈ s.threads) :
    s.given[t.subscriber]? = some (portsOf t.subscriber) := by
  have hlt := Nat.lt_of_lt_of_le (h.started t ht) (executions_le s _)
  rw [h.given, List.getElem?_map, List.getElem?_range hlt, Option.map_some]

private theorem Inv.identified (h : Inv s) : Identified s := by
  refine ⟨h.id, fun t ht port hport => ?_, ?_⟩
  · rw [h.given_at ht, Option.map_some, h.port t ht port hport]
  · rw [List.Nodup, List.pairwise_filterMap]
    have honce : s.threads.Pairwise (fun t u => (t.role, t.subscriber) ≠ (u.role, u.subscriber)) :=
      List.pairwise_map.mp h.once
    refine (honce.filter _).imp_of_mem (fun ht hu hne i hi j hj hij => ?_)
    obtain ⟨ht, htsender⟩ := List.mem_filter.mp ht
    obtain ⟨hu, husender⟩ := List.mem_filter.mp hu
    rw [decide_eq_true_eq] at htsender husender
    subst hij
    apply hne
    rw [htsender, husender, ← h.id _ ht i hi, ← h.id _ hu i hj]

/-- accept starts a new iteration, and no other statement touches its numbers. -/
theorem statement_numbers (s : Acceptor) :
    (s.place = .accepting ∧ s.statement.given = s.given ++ [s.statement.port] ∧
      s.statement.subscriberIdx = s.subscriberIdx + 1 ∧
      s.statement.portForEachSubscriber = s.portForEachSubscriber + 2 ∧
      s.statement.subscriberId = s.subscriberIdx ∧
      s.statement.port = ⟨s.portForEachSubscriber, s.portForEachSubscriber + 1⟩) ∨
    (s.place ≠ .accepting ∧ s.statement.given = s.given ∧
      s.statement.subscriberIdx = s.subscriberIdx ∧
      s.statement.portForEachSubscriber = s.portForEachSubscriber ∧
      s.statement.subscriberId = s.subscriberId ∧ s.statement.port = s.port) := by
  cases hplace : s.place <;> simp [statement, hplace, create]

/-- A statement of the loop starts one thread at most. -/
theorem statement_threads (s : Acceptor) : s.statement.threads = s.threads ∨
    ∃ role, s.place = .ofCreate role ∧ s.statement.threads =
      s.threads ++ [{ role := role, subscriber := s.given.length - 1 }] := by
  cases hplace : s.place with
  | createSender => exact .inr ⟨.sender, rfl, by simp [statement, hplace, create]⟩
  | createReceiver => exact .inr ⟨.receiver, rfl, by simp [statement, hplace, create]⟩
  | accepting => exact .inl (by simp [statement, hplace])
  | senderId => exact .inl (by simp [statement, hplace])
  | senderPort => exact .inl (by simp [statement, hplace])
  | receiverId => exact .inl (by simp [statement, hplace])
  | receiverPort => exact .inl (by simp [statement, hplace])

/-- A thread that was not there before is new and has copied nothing. -/
theorem mem_statement_threads {s : Acceptor} {t : Started} (ht : t ∈ s.statement.threads) :
    t ∈ s.threads ∨ s.place = .ofCreate t.role ∧ t.subscriber = s.given.length - 1 ∧
      t.id = none ∧ t.port = none := by
  rcases statement_threads s with hsame | ⟨role, hplace, hnew⟩
  · exact .inl (hsame ▸ ht)
  · rcases List.mem_append.mp (hnew ▸ ht) with ht | ht
    · exact .inl ht
    · obtain rfl := List.mem_singleton.mp ht
      exact .inr ⟨hplace, rfl, rfl, rfl⟩

private theorem executions_own (h : s.place ≠ .accepting) :
    s.executions s.place = s.subscriberIdx - 1 := by
  rw [executions, if_neg (not_or.mpr ⟨h, Nat.lt_irrefl _⟩)]

/-- The next ports are those of the next subscriber. -/
theorem Numbered.statement (h : Numbered s) : Numbered s.statement := by
  rcases statement_numbers s with ⟨-, hgiven, hidx, hnext, -, hports⟩ | ⟨-, hgiven, hidx, hnext, -⟩
  · have hown : s.statement.port = portsOf s.subscriberIdx := by
      rw [hports, portsOf, h.next]
      congr 1
      omega
    constructor
    · rw [hgiven, hidx, hown, h.given, List.range_succ, List.map_append, List.map_singleton]
    · rw [hidx, hnext, h.next]
      omega
  · constructor
    · rw [hgiven, hidx]
      exact h.given
    · rw [hidx, hnext]
      exact h.next

/-- The ports are given in order. -/
theorem Inv.numbered (h : Inv s) : Numbered s := ⟨h.given, h.next⟩

private theorem Inv.statement_present (h : Inv s) :
    s.statement.subscriberIdx = s.statement.subscriberId + 1 ∧
      s.statement.port = portsOf s.statement.subscriberId := by
  rcases statement_numbers s with ⟨-, -, hidx, -, hsub, hports⟩ | ⟨hne, -, hidx, -, hsub, hports⟩
  · rw [hidx, hsub, hports, portsOf, h.next]
    refine ⟨rfl, ?_⟩
    congr 1
    omega
  · rw [hidx, hsub, hports]
    exact h.present hne

private theorem Inv.assigned (h : Inv s) {p : Place} (hp : p ≠ .accepting) {value : Nat → Nat}
    {current new : Nat} (hold : ∀ k, s.executions p = k + 1 → current = value k)
    (hnew : s.place ≠ .accepting → new = value s.subscriberId) (k : Nat)
    (hk : ({ s.statement with place := s.place.next } : Acceptor).executions p = k + 1) :
    (if p = s.place then new else current) = value k := by
  rw [executions_statement s hp] at hk
  split
  · rename_i hplace
    rw [if_pos hplace] at hk
    have hne : s.place ≠ .accepting := hplace ▸ hp
    have hpresent := (h.present hne).1
    obtain rfl : s.subscriberId = k := by omega
    exact hnew hne
  · rename_i hplace
    rw [if_neg hplace] at hk
    exact hold k hk

private theorem Inv.statement_started (h : Inv s) {t : Started} (ht : t ∈ s.statement.threads) :
    t.subscriber < ({ s.statement with place := s.place.next } : Acceptor).executions
      (.ofCreate t.role) := by
  rw [executions_statement s (Place.ofCreate_ne_accepting t.role)]
  rcases mem_statement_threads ht with ht | ⟨hplace, hsubscriber, -⟩
  · have hstarted := h.started t ht
    split
    · exact Nat.lt_of_lt_of_le hstarted (executions_le s _)
    · exact hstarted
  · have hpresent := (h.present (hplace ▸ Place.ofCreate_ne_accepting t.role)).1
    rw [if_pos hplace.symm, hsubscriber, h.length_given]
    omega

private theorem Inv.statement_once (h : Inv s) :
    (s.statement.threads.map (fun t => (t.role, t.subscriber))).Nodup := by
  rcases statement_threads s with hsame | ⟨role, hplace, hnew⟩
  · rw [hsame]
    exact h.once
  · rw [hnew, List.map_append, List.map_singleton]
    refine List.nodup_append.mpr ⟨h.once, List.pairwise_singleton _ _, ?_⟩
    rintro key hkey fresh hfresh rfl
    obtain ⟨t, ht, htkey⟩ := List.mem_map.mp hkey
    obtain ⟨hrole, hsubscriber⟩ := Prod.mk.inj (htkey.trans (List.mem_singleton.mp hfresh))
    have hlt := h.started t ht
    have hne : s.place ≠ .accepting := hplace ▸ Place.ofCreate_ne_accepting role
    rw [hrole, ← hplace, executions_own hne, hsubscriber, h.length_given] at hlt
    exact Nat.lt_irrefl _ hlt

/-- The loop goes on under the invariant. -/
theorem Inv.statement (h : Inv s) : Inv { s.statement with place := s.place.next } := by
  refine ⟨h.numbered.statement.given, h.numbered.statement.next, fun _ => h.statement_present,
    fun role k hk => ?_, fun role k hk => ?_, fun t ht => h.statement_started ht,
    h.statement_once, fun t ht i hi => ?_, fun t ht i hi => ?_⟩
  · change (s.statement.data role).id = k
    rw [data_statement_id]
    exact h.assigned (Place.ofId_ne_accepting role) (h.dataId role) (fun _ => rfl) k hk
  · change (s.statement.data role).port = (portsOf k).of role
    rw [data_statement_port]
    refine h.assigned (Place.ofPort_ne_accepting role) (h.dataPort role) (fun hne => ?_) k hk
    rw [(h.present hne).2]
  · rcases mem_statement_threads ht with ht | ⟨-, -, hnone, -⟩
    · exact h.id t ht i hi
    · exact absurd (hnone.symm.trans hi) (Option.some_ne_none i).symm
  · rcases mem_statement_threads ht with ht | ⟨-, -, -, hnone⟩
    · exact h.port t ht i hi
    · exact absurd (hnone.symm.trans hi) (Option.some_ne_none i).symm

private theorem Inv.set (h : Inv s) {i : Nat} {t t' : Started} (ht : s.threads[i]? = some t)
    (hrole : t'.role = t.role) (hsubscriber : t'.subscriber = t.subscriber)
    (hid : ∀ id, t'.id = some id → id = t.subscriber)
    (hport : ∀ port, t'.port = some port → port = (portsOf t.subscriber).of t.role) :
    Inv { s with threads := s.threads.set i t' } := by
  have hmem := List.mem_of_getElem? ht
  have hkeys : (s.threads.set i t').map (fun t => (t.role, t.subscriber)) =
      s.threads.map (fun t => (t.role, t.subscriber)) := by
    obtain ⟨hlt, hget⟩ := List.getElem?_eq_some_iff.mp ht
    have hlt' : i < (s.threads.map (fun t => (t.role, t.subscriber))).length := by simpa using hlt
    have hkey : (t.role, t.subscriber) =
        (s.threads.map (fun t => (t.role, t.subscriber)))[i] := by
      rw [List.getElem_map, hget]
    rw [List.map_set, hrole, hsubscriber, hkey]
    exact List.set_getElem_self _
  refine ⟨h.given, h.next, h.present, h.dataId, h.dataPort, ?_, hkeys ▸ h.once, ?_, ?_⟩
  · intro u hu
    rcases List.mem_or_eq_of_mem_set hu with hu | rfl
    · exact h.started u hu
    · rw [hrole, hsubscriber]
      exact h.started t hmem
  · intro u hu
    rcases List.mem_or_eq_of_mem_set hu with hu | rfl
    · exact h.id u hu
    · rw [hsubscriber]
      exact hid
  · intro u hu
    rcases List.mem_or_eq_of_mem_set hu with hu | rfl
    · exact h.port u hu
    · rw [hrole, hsubscriber]
      exact hport

/-- What the loop and the threads can do. -/
theorem step_cases (h : step s a = some s') :
    (a = .statement ∧ s' = { s.statement with place := s.place.next }) ∨
    (∃ i t, a = .copyId i ∧ s.threads[i]? = some t ∧ t.id = none ∧ s' = s.copyId i t) ∨
    ∃ i t, a = .copyPort i ∧ s.threads[i]? = some t ∧ t.port = none ∧ s' = s.copyPort i t := by
  cases a with
  | statement => exact .inl ⟨rfl, (Option.some.inj h).symm⟩
  | copyId i =>
    obtain ⟨t, ht, h⟩ := Option.bind_eq_some_iff.mp h
    obtain ⟨hid, rfl⟩ := Runs.guarded h
    exact .inr (.inl ⟨i, t, rfl, ht, hid, rfl⟩)
  | copyPort i =>
    obtain ⟨t, ht, h⟩ := Option.bind_eq_some_iff.mp h
    obtain ⟨hport, rfl⟩ := Runs.guarded h
    exact .inr (.inr ⟨i, t, rfl, ht, hport.2, rfl⟩)

private theorem timely_copyId {i : Nat} {t : Started} (ht : s.threads[i]? = some t) :
    s.Timely (.copyId i) ↔ s.executions (.ofId t.role) = t.subscriber + 1 := by
  simp [Timely, ht]

private theorem timely_copyPort {i : Nat} {t : Started} (ht : s.threads[i]? = some t) :
    s.Timely (.copyPort i) ↔ s.executions (.ofPort t.role) = t.subscriber + 1 := by
  simp [Timely, ht]

/-- A timely copy finds the thread's own values. -/
theorem Inv.step (h : Inv s) (hstep : step s a = some s') (timely : s.Timely a) : Inv s' := by
  rcases step_cases hstep with ⟨rfl, rfl⟩ | ⟨i, t, rfl, ht, -, rfl⟩ | ⟨i, t, rfl, ht, -, rfl⟩
  · exact h.statement
  · have hmem := List.mem_of_getElem? ht
    refine h.set ht rfl rfl (fun id hid => ?_) (h.port t hmem)
    obtain rfl := Option.some.inj hid
    exact h.dataId t.role t.subscriber ((timely_copyId ht).mp timely)
  · have hmem := List.mem_of_getElem? ht
    refine h.set ht rfl rfl (h.id t hmem) (fun port hport => ?_)
    obtain rfl := Option.some.inj hport
    exact h.dataPort t.role t.subscriber ((timely_copyPort ht).mp timely)

/-- What a thread's fields were assigned last, when it copies too late, is another's. -/
theorem Inv.late (h : Inv s) {t : Started} (ht : t ∈ s.threads) {p : Place}
    (hp : p.rank ≤ (Place.ofCreate t.role).rank) (late : s.executions p ≠ t.subscriber + 1) :
    ∃ k, s.executions p = k + 1 ∧ k ≠ t.subscriber := by
  have hstarted := h.started t ht
  have hmono := executions_mono s hp
  exact ⟨s.executions p - 1, by omega, by omega⟩

private theorem Inv.not_identified (h : Inv s) (hstep : Acceptor.step s a = some s')
    (late : ¬ s.Timely a) :
    ¬ Identified s' := by
  intro identified
  rcases step_cases hstep with ⟨rfl, rfl⟩ | ⟨i, t, rfl, ht, -, rfl⟩ | ⟨i, t, rfl, ht, -, rfl⟩
  · exact late trivial
  · have hmem := List.mem_of_getElem? ht
    have hrank : (Place.ofId t.role).rank ≤ (Place.ofCreate t.role).rank := by
      cases t.role <;> simp [Place.ofId, Place.ofCreate, Place.rank]
    obtain ⟨k, hk, hne⟩ := h.late hmem hrank (mt (timely_copyId ht).mpr late)
    have hnew : { t with id := some (s.data t.role).id } ∈ (s.copyId i t).threads :=
      List.mem_set (List.getElem?_eq_some_iff.mp ht).1 _
    have hown := identified.id _ hnew _ rfl
    exact hne ((h.dataId t.role k hk).symm.trans hown)
  · have hmem := List.mem_of_getElem? ht
    have hrank : (Place.ofPort t.role).rank ≤ (Place.ofCreate t.role).rank := by
      cases t.role <;> simp [Place.ofPort, Place.ofCreate, Place.rank]
    obtain ⟨k, hk, hne⟩ := h.late hmem hrank (mt (timely_copyPort ht).mpr late)
    have hnew : { t with port := some (s.data t.role).port } ∈ (s.copyPort i t).threads :=
      List.mem_set (List.getElem?_eq_some_iff.mp ht).1 _
    have hown := identified.port _ hnew _ rfl
    have hgiven : (s.copyPort i t).given[t.subscriber]? = some (portsOf t.subscriber) :=
      h.given_at hmem
    rw [hgiven, Option.map_some, h.dataPort t.role k hk] at hown
    exact hne (portsOf_injective (Option.some.inj hown)).symm

end Invariant

/-- Over every order of accepts and thread starts: the threads run with what was meant for them
exactly when each copies its id and its port before the next iteration assigns them. -/
theorem identified_iff (actions : List Action) :
    Runs.Visits step Identified {} actions ↔ Runs.Along step Timely {} actions :=
  Runs.visits_iff_along (fun _ _ _ h hstep timely => h.step hstep timely)
    (fun _ h => h.identified) (fun _ _ _ h hstep late => h.not_identified hstep late) inv_init
    actions

/-- Two subscribers, and the first one's sender thread runs late: both sender threads have id 1. -/
theorem two_senders_of_one_id :
    ¬ ∀ actions s, Runs.run step {} actions = some s → Identified s := by
  intro h
  obtain ⟨s, hrun, hthreads⟩ : ∃ s, Runs.run step {}
      (List.replicate 11 .statement ++ [.copyId 0, .copyId 2]) = some s ∧
      s.threads = [⟨.sender, 0, some 1, none⟩, ⟨.receiver, 0, none, none⟩,
        ⟨.sender, 1, some 1, none⟩] := ⟨_, rfl, rfl⟩
  have hdistinct := (h _ s hrun).distinct
  rw [hthreads] at hdistinct
  exact absurd hdistinct (by decide)

end Acceptor

end NetworkProtocol.Broker.Spawn
