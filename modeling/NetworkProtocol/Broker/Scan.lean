import NetworkProtocol.Library.Runs
import NetworkProtocol.Broker.Pass

/-! The scan of handle_sender cut at every access to the shared maps. Publications run
under another mutex and toggles under none, so either may fall between two of its steps;
left alone, the steps add up to the locked pass. -/
namespace NetworkProtocol.Broker.Scan
open Std OrderedMap

inductive Phase where
  /-- about to copy the entry after the last one seen -/
  | next (seen : Option Topic)
  /-- before the test isReadUpTo < topics[topic].size() -/
  | check (topic : Topic) (isReadUpTo : Nat)
  /-- before the loop test i < topics[topic].size() -/
  | loop (topic : Topic) (i : Nat)
  /-- the loop test has failed; the cursor is written next -/
  | leave (topic : Topic)
  deriving DecidableEq, Repr

structure Holder where
  id : UserId
  phase : Phase

/-- delivered is history: the indices sent since the latest toggle that subscribed. -/
structure Machine where
  broker : State := {}
  holder : Option Holder := none
  delivered : UserId → Topic → List Nat := fun _ _ => []

inductive Action where
  | publish (message : Message)
  | toggle (id : UserId) (topic : Topic)
  | wake (id : UserId)
  | scan
  deriving DecidableEq, Repr

namespace Machine

def size (m : Machine) (topic : Topic) : Nat := (m.broker.published topic).length

def record (m : Machine) (id : UserId) (topic : Topic) (indices : List Nat) :
    UserId → Topic → List Nat :=
  Function.update m.delivered id (Function.update (m.delivered id) topic indices)

/-- for (auto topic_information : user_informations[id]), then if (isSubscribed). -/
def copyNext (m : Machine) (id : UserId) (seen : Option Topic) : Machine :=
  match entryAfter (value m.broker.userInformations id) seen with
  | none => { m with holder := none }
  | some (topic, information) =>
    if information.isSubscribed then
      { m with holder := some ⟨id, .check topic information.isReadUpTo⟩ }
    else { m with holder := some ⟨id, .next (some topic)⟩ }

/-- if (isReadUpTo < topics[topic].size()); operator[] creates the key. -/
def testUnread (m : Machine) (id : UserId) (topic : Topic) (isReadUpTo : Nat) : Machine :=
  let broker := { m.broker with topics := touch m.broker.topics topic }
  if isReadUpTo < m.size topic then
    { m with broker := broker, holder := some ⟨id, .loop topic isReadUpTo⟩ }
  else { m with broker := broker, holder := some ⟨id, .next (some topic)⟩ }

/-- One turn of the for loop: the test, and the send of message i when it holds. -/
def testLoop (m : Machine) (id : UserId) (topic : Topic) (i : Nat) : Machine :=
  if i < m.size topic then
    let message := ⟨topic, (m.broker.published topic).getD i []⟩
    let stream := m.broker.sent id ++ [message]
    { broker := { m.broker with sent := Function.update m.broker.sent id stream }
      holder := some ⟨id, .loop topic (i + 1)⟩
      delivered := m.record id topic (m.delivered id topic ++ [i]) }
  else { m with holder := some ⟨id, .leave topic⟩ }

/-- user_informations[id][topic].second = topics[topic].size(), read anew. -/
def writeCursor (m : Machine) (id : UserId) (topic : Topic) : Machine :=
  { m with
    broker := setReadUpTo id topic (m.size topic) m.broker
    holder := some ⟨id, .next (some topic)⟩ }

def scan (m : Machine) : Holder → Machine
  | ⟨id, .next seen⟩ => m.copyNext id seen
  | ⟨id, .check topic isReadUpTo⟩ => m.testUnread id topic isReadUpTo
  | ⟨id, .loop topic i⟩ => m.testLoop id topic i
  | ⟨id, .leave topic⟩ => m.writeCursor id topic

end Machine

def step (m : Machine) : Action → Option Machine
  | .publish message => some { m with broker := registerMessage message m.broker }
  | .toggle id topic => some
    { m with
      broker := handleReceiver id topic m.broker
      delivered := if (toggled (m.broker.entry id topic)).isSubscribed
        then m.record id topic [] else m.delivered }
  | .wake id =>
    match m.holder with
    | some _ => none
    | none =>
      let users := touch m.broker.userInformations id
      some { m with
        broker := { m.broker with userInformations := users }
        holder := some ⟨id, .next none⟩ }
  | .scan => m.holder.map m.scan

section Alone
variable {m : Machine} {id : UserId} {topic : Topic}

private def Scans (n : Nat) (m m' : Machine) : Prop :=
  Runs.run step m (List.replicate n .scan) = some m'

private theorem Scans.head {n : Nat} {m' : Machine} {h : Holder} (hh : m.holder = some h)
    (hs : Scans n (m.scan h) m') : Scans (n + 1) m m' := by
  rw [Scans, List.replicate_succ, Runs.run_cons, step, hh]
  exact hs

private theorem Scans.trans {n k : Nat} {m' m'' : Machine} (h : Scans n m m')
    (j : Scans k m' m'') : Scans (n + k) m m'' := by
  rw [Scans, List.replicate_add]
  exact Runs.run_trans h j

private theorem sends_cons (s : State) (topic : Topic) {i : Nat}
    (h : i < (s.published topic).length) : sends s topic i =
      ⟨topic, (s.published topic).getD i []⟩ :: sends s topic (i + 1) := by
  rw [sends_eq, sends_eq, List.drop_eq_getElem_cons h, List.map_cons]
  simp [List.getElem?_eq_getElem h]

private theorem sends_nil (s : State) (topic : Topic) {i : Nat}
    (h : (s.published topic).length ≤ i) : sends s topic i = [] := by
  rw [sends_eq, List.drop_eq_nil_of_le h]
  rfl

private def sentFrom (s : State) (id : UserId) (topic : Topic) (i : Nat) : State :=
  { s with sent := Function.update s.sent id (s.sent id ++ sends s topic i) }

private theorem loop_alone (n : Nat) {i : Nat} (hn : m.size topic - i = n)
    (hh : m.holder = some ⟨id, .loop topic i⟩) : ∃ k m', Scans k m m' ∧
      m'.holder = some ⟨id, .leave topic⟩ ∧ m'.broker = sentFrom m.broker id topic i := by
  induction n generalizing m i with
  | zero =>
    have hstop : ¬ i < m.size topic := by omega
    refine ⟨1, m.testLoop id topic i, Scans.head hh rfl, ?_, ?_⟩
    · rw [Machine.testLoop, if_neg hstop]
    · simp [Machine.testLoop, hstop, sentFrom, sends_nil m.broker topic (Nat.le_of_not_lt hstop)]
  | succ n ih =>
    have hlt : i < m.size topic := by omega
    let message : Message := ⟨topic, (m.broker.published topic).getD i []⟩
    let broker : State :=
      { m.broker with sent := Function.update m.broker.sent id (m.broker.sent id ++ [message]) }
    have hturn : (m.testLoop id topic i).broker = broker ∧
        (m.testLoop id topic i).holder = some ⟨id, .loop topic (i + 1)⟩ := by
      rw [Machine.testLoop, if_pos hlt]
      exact ⟨rfl, rfl⟩
    have hn' : (m.testLoop id topic i).size topic - (i + 1) = n := by
      rw [Machine.size, hturn.1]
      exact (show m.size topic - (i + 1) = n by omega)
    obtain ⟨k, m', hs, hholder, hbroker⟩ := ih hn' hturn.2
    refine ⟨k + 1, m', Scans.head hh hs, hholder, ?_⟩
    rw [hbroker, hturn.1, sentFrom, sentFrom, sends_cons m.broker topic hlt]
    simp [sends, State.published, broker, message]

private theorem entry_alone {seen : Option Topic} {information : Subscription}
    (hh : m.holder = some ⟨id, .next seen⟩)
    (hnext : entryAfter (value m.broker.userInformations id) seen = some (topic, information)) :
    ∃ k m', Scans k m m' ∧ m'.holder = some ⟨id, .next (some topic)⟩ ∧
      m'.broker = scanEntry id m.broker (topic, information) := by
  by_cases hsub : information.isSubscribed = true
  · -- copied as subscribed: the size test decides between the loop and the next entry
    have hcopy : m.copyNext id seen =
        { m with holder := some ⟨id, .check topic information.isReadUpTo⟩ } := by
      simp [Machine.copyNext, hnext, hsub]
    let touched : State := { m.broker with topics := touch m.broker.topics topic }
    have hpub : touched.published topic = m.broker.published topic := value_touch _ _ _
    by_cases hlt : information.isReadUpTo < m.size topic
    · let m₂ : Machine := { m with
        broker := touched
        holder := some ⟨id, .loop topic information.isReadUpTo⟩ }
      have htest : (m.copyNext id seen).testUnread id topic information.isReadUpTo = m₂ := by
        rw [hcopy, Machine.testUnread]
        exact if_pos hlt
      have hm₂ : m₂.holder = some ⟨id, .loop topic information.isReadUpTo⟩ := rfl
      obtain ⟨k, m', hs, hholder, hbroker⟩ := loop_alone _ rfl hm₂
      refine ⟨k + 1 + 1 + 1, m'.writeCursor id topic, ?_, rfl, ?_⟩
      · have hwrite : Scans 1 m' (m'.writeCursor id topic) := Scans.head hholder rfl
        have hloop : Scans (k + 1) m₂ (m'.writeCursor id topic) := hs.trans hwrite
        have hcheck : Scans (k + 1 + 1) (m.copyNext id seen) (m'.writeCursor id topic) :=
          Scans.head (by rw [hcopy]) (by
            rw [Machine.scan, htest]
            exact hloop)
        exact Scans.head hh hcheck
      · have hsize : m'.size topic = (m.broker.published topic).length := by
          rw [Machine.size, hbroker]
          exact congrArg List.length hpub
        have hl : information.isReadUpTo < (m.broker.published topic).length := hlt
        rw [Machine.writeCursor, hsize, hbroker]
        simp [scanEntry, sentFrom, hsub, hpub, hl, touched, m₂]
    · refine ⟨2, { m with broker := touched, holder := some ⟨id, .next (some topic)⟩ }, ?_, rfl, ?_⟩
      · apply Scans.head hh
        apply Scans.head (by rw [Machine.scan, hcopy])
        rw [Machine.scan, Machine.scan, hcopy, Machine.testUnread]
        exact congrArg some (if_neg hlt)
      · have hl : ¬ information.isReadUpTo < (m.broker.published topic).length := hlt
        simp [scanEntry, hsub, hpub, hl, touched]
  · refine ⟨1, m.copyNext id seen, Scans.head hh rfl, ?_, ?_⟩
    · simp [Machine.copyNext, hnext, hsub]
    · simp [Machine.copyNext, hnext, hsub, scanEntry]

private theorem scanEntry_remaining (s : State) (topic : Topic) (information : Subscription) :
    remaining (value (scanEntry id s (topic, information)).userInformations id) (some topic) =
      remaining (value s.userInformations id) (some topic) := by
  unfold scanEntry
  dsimp only
  split
  · split
    · simp only [setReadUpTo, value_modify_self]
      exact remaining_insert _ _ _
    · rfl
  · rfl

private theorem rest_alone (rest : List (Topic × Subscription)) {seen : Option Topic}
    (hh : m.holder = some ⟨id, .next seen⟩)
    (hrest : remaining (value m.broker.userInformations id) seen = rest) :
    ∃ k m', Scans k m m' ∧ m'.holder = none ∧
      m'.broker = rest.foldl (scanEntry id) m.broker := by
  induction rest generalizing m seen with
  | nil =>
    have hstop : entryAfter (value m.broker.userInformations id) seen = none := by
      rw [entryAfter, hrest]
      rfl
    refine ⟨1, m.copyNext id seen, Scans.head hh rfl, ?_, ?_⟩
    · simp [Machine.copyNext, hstop]
    · simp [Machine.copyNext, hstop]
  | cons e rest ih =>
    obtain ⟨topic, information⟩ := e
    have hnext : entryAfter (value m.broker.userInformations id) seen =
        some (topic, information) := by
      rw [entryAfter, hrest]
      rfl
    obtain ⟨k, m₁, hs, hholder, hbroker⟩ := entry_alone hh hnext
    have hrest₁ : remaining (value m₁.broker.userInformations id) (some topic) = rest := by
      rw [hbroker, scanEntry_remaining]
      exact remaining_next hrest
    obtain ⟨j, m', hs', hnone, hbroker'⟩ := ih hholder hrest₁
    refine ⟨k + j, m', hs.trans hs', hnone, ?_⟩
    rw [hbroker', hbroker, List.foldl_cons]

/-- A scan nobody interferes with is the locked pass. -/
theorem scan_alone_is_pass (m : Machine) (id : UserId) (hfree : m.holder = none) :
    ∃ n m', Runs.run step m (.wake id :: List.replicate n .scan) = some m' ∧
      m'.holder = none ∧ m'.broker = handleSender id m.broker := by
  let users := touch m.broker.userInformations id
  let m₁ : Machine :=
    { m with
      broker := { m.broker with userInformations := users }
      holder := some ⟨id, .next none⟩ }
  have hm₁ : m₁.holder = some ⟨id, .next none⟩ := rfl
  obtain ⟨n, m', hs, hnone, hbroker⟩ := rest_alone _ hm₁ (remaining_none _)
  refine ⟨n, m', ?_, hnone, hbroker⟩
  rw [Runs.run_cons, step, hfree]
  exact hs

end Alone

end NetworkProtocol.Broker.Scan
