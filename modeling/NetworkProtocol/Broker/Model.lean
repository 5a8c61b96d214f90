import NetworkProtocol.Library.CString
import NetworkProtocol.Library.OrderedMap

/-! The broker's two nested maps and the three routines that work on them.
Sockets appear only as the stream of messages each sender thread puts on its own. -/
namespace NetworkProtocol.Broker
open Std OrderedMap

abbrev Topic := CString
abbrev Contents := CString
abbrev UserId := Nat

structure Message where
  topic : Topic
  contents : Contents
  deriving DecidableEq, Repr

/-- The pair of user_informations: the flag, and the number of messages marked read. -/
structure Subscription where
  isSubscribed : Bool
  isReadUpTo : Nat
  deriving DecidableEq, Repr

/-- The pair operator[] creates. -/
instance : Inhabited Subscription := ⟨{ isSubscribed := false, isReadUpTo := 0 }⟩

@[simp] theorem default_isSubscribed : (default : Subscription).isSubscribed = false := rfl

structure State where
  topics : ExtTreeMap Topic (List Contents) := ∅
  userInformations : ExtTreeMap UserId (ExtTreeMap Topic Subscription) := ∅
  /-- Everything sent so far on the sender socket of each user. -/
  sent : UserId → List Message := fun _ => []

namespace State

def published (s : State) (topic : Topic) : List Contents := value s.topics topic

def entry (s : State) (id : UserId) (topic : Topic) : Option Subscription :=
  (value s.userInformations id)[topic]?

end State

/-- register_message: push_back under a known topic, a fresh vector under a new one. -/
def registerMessage (message : Message) (s : State) : State :=
  match s.topics[message.topic]? with
  | some v => { s with topics := s.topics.insert message.topic (v ++ [message.contents]) }
  | none => { s with topics := s.topics.insert message.topic [message.contents] }

/-- What one received topic does to the entry found for it. -/
def toggled : Option Subscription → Subscription
  | none => { isSubscribed := true, isReadUpTo := 0 }
  | some e =>
    if e.isSubscribed then { e with isSubscribed := false }
    else { e with isSubscribed := true, isReadUpTo := 0 }

/-- handle_receiver on one topic record; the user's own map is created when missing. -/
def handleReceiver (id : UserId) (topic : Topic) (s : State) : State :=
  let mine := value s.userInformations id
  let mine := mine.insert topic (toggled mine[topic]?)
  { s with userInformations := s.userInformations.insert id mine }

/-- The messages of the loop from i = isReadUpTo while i < topics[topic].size(). -/
def sends (s : State) (topic : Topic) (isReadUpTo : Nat) : List Message :=
  (List.range' isReadUpTo ((s.published topic).length - isReadUpTo)).map
    (fun i => ⟨topic, (s.published topic).getD i []⟩)

/-- The assignment user_informations[id][topic].second = size. -/
def setReadUpTo (id : UserId) (topic : Topic) (size : Nat) (s : State) : State :=
  let setSecond (e : Subscription) := { e with isReadUpTo := size }
  { s with userInformations := modify s.userInformations id (modify · topic setSecond) }

/-- The body of the range-for in handle_sender, for one copied entry. -/
def scanEntry (id : UserId) (s : State) (copied : Topic × Subscription) : State :=
  let (topic, information) := copied
  if information.isSubscribed then
    let s := { s with topics := touch s.topics topic }
    if information.isReadUpTo < (s.published topic).length then
      let stream := s.sent id ++ sends s topic information.isReadUpTo
      setReadUpTo id topic (s.published topic).length
        { s with sent := Function.update s.sent id stream }
    else s
  else s

/-- One locked scan of handle_sender over user_informations[id]. The scan itself
writes only the cursor of the entry it has already copied, so it sees the map as it was. -/
def handleSender (id : UserId) (s : State) : State :=
  let s := { s with userInformations := touch s.userInformations id }
  (value s.userInformations id).toList.foldl (scanEntry id) s

inductive Action where
  | publish (message : Message)
  | toggle (id : UserId) (topic : Topic)
  | pass (id : UserId)
  deriving DecidableEq, Repr

def step (s : State) : Action → State
  | .publish message => registerMessage message s
  | .toggle id topic => handleReceiver id topic s
  | .pass id => handleSender id s

@[simp] theorem step_publish (s : State) (message : Message) :
    step s (.publish message) = registerMessage message s := rfl

@[simp] theorem step_toggle (s : State) (id : UserId) (topic : Topic) :
    step s (.toggle id topic) = handleReceiver id topic s := rfl

@[simp] theorem step_pass (s : State) (id : UserId) : step s (.pass id) = handleSender id s := rfl

/-- The broker after the listed steps, started empty. -/
def exec (as : List Action) : State := as.foldl step {}

@[simp] theorem published_empty (topic : Topic) : ({} : State).published topic = [] :=
  value_empty topic

@[simp] theorem entry_empty (id : UserId) (topic : Topic) : ({} : State).entry id topic = none := by
  have h : value ({} : State).userInformations id = ∅ := value_empty id
  simp [State.entry, h]

section Register
variable (message : Message) (s : State)

@[simp] theorem registerMessage_published_self :
    (registerMessage message s).published message.topic =
      s.published message.topic ++ [message.contents] := by
  unfold registerMessage State.published
  cases h : s.topics[message.topic]? with
  | none => simp [value_eq_getD, h]; rfl
  | some v => simp [value_eq_getD, h]

/-- No other topic is touched. -/
theorem registerMessage_published_of_ne {topic : Topic} (h : message.topic ≠ topic) :
    (registerMessage message s).published topic = s.published topic := by
  unfold registerMessage State.published
  cases s.topics[message.topic]? <;> exact value_insert_of_ne _ _ h

@[simp] theorem registerMessage_userInformations :
    (registerMessage message s).userInformations = s.userInformations := by
  unfold registerMessage
  cases s.topics[message.topic]? <;> rfl

@[simp] theorem registerMessage_entry (id : UserId) (topic : Topic) :
    (registerMessage message s).entry id topic = s.entry id topic := by
  simp [State.entry]

@[simp] theorem registerMessage_sent : (registerMessage message s).sent = s.sent := by
  unfold registerMessage
  cases s.topics[message.topic]? <;> rfl

end Register

/-- A toggle that subscribes starts from cursor 0. -/
theorem toggled_isReadUpTo {e : Option Subscription} (h : (toggled e).isSubscribed) :
    (toggled e).isReadUpTo = 0 := by
  cases e with
  | none => rfl
  | some e => cases hb : e.isSubscribed <;> simp [toggled, hb] at h ⊢

/-- A toggle never moves the cursor forward. -/
theorem toggled_isReadUpTo_le {e : Option Subscription} {n : Nat}
    (h : ∀ e₀, e = some e₀ → e₀.isReadUpTo ≤ n) : (toggled e).isReadUpTo ≤ n := by
  cases e with
  | none => exact Nat.zero_le n
  | some e =>
    have hle := h e rfl
    cases hb : e.isSubscribed <;> simp [toggled, hb, hle]

section Receiver
variable (id : UserId) (topic : Topic) (s : State)

@[simp] theorem handleReceiver_entry_self :
    (handleReceiver id topic s).entry id topic = some (toggled (s.entry id topic)) := by
  simp [handleReceiver, State.entry]

/-- No other entry is toggled. -/
theorem handleReceiver_entry_of_ne {id' : UserId} {topic' : Topic}
    (h : id ≠ id' ∨ topic ≠ topic') :
    (handleReceiver id topic s).entry id' topic' = s.entry id' topic' := by
  unfold handleReceiver State.entry
  rcases eq_or_ne id id' with rfl | hid
  · simp [ExtTreeMap.getElem?_insert, h.resolve_left (not_not_intro rfl)]
  · simp [value_insert_of_ne _ _ hid]

/-- An entry found after a toggle is the toggled one or an old one. -/
theorem handleReceiver_entry_cases {id' : UserId} {topic' : Topic} {e : Subscription}
    (h : (handleReceiver id topic s).entry id' topic' = some e) :
    (id = id' ∧ topic = topic' ∧ e = toggled (s.entry id topic)) ∨
      ((id ≠ id' ∨ topic ≠ topic') ∧ s.entry id' topic' = some e) := by
  by_cases hpair : id = id' ∧ topic = topic'
  · obtain ⟨rfl, rfl⟩ := hpair
    rw [handleReceiver_entry_self] at h
    exact .inl ⟨rfl, rfl, (Option.some.inj h).symm⟩
  · have hne := not_and_or.mp hpair
    exact .inr ⟨hne, (handleReceiver_entry_of_ne id topic s hne).symm.trans h⟩

@[simp] theorem handleReceiver_published (topic' : Topic) :
    (handleReceiver id topic s).published topic' = s.published topic' := rfl

@[simp] theorem handleReceiver_sent : (handleReceiver id topic s).sent = s.sent := rfl

end Receiver

section SetReadUpTo
variable (id : UserId) (topic : Topic) (size : Nat) (s : State)

/-- operator[] would create an unsubscribed entry; the flag of an existing one stays. -/
theorem setReadUpTo_entry_self : (setReadUpTo id topic size s).entry id topic =
    some { (s.entry id topic).getD default with isReadUpTo := size } := by
  simp [setReadUpTo, State.entry, value_eq_getD (value s.userInformations id)]

/-- No other cursor is set. -/
theorem setReadUpTo_entry_of_ne {id' : UserId} {topic' : Topic} (h : id ≠ id' ∨ topic ≠ topic') :
    (setReadUpTo id topic size s).entry id' topic' = s.entry id' topic' := by
  unfold setReadUpTo State.entry
  rcases eq_or_ne id id' with rfl | hid
  · rw [value_modify_self, getElem?_modify_of_ne _ _ (h.resolve_left (not_not_intro rfl))]
  · rw [value_modify_of_ne _ _ hid]

/-- An entry found after the assignment is the assigned one or an old one. -/
theorem setReadUpTo_entry_cases {id' : UserId} {topic' : Topic} {e : Subscription}
    (h : (setReadUpTo id topic size s).entry id' topic' = some e) :
    (id = id' ∧ topic = topic' ∧
        e = { (s.entry id topic).getD default with isReadUpTo := size }) ∨
      s.entry id' topic' = some e := by
  by_cases hpair : id = id' ∧ topic = topic'
  · obtain ⟨rfl, rfl⟩ := hpair
    rw [setReadUpTo_entry_self] at h
    exact .inl ⟨rfl, rfl, (Option.some.inj h).symm⟩
  · have hne := not_and_or.mp hpair
    exact .inr ((setReadUpTo_entry_of_ne id topic size s hne).symm.trans h)

@[simp] theorem setReadUpTo_published (topic' : Topic) :
    (setReadUpTo id topic size s).published topic' = s.published topic' := rfl

@[simp] theorem setReadUpTo_sent : (setReadUpTo id topic size s).sent = s.sent := rfl

end SetReadUpTo

end NetworkProtocol.Broker
