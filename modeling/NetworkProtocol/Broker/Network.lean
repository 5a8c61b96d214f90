import NetworkProtocol.Broker.RoundTrip
import NetworkProtocol.Broker.WakeUp

/-! Publishers, broker and subscribers with the bytes between them, and the same system over
messages: it is seen through the blocks of memory and the streams as long as these fit. -/
namespace NetworkProtocol.Broker
open CMemory

/-- The bytes on each connection that have been sent and not yet received, and what each
subscriber's terminal shows. -/
structure Network where
  machine : WakeUp.Machine := {}
  /-- The Messages of the publishers not accepted yet, in the order they connected. -/
  posts : List Block := []
  words : UserId → List Char := fun _ => []
  mail : UserId → List Char := fun _ => []
  screen : UserId → List Message := fun _ => []

namespace Network

/-- A new subscriber, a turn of one of the loops, or a spurious wake-up; k is what its recv
returns. -/
inductive Event where
  | connect
  | post (topic : TopicWord) (file : FileContents)
  | accept (k : Nat)
  | distribute
  | ask (id : UserId) (topic : TopicWord)
  | receive (id : UserId) (k : Nat)
  | notify (id : UserId)
  | wait (id : UserId)
  | rouse (id : UserId)
  | pass (id : UserId)
  | print (id : UserId) (k : Nat)

def recv (size : Nat) (stream : List Char) (k : Nat) : Option (List Char × List Char) :=
  if 0 < k ∧ k ≤ size ∧ k ≤ stream.length then some (stream.take k, stream.drop k) else none

/-- main_thread_as_topic_sender, one turn: memset, scanf, send of the whole array. -/
def topicToSubscribe (topic : TopicWord) : Option Block :=
  writeString (zeroed maxTopicLength []) 0 topic.text

def mailed (id : UserId) (s s' : State) : Option (List Block) :=
  ((s'.sent id).drop (s.sent id).length).mapM copyMessage

def turn (n : Network) (a : WakeUp.Action) : Option Network :=
  (WakeUp.step n.machine a).map fun machine => { n with machine := machine }

/-- None stands for a recv or a wait that blocks, for a subscriber that is not there, and for a
read or a write that leaves its memory. -/
def step (n : Network) : Event → Option Network
  | .connect => n.turn .accept
  | .post topic file => do
    let message ← compose topic file
    return { n with posts := n.posts ++ [message] }
  | .accept k => do
    let message ← n.posts.head?
    let (bytes, _) ← recv messageSize message k
    let received ← readMessage (zeroed messageSize bytes)
    let machine ← WakeUp.step n.machine (.register received)
    return { n with posts := n.posts.tail, machine := machine }
  | .distribute => n.turn .distribute
  | .ask id topic => do
    guard (id < n.machine.senders.length)
    let record ← topicToSubscribe topic
    return { n with words := Function.update n.words id (n.words id ++ record) }
  | .receive id k => do
    let (bytes, rest) ← recv maxTopicLength (n.words id) k
    let topic ← cString (zeroed maxTopicLength bytes)
    let machine ← WakeUp.step n.machine (.toggle id topic)
    return { n with words := Function.update n.words id rest, machine := machine }
  | .notify id => n.turn (.notify id)
  | .wait id => n.turn (.wait id)
  | .rouse id => (WakeUp.rouse n.machine id).map fun machine => { n with machine := machine }
  | .pass id => do
    let machine ← WakeUp.step n.machine (.pass id)
    let blocks ← mailed id n.machine.broker machine.broker
    return { n with
      machine := machine
      mail := Function.update n.mail id (n.mail id ++ blocks.flatten) }
  | .print id k => do
    guard (id < n.machine.senders.length)
    let (bytes, rest) ← recv messageSize (n.mail id) k
    let message ← printMessage bytes
    return { n with
      mail := Function.update n.mail id rest
      screen := Function.update n.screen id (n.screen id ++ [message]) }

/-- Every text fits its field with its NUL, and every recv returns a whole record. -/
def Event.Fits : Event → Prop
  | .post topic file => (publication topic file).Inside
  | .accept k => k = messageSize
  | .ask _ topic => topic.text.length < maxTopicLength
  | .receive _ k => k = maxTopicLength
  | .print _ k => k = messageSize
  | _ => True

end Network

/-- The system over messages: what is under way to each party, in order. -/
structure Desk where
  machine : WakeUp.Machine := {}
  posts : List Message := []
  words : UserId → List Topic := fun _ => []
  mail : UserId → List Message := fun _ => []
  screen : UserId → List Message := fun _ => []

namespace Desk
open Network

def turn (d : Desk) (a : WakeUp.Action) : Option Desk :=
  (WakeUp.step d.machine a).map fun machine => { d with machine := machine }

def step (d : Desk) : Event → Option Desk
  | .connect => d.turn .accept
  | .post topic file => some { d with posts := d.posts ++ [publication topic file] }
  | .accept _ => do
    let message ← d.posts.head?
    let machine ← WakeUp.step d.machine (.register message)
    return { d with posts := d.posts.tail, machine := machine }
  | .distribute => d.turn .distribute
  | .ask id topic => do
    guard (id < d.machine.senders.length)
    return { d with words := Function.update d.words id (d.words id ++ [topic.text]) }
  | .receive id _ => do
    let topic ← (d.words id).head?
    let machine ← WakeUp.step d.machine (.toggle id topic)
    return { d with words := Function.update d.words id (d.words id).tail, machine := machine }
  | .notify id => d.turn (.notify id)
  | .wait id => d.turn (.wait id)
  | .rouse id => (WakeUp.rouse d.machine id).map fun machine => { d with machine := machine }
  | .pass id => do
    let machine ← WakeUp.step d.machine (.pass id)
    return { d with
      machine := machine
      mail := Function.update d.mail id (d.mail id ++ passed d.machine.broker id) }
  | .print id _ => do
    guard (id < d.machine.senders.length)
    let message ← (d.mail id).head?
    return { d with
      mail := Function.update d.mail id (d.mail id).tail
      screen := Function.update d.screen id (d.screen id ++ [message]) }

end Desk

/-- A message that its two fields can hold as strings. -/
structure Message.Fits (message : Message) : Prop where
  inside : message.Inside
  topic : nul ∉ message.topic
  contents : nul ∉ message.contents

/-- A topic that one record can hold as a string. -/
def TopicFits (topic : Topic) : Prop := nul ∉ topic ∧ topic.length < maxTopicLength

def StoredFits (s : State) : Prop :=
  ∀ topic, ∀ contents ∈ s.published topic, Message.Fits ⟨topic, contents⟩

/-- The bytes of the network are the messages of the desk, each in a block of its own. -/
structure Network.Carries (n : Network) (d : Desk) : Prop where
  machine : n.machine = d.machine
  posts : n.posts = d.posts.map laid
  words : ∀ id, n.words id = ((d.words id).map (zeroed maxTopicLength)).flatten
  mail : ∀ id, n.mail id = ((d.mail id).map laid).flatten
  screen : n.screen = d.screen
  postsFit : ∀ message ∈ d.posts, message.Fits
  wordsFit : ∀ id, ∀ topic ∈ d.words id, TopicFits topic
  mailFit : ∀ id, ∀ message ∈ d.mail id, message.Fits
  storedFits : StoredFits d.machine.broker

section Stored
variable {s : State} {id : UserId}

private theorem StoredFits.register (h : StoredFits s) {message : Message} (hfits : message.Fits) :
    StoredFits (registerMessage message s) := by
  intro topic contents hmem
  rcases eq_or_ne message.topic topic with rfl | hne
  · rw [registerMessage_published_self, List.mem_append, List.mem_singleton] at hmem
    rcases hmem with hmem | rfl
    · exact h _ contents hmem
    · exact hfits
  · rw [registerMessage_published_of_ne message s hne] at hmem
    exact h topic contents hmem

private theorem StoredFits.receive (h : StoredFits s) (id : UserId) (topic : Topic) :
    StoredFits (handleReceiver id topic s) := h

private theorem StoredFits.pass (h : StoredFits s) (id : UserId) :
    StoredFits (handleSender id s) := by
  intro topic contents hmem
  rw [handleSender_published] at hmem
  exact h topic contents hmem

/-- A step of the machine stores nothing but the message it registers. -/
theorem StoredFits.step {m m' : WakeUp.Machine} {a : WakeUp.Action} (h : StoredFits m.broker)
    (hstep : WakeUp.step m a = some m')
    (hfits : ∀ message, a = .register message → message.Fits) : StoredFits m'.broker := by
  cases a with
  | accept =>
    obtain rfl := Option.some.inj hstep
    exact h
  | register message =>
    obtain ⟨-, rfl⟩ := Runs.guarded hstep
    exact h.register (hfits message rfl)
  | distribute =>
    obtain ⟨topic, -, rfl⟩ := Option.map_eq_some_iff.mp hstep
    rw [WakeUp.distributeMessage]
    split
    · exact h
    · exact h
  | toggle id topic =>
    obtain ⟨-, rfl⟩ := Runs.guarded hstep
    exact h.receive id topic
  | notify id =>
    obtain ⟨-, rfl⟩ := Runs.guarded hstep
    exact h
  | wait id =>
    obtain ⟨-, rfl⟩ := Runs.guarded hstep
    exact h
  | pass id =>
    obtain ⟨-, rfl⟩ := Runs.guarded hstep
    exact h.pass id

/-- A pass sends nothing but what is stored. -/
theorem mem_passed {message : Message} (h : message ∈ passed s id) :
    message.contents ∈ s.published message.topic ∧
      ∃ e, s.entry id message.topic = some e ∧ e.isSubscribed = true := by
  obtain ⟨⟨topic, e⟩, he, hmem⟩ := List.mem_flatMap.mp h
  rw [pending] at hmem
  split at hmem
  · rename_i hsub
    rw [sends_eq] at hmem
    obtain ⟨contents, hcontents, rfl⟩ := List.mem_map.mp hmem
    exact ⟨List.mem_of_mem_drop hcontents, e, (mem_entries id s topic e).mp he, hsub⟩
  · cases hmem

private theorem StoredFits.passed (h : StoredFits s) (id : UserId) :
    ∀ message ∈ passed s id, message.Fits :=
  fun message hmem => h message.topic message.contents (mem_passed hmem).1

end Stored

section Blocks
variable {message : Message} {topic : Topic}

/-- A Message that fits is as long as the struct. -/
theorem length_laid (h : message.Inside) : (laid message).length = messageSize := by
  rw [laid, List.length_append, length_zeroed h.1.le, length_zeroed h.2.le, messageSize]

/-- The next record of a stream, received whole. -/
theorem Network.recv_whole {size : Nat} {block : List Char} (rest : List Char) (hsize : 0 < size)
    (h : block.length = size) : recv size (block ++ rest) size = some (block, rest) := by
  have hle : size ≤ (block ++ rest).length := by
    rw [List.length_append, h]
    exact Nat.le_add_right _ _
  rw [recv, if_pos ⟨hsize, le_rfl, hle⟩, List.take_left' h, List.drop_left' h]

private theorem Network.recv_nil {size k : Nat} : recv size [] k = none := by
  refine if_neg (fun h => ?_)
  have hle := h.2.2
  rw [List.length_nil] at hle
  exact absurd h.1 (by omega)

private theorem zeroed_eq_self {size : Nat} {block : Block} (h : block.length = size) :
    zeroed size block = block := by
  rw [zeroed, h, Nat.sub_self, List.replicate_zero, List.append_nil]

private theorem Message.Fits.read (h : message.Fits) :
    readMessage (zeroed messageSize (laid message)) = some message := by
  rw [zeroed_eq_self (length_laid h.inside), readMessage_laid h.inside h.topic h.contents]

private theorem TopicFits.read (h : TopicFits topic) :
    cString (zeroed maxTopicLength (zeroed maxTopicLength topic)) = some topic := by
  rw [zeroed_eq_self (length_zeroed h.2.le), cString_zeroed_alone h.1 h.2]

private theorem mapM_copyMessage {messages : List Message}
    (h : ∀ message ∈ messages, message.Fits) :
    messages.mapM copyMessage = some (messages.map laid) := by
  induction messages with
  | nil => rfl
  | cons message messages ih =>
    obtain ⟨hmessage, hrest⟩ := List.forall_mem_cons.mp h
    rw [List.mapM_cons, copyMessage_eq hmessage.inside, ih hrest]
    rfl

end Blocks

namespace Network
open Network

section Steps
variable {α : Type*} {n : Network} {d : Desk} {id : UserId} {topic : TopicWord}
  {file : FileContents}

private theorem Carries.turn (h : n.Carries d) {a : WakeUp.Action}
    (hquiet : ∀ message, a ≠ .register message) :
    Option.Rel Carries (n.turn a) (d.turn a) := by
  rw [Network.turn, Desk.turn, h.machine]
  cases hstep : WakeUp.step d.machine a with
  | none => exact .none
  | some machine =>
    refine .some { h with machine := rfl, storedFits := ?_ }
    exact h.storedFits.step hstep fun message ha => absurd ha (hquiet message)

private theorem Carries.rouse (h : n.Carries d) :
    Option.Rel Carries (n.step (.rouse id)) (d.step (.rouse id)) := by
  rw [Network.step, Desk.step, h.machine]
  cases hroused : WakeUp.rouse d.machine id with
  | none => exact .none
  | some machine =>
    obtain ⟨-, rfl⟩ := Runs.guarded hroused
    exact .some { h with machine := rfl, storedFits := h.storedFits }

private theorem Carries.post (h : n.Carries d) (hfits : (Event.post topic file).Fits) :
    Option.Rel Carries (n.step (.post topic file)) (d.step (.post topic file)) := by
  have hpublication : (publication topic file).Fits := by
    refine ⟨hfits, fun hmem => (topic.visible nul hmem).1 rfl, fun hmem => file.free ?_⟩
    exact List.mem_of_mem_take hmem
  rw [Network.step, compose_eq hfits]
  refine .some { h with posts := ?_, postsFit := ?_ }
  · rw [List.map_append, h.posts]
    rfl
  · intro message hmem
    rcases List.mem_append.mp hmem with hmem | hmem
    · exact h.postsFit message hmem
    · exact List.mem_singleton.mp hmem ▸ hpublication

private theorem Carries.accept (h : n.Carries d) :
    Option.Rel Carries (n.step (.accept messageSize)) (d.step (.accept messageSize)) := by
  rw [Network.step, Desk.step, h.posts]
  cases hposts : d.posts with
  | nil => exact .none
  | cons message posts =>
    have hfits := h.postsFit message (hposts ▸ List.mem_cons_self)
    have hrecv := recv_whole [] (by decide) (length_laid hfits.inside)
    rw [List.append_nil] at hrecv
    simp only [List.map_cons, List.head?_cons, hrecv, hfits.read, Option.bind_eq_bind,
      Option.bind_some, h.machine]
    cases hstep : WakeUp.step d.machine (.register message) with
    | none => exact .none
    | some machine =>
      refine .some { h with machine := rfl, posts := rfl, postsFit := ?_, storedFits := ?_ }
      · intro message' hmem
        exact h.postsFit message' (hposts ▸ List.mem_cons_of_mem _ hmem)
      · apply h.storedFits.step hstep
        rintro message' ⟨⟩
        exact hfits

private theorem update_stream {stream : UserId → List Char} {queue : UserId → List α}
    {lay : α → Block} (h : ∀ id, stream id = ((queue id).map lay).flatten) {bytes : List Char}
    {new : List α} (hnew : bytes = (new.map lay).flatten) (other : UserId) :
    Function.update stream id bytes other =
      ((Function.update queue id new other).map lay).flatten := by
  rcases eq_or_ne other id with rfl | hne
  · rw [Function.update_self, Function.update_self, hnew]
  · rw [Function.update_of_ne hne, Function.update_of_ne hne, h other]

private theorem update_fits {queue : UserId → List α} {fits : α → Prop}
    (h : ∀ id, ∀ a ∈ queue id, fits a) {new : List α} (hnew : ∀ a ∈ new, fits a)
    (other : UserId) : ∀ a ∈ Function.update queue id new other, fits a := by
  rcases eq_or_ne other id with rfl | hne
  · rwa [Function.update_self]
  · rw [Function.update_of_ne hne]
    exact h other

private theorem Carries.ask (h : n.Carries d) (hfits : topic.text.length < maxTopicLength) :
    Option.Rel Carries (n.step (.ask id topic)) (d.step (.ask id topic)) := by
  rw [Network.step, Desk.step, topicToSubscribe, writeString_zeroed hfits, h.machine]
  by_cases hseated : id < d.machine.senders.length
  · simp only [guard, if_pos hseated]
    refine .some { h with machine := rfl, words := ?_, wordsFit := ?_ }
    · apply update_stream h.words
      rw [h.words id, List.map_append, List.flatten_append, List.map_singleton,
        List.flatten_singleton]
    · apply update_fits h.wordsFit
      intro word hmem
      rcases List.mem_append.mp hmem with hmem | hmem
      · exact h.wordsFit id word hmem
      · obtain rfl := List.mem_singleton.mp hmem
        exact ⟨fun hnul => (topic.visible nul hnul).1 rfl, hfits⟩
  · simp only [guard, if_neg hseated]
    exact .none

private theorem Carries.receive (h : n.Carries d) :
    Option.Rel Carries (n.step (.receive id maxTopicLength))
      (d.step (.receive id maxTopicLength)) := by
  rw [Network.step, Desk.step, h.words id]
  cases hwords : d.words id with
  | nil =>
    rw [List.map_nil, List.flatten_nil, recv_nil]
    exact .none
  | cons word words =>
    have hmem := h.wordsFit id
    rw [hwords] at hmem
    obtain ⟨hfits, hrest⟩ := List.forall_mem_cons.mp hmem
    have hrecv := recv_whole (words.map (zeroed maxTopicLength)).flatten (by decide)
      (length_zeroed hfits.2.le)
    simp only [List.map_cons, List.flatten_cons, List.head?_cons, hrecv, hfits.read,
      Option.bind_eq_bind, Option.bind_some, h.machine]
    cases hstep : WakeUp.step d.machine (.toggle id word) with
    | none => exact .none
    | some machine =>
      refine .some { h with machine := rfl, words := ?_, wordsFit := ?_, storedFits := ?_ }
      · exact update_stream h.words rfl
      · exact update_fits h.wordsFit hrest
      · exact h.storedFits.step hstep (by simp)

private theorem Carries.pass (h : n.Carries d) :
    Option.Rel Carries (n.step (.pass id)) (d.step (.pass id)) := by
  rw [Network.step, Desk.step, h.machine]
  cases hstep : WakeUp.step d.machine (.pass id) with
  | none => exact .none
  | some machine =>
    have hnew := h.storedFits.passed id
    have hmailed : mailed id d.machine.broker machine.broker =
        some ((passed d.machine.broker id).map laid) := by
      obtain ⟨-, rfl⟩ := Runs.guarded hstep
      rw [mailed, handleSender_sent_self, List.drop_left, mapM_copyMessage hnew]
    simp only [Option.bind_eq_bind, Option.bind_some, hmailed]
    refine .some { h with machine := rfl, mail := ?_, mailFit := ?_, storedFits := ?_ }
    · apply update_stream h.mail
      rw [h.mail id, List.map_append, List.flatten_append]
    · apply update_fits h.mailFit
      intro message hmem
      exact (List.mem_append.mp hmem).elim (h.mailFit id message) (hnew message)
    · exact h.storedFits.step hstep (by simp)

private theorem Carries.print (h : n.Carries d) :
    Option.Rel Carries (n.step (.print id messageSize)) (d.step (.print id messageSize)) := by
  rw [Network.step, Desk.step, h.mail id, h.machine]
  by_cases hseated : id < d.machine.senders.length
  · simp only [guard, if_pos hseated]
    cases hmail : d.mail id with
    | nil =>
      rw [List.map_nil, List.flatten_nil, recv_nil]
      exact .none
    | cons message messages =>
      have hmem := h.mailFit id
      rw [hmail] at hmem
      obtain ⟨hfits, hrest⟩ := List.forall_mem_cons.mp hmem
      have hrecv := recv_whole (messages.map laid).flatten (by decide)
        (length_laid hfits.inside)
      simp only [List.map_cons, List.flatten_cons, List.head?_cons, hrecv, printMessage,
        hfits.read, Option.bind_eq_bind, Option.bind_some]
      refine .some { h with machine := rfl, mail := ?_, screen := ?_, mailFit := ?_ }
      · exact update_stream h.mail rfl
      · rw [h.screen]
      · exact update_fits h.mailFit hrest
  · simp only [guard, if_neg hseated]
    exact .none

/-- Network and desk take an event alike, or refuse it alike. -/
theorem Carries.step (h : n.Carries d) {e : Event} (hfits : e.Fits) :
    Option.Rel Carries (n.step e) (d.step e) := by
  cases e with
  | connect => exact h.turn (by simp)
  | post topic file => exact h.post hfits
  | accept k =>
    obtain rfl : k = messageSize := hfits
    exact h.accept
  | distribute => exact h.turn (by simp)
  | ask id topic => exact h.ask hfits
  | receive id k =>
    obtain rfl : k = maxTopicLength := hfits
    exact h.receive
  | notify id => exact h.turn (by simp)
  | wait id => exact h.turn (by simp)
  | rouse id => exact h.rouse
  | pass id => exact h.pass
  | print id k =>
    obtain rfl : k = messageSize := hfits
    exact h.print

end Steps

/-- Nothing is under way at the start. -/
theorem carries_start : Carries {} {} := by
  refine ⟨rfl, rfl, fun _ => rfl, fun _ => rfl, rfl, ?_, ?_, ?_, ?_⟩ <;> simp [StoredFits]

/-- So they do over a whole run. -/
theorem Carries.run {n : Network} {d : Desk} (h : n.Carries d) {events : List Event}
    (hfits : ∀ e ∈ events, e.Fits) :
    Option.Rel Carries (Runs.run Network.step n events) (Runs.run Desk.step d events) := by
  apply Runs.run_related
  · intro n d e h he
    exact h.step he
  · exact h
  · exact hfits

/-- With texts that fit and whole records the network does what the desk does, step by step: no
memory is overrun, nothing is cut or changed, and it blocks just where the desk does. -/
theorem carried (events : List Event) (hfits : ∀ e ∈ events, e.Fits) :
    Option.Rel Carries (Runs.run step {} events) (Runs.run Desk.step {} events) :=
  carries_start.run hfits

private theorem visible_a : 'a' ≠ nul ∧ CString.isSpace 'a' = false := by
  simp [nul, CString.isSpace]

private theorem free_x : nul ∉ ['x'] := by simp [nul]

private theorem ne_nil_a : ['a'] ≠ [] := by simp

def letterTopic : TopicWord := ⟨['a'], ne_nil_a, List.forall_mem_singleton.mpr visible_a⟩

def letterFile : FileContents := ⟨['x'], free_x⟩

def delivery : List Event :=
  [.connect, .wait 0, .post letterTopic letterFile, .accept messageSize, .ask 0 letterTopic,
    .receive 0 maxTopicLength, .distribute, .pass 0, .wait 0, .notify 0, .print 0 messageSize]

/-- The delivery of one letter fits. -/
theorem delivery_fits : ∀ e ∈ delivery, e.Fits := by
  simp only [delivery, List.forall_mem_cons]
  refine ⟨trivial, trivial, ⟨?_, ?_⟩, rfl, ?_, rfl, trivial, trivial, trivial, trivial, rfl,
    fun e he => absurd he List.not_mem_nil⟩
  · change 1 < 1024
    omega
  · exact length_publication_contents.mpr (by decide)
  · change 1 < 1024
    omega

/-- It is carried as it stands on the desk. -/
theorem delivery_carried :
    Option.Rel Carries (Runs.run step {} delivery) (Runs.run Desk.step {} delivery) :=
  carried delivery delivery_fits

end Network

end NetworkProtocol.Broker
