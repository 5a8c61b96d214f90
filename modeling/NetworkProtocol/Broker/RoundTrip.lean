import NetworkProtocol.Broker.Framing

/-! The way of one publication through the blocks of memory it is kept in: typed topic and file
into the publisher's Message, that Message into the broker's strings, these into the Message of
handle_sender, and that one onto the subscriber's terminal. -/
namespace NetworkProtocol.Broker
open CMemory

/-- What scanf's %s can take from the terminal. -/
structure TopicWord where
  text : CString
  ne_nil : text ≠ []
  visible : ∀ c ∈ text, c ≠ nul ∧ CString.isSpace c = false

/-- What a file without a NUL byte holds. -/
structure FileContents where
  bytes : List Char
  free : nul ∉ bytes

def newMessage : Block := zeroed maxTopicLength [] ++ zeroed maxFileLength []

/-- The publisher's main: scanf to message->topic, then readFromFile's fread. -/
def compose (topic : TopicWord) (file : FileContents) : Option Block :=
  (writeString newMessage 0 topic.text).bind fun message =>
    write message maxTopicLength (file.bytes.take maxFileLength)

/-- The Message of handle_sender and its two strcpys. -/
def copyMessage (message : Message) : Option Block :=
  (writeString newMessage 0 message.topic).bind fun copy =>
    writeString copy maxTopicLength message.contents

/-- The strings read on the way: what readFromFile shows, what register_message stores, and what
the subscriber prints. -/
structure Trip where
  shown : CString
  stored : Message
  printed : Message
  deriving DecidableEq, Repr

/-- One publication delivered whole both times; none when a read or write leaves the Message. -/
def trip (topic : TopicWord) (file : FileContents) : Option Trip := do
  let posted ← compose topic file
  let shown ← cString (posted.drop maxTopicLength)
  let stored ← readMessage posted
  let copied ← copyMessage stored
  let printed ← readMessage copied
  return { shown, stored, printed }

/-- Read from the two fields of a Message or copied to them, the strings leave neither. -/
def Message.Inside (message : Message) : Prop :=
  message.topic.length < maxTopicLength ∧ message.contents.length < maxFileLength

def publication (topic : TopicWord) (file : FileContents) : Message :=
  ⟨topic.text, file.bytes.take maxFileLength⟩

def RoundTrips (topic : TopicWord) (file : FileContents) : Prop :=
  ∃ t, trip topic file = some t ∧ t.stored = publication topic file ∧
    t.printed = publication topic file ∧
    t.shown.length < maxFileLength ∧ t.stored.Inside ∧ t.printed.Inside

def laid (message : Message) : Block :=
  zeroed maxTopicLength message.topic ++ zeroed maxFileLength message.contents

section Layout
variable {topic : CString} {bytes : List Char} {message : Message}

private theorem write_topic (h : topic.length < maxTopicLength) :
    writeString newMessage 0 topic =
      some (zeroed maxTopicLength topic ++ zeroed maxFileLength []) := by
  have hlength : (topic ++ [nul]).length ≤ maxTopicLength := by
    rw [List.length_append]
    exact h
  rw [writeString, newMessage, write_zeroed hlength, zeroed_append_nul h]

private theorem write_contents (h : topic.length < maxTopicLength)
    (hbytes : bytes.length ≤ maxFileLength) :
    write (zeroed maxTopicLength topic ++ zeroed maxFileLength []) maxTopicLength bytes =
      some (zeroed maxTopicLength topic ++ zeroed maxFileLength bytes) := by
  have hend := write_append (zeroed maxTopicLength topic) (zeroed maxFileLength []) bytes
  have hwrite := write_zeroed hbytes []
  rw [List.append_nil, List.append_nil] at hwrite
  rw [length_zeroed h.le, hwrite, Option.map_some] at hend
  exact hend

/-- The copy of a Message that fits is laid out like the Message. -/
theorem copyMessage_eq (h : message.Inside) : copyMessage message = some (laid message) := by
  have hlength : (message.contents ++ [nul]).length ≤ maxFileLength := by
    rw [List.length_append]
    exact h.2
  rw [copyMessage, write_topic h.1, Option.bind_some, writeString, write_contents h.1 hlength,
    zeroed_append_nul h.2, laid]

private theorem drop_laid (h : message.Inside) :
    (laid message).drop maxTopicLength = zeroed maxFileLength message.contents := by
  have hlength : (zeroed maxTopicLength message.topic).length = maxTopicLength :=
    length_zeroed h.1.le
  rw [laid]
  exact List.drop_left' hlength

private theorem cString_contents (h : message.Inside) (hfree : nul ∉ message.contents) :
    cString ((laid message).drop maxTopicLength) = some message.contents := by
  rw [drop_laid h]
  simpa using cString_zeroed hfree h.2 []

/-- Two strings are read back from their block. -/
theorem readMessage_laid (h : message.Inside) (htopic : nul ∉ message.topic)
    (hcontents : nul ∉ message.contents) : readMessage (laid message) = some message := by
  rw [readMessage, cString_contents h hcontents, laid, cString_zeroed htopic h.1]
  rfl

end Layout

section RoundTrip
variable {topic : TopicWord} {file : FileContents}

/-- The contents fit just when the file does. -/
theorem length_publication_contents :
    (publication topic file).contents.length < maxFileLength ↔
      file.bytes.length < maxFileLength := by
  rw [publication, List.length_take]
  omega

/-- The publisher lays out what it has read. -/
theorem compose_eq (h : (publication topic file).Inside) :
    compose topic file = some (laid (publication topic file)) := by
  have htopic : topic.text.length < maxTopicLength := h.1
  have hfile : (file.bytes.take maxFileLength).length ≤ maxFileLength := h.2.le
  rw [compose, write_topic htopic, Option.bind_some, write_contents htopic hfile]
  rfl

private theorem trip_eq (h : (publication topic file).Inside) : trip topic file =
    some ⟨(publication topic file).contents, publication topic file, publication topic file⟩ := by
  have htopic : nul ∉ (publication topic file).topic :=
    fun hmem => (topic.visible nul hmem).1 rfl
  have hcontents : nul ∉ (publication topic file).contents :=
    fun hmem => file.free (List.mem_of_mem_take hmem)
  simp only [trip, compose_eq h, cString_contents h hcontents, readMessage_laid h htopic hcontents,
    copyMessage_eq h, Option.bind_eq_bind, Option.bind_some]
  rfl

/-- A field filled to its last byte has no room for the NUL. -/
theorem RoundTrips.inside (h : RoundTrips topic file) : (publication topic file).Inside := by
  obtain ⟨t, -, hstored, -, -, hinside, -⟩ := h
  exact hstored ▸ hinside

end RoundTrip

/-- The publication survives the way just when both texts are shorter than their fields. -/
theorem round_trips_iff (topic : TopicWord) (file : FileContents) : RoundTrips topic file ↔
    topic.text.length < maxTopicLength ∧ file.bytes.length < maxFileLength := by
  constructor
  · intro h
    exact ⟨h.inside.1, length_publication_contents.mp h.inside.2⟩
  · rintro ⟨htopic, hfile⟩
    have hinside : (publication topic file).Inside :=
      ⟨htopic, length_publication_contents.mpr hfile⟩
    exact ⟨_, trip_eq hinside, rfl, rfl, hinside.2, hinside, hinside⟩

/-- A file of 16384 bytes leaves no room for the NUL that ends the contents. -/
theorem full_file_fails : ¬ ∀ topic file, RoundTrips topic file := by
  intro h
  have hfree : nul ∉ List.replicate maxFileLength 'x' :=
    fun hmem => absurd (List.eq_of_mem_replicate hmem) (by decide)
  have hinside := (h ⟨['t'], by simp, by simp [nul, CString.isSpace]⟩ ⟨_, hfree⟩).inside
  have hlength := length_publication_contents.mp hinside.2
  rw [List.length_replicate] at hlength
  exact lt_irrefl _ hlength

end NetworkProtocol.Broker
