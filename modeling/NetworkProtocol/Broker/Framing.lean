import NetworkProtocol.Library.ByteStream
import NetworkProtocol.Library.CMemory
import NetworkProtocol.Broker.Model

/-! The three places that take a fixed-size record off a connection with one call of recv:
handle_publisher, handle_receiver, and the subscriber's receiver_routine. -/
namespace NetworkProtocol.Broker
open CMemory ByteStream

def maxTopicLength : Nat := 1024
def maxFileLength : Nat := 16384

def messageSize : Nat := maxTopicLength + maxFileLength

/-- message->topic and message->contents as strings; none when one is not ended by a NUL before
the Message ends. -/
def readMessage (block : Block) : Option Message :=
  (cString block).bind fun topic =>
    (cString (block.drop maxTopicLength)).map fun contents => ⟨topic, contents⟩

abbrev MessageRecord := Record Char messageSize
/-- One connection of a publisher: the Message it sends before it closes, and the number of
bytes of it that the one recv of handle_publisher returns. -/
structure Post where
  record : MessageRecord
  k : Nat
  pos : 0 < k
  le : k ≤ messageSize

/-- handle_publisher: newMessage, recv, register_message. -/
def Post.register (post : Post) : Option Action :=
  (readMessage (zeroed messageSize (post.record.bytes.take post.k))).map .publish

/-- handle_receiver, one turn: memset, recv, the update for the topic. -/
def receiveTopic (id : UserId) (bytes : List Char) : Option Action :=
  (cString (zeroed maxTopicLength bytes)).map (.toggle id)

/-- receiver_routine, one turn: newMessage, recv, printf. -/
def printMessage (bytes : List Char) : Option Message := readMessage (zeroed messageSize bytes)

abbrev TopicLoop := Loop Char (Option Action) maxTopicLength
def topicStep (id : UserId) : TopicLoop → Event Char maxTopicLength → Option TopicLoop :=
  Loop.step (receiveTopic id)

section Reading
variable {block : Block}

end Reading

section Posts
variable (post : Post)

end Posts

end NetworkProtocol.Broker
