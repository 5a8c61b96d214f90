import NetworkProtocol.Library.CString
import NetworkProtocol.Library.CyclicBuffer
import NetworkProtocol.Library.Runs

/-! The chat server's message ring under whole calls. The index arithmetic is the code's:
both indices start at -1, rear is inclusive and the full test does not wrap around. -/
namespace NetworkProtocol.Chat
open CyclicBuffer

structure Message where
  userId : Int
  message : CString
  deriving DecidableEq, Repr

abbrev maxMessageQueueSize : Int := 100

/-- messages is the malloc'ed block; reading it elsewhere would be out of bounds. -/
structure Ring where
  messages : Int → Message
  front : Int := -1
  rear : Int := -1

def isFull (r : Ring) : Bool := r.front = r.rear + 1

def isEmpty (r : Ring) : Bool := r.rear = r.front

/-- enqueue; none where the code returns -1. -/
def enqueue (mes : Message) (r : Ring) : Option Ring :=
  if isFull r then none
  else
    let front := if r.front = -1 then 0 else r.front
    let rear := (r.rear + 1).tmod maxMessageQueueSize
    some { messages := Function.update r.messages rear mes, front := front, rear := rear }

/-- dequeue; the returned pointer is the index of its slot, none stands for NULL. -/
def dequeue (r : Ring) : Option (Int × Ring) :=
  if isEmpty r then none
  else some (r.front, { r with front := (r.front + 1).tmod maxMessageQueueSize })

def occupied (r : Ring) : Nat := ((r.rear - r.front) % maxMessageQueueSize).toNat + 1

/-- The slots front..rear, cyclically and inclusively; none before the first enqueue. -/
def stored (r : Ring) : List Message :=
  if r.front = -1 then []
  else (List.range (occupied r)).map
    (fun i : Nat => r.messages ((r.front + i) % maxMessageQueueSize))

inductive Call where
  | enqueue (mes : Message)
  | dequeue
  deriving DecidableEq, Repr

/-- The ring with the history of its calls: what was accepted and handed out, the slot
indices used, and how often an enqueue was accepted at front = 0, rear = 99. -/
structure Log where
  ring : Ring
  accepted : List Message := []
  dequeued : List Message := []
  used : List Int := []
  overruns : Nat := 0

def AtEnd (r : Ring) : Prop := r.front = 0 ∧ r.rear = 99

instance (r : Ring) : Decidable (AtEnd r) := inferInstanceAs (Decidable (_ ∧ _))

def call (l : Log) : Call → Log
  | .enqueue mes =>
    match enqueue mes l.ring with
    | none => l
    | some ring =>
      { l with
        ring := ring
        accepted := l.accepted ++ [mes]
        used := l.used ++ [ring.rear]
        overruns := if AtEnd l.ring then l.overruns + 1 else l.overruns }
  | .dequeue =>
    match dequeue l.ring with
    | none => l
    | some (slot, ring) =>
      { l with
        ring := ring
        dequeued := l.dequeued ++ [l.ring.messages slot]
        used := l.used ++ [slot] }

def start (memory : Int → Message) : Log := { ring := { messages := memory } }

def exec (memory : Int → Message) (calls : List Call) : Log := calls.foldl call (start memory)

end NetworkProtocol.Chat
