import NetworkProtocol.Library.Runs
import NetworkProtocol.Ftp.Served
import NetworkProtocol.Ftp.Client

/-! The FTP client and the FTP server over one control connection that delivers each message
whole and in order. Replies carry, as history, which request they answer. -/
namespace NetworkProtocol.Ftp
open CString

/-- A reply in flight, the number of the request it answers (0 for the greeting), and how many
replies to that request came before it. -/
structure Reply where
  message : Message
  request : Nat
  position : Nat
  deriving DecidableEq, Repr

/-- The server's main: at recv, with execute's return value still to be sent, or gone. A true
started says that execute has opened a transfer. -/
inductive Serving where
  | receiving (s : Server)
  | answering (o : Outcome) (started : Bool)
  | ended

/-- What callback was called with, and how many requests the client had sent by then. -/
structure Dispatch where
  reply : Reply
  sentCommand : Command
  asked : Nat
  deriving DecidableEq, Repr

def greeting : Reply := ⟨newMessage 220 "Server ready".toList, 0, 0⟩

/-- From asked on, history: the requests sent, the number of those served, all replies sent,
whether each request answered to its end had started a transfer, the client's count of requests
at each reply it consumed, and the replies it dispatched on. -/
structure System where
  client : Client := {}
  serving : Serving := .receiving {}
  requests : List Message := []
  replies : List Reply := [greeting]
  asked : List Message := []
  served : Nat := 0
  sent : List Reply := [greeting]
  replied : List Bool := []
  consumed : List Nat := []
  dispatched : List Dispatch := []

/-- The steps of the two programs; a data thread may end the process it belongs to. A join
always returns: joinStatus is what the server's one leaves in status. -/
inductive Action where
  | ask (userInput : CString)
  | serve (env : Environment) (joinStatus : Int)
  | reply
  | receive
  | create (createResult : Nat) (createHandle : Thread)
  | join
  | serverExits
  | clientExits

def startsTransfer (env : Environment) (req : Message) (s : Server) : Bool :=
  s.authStatus = .modeSelected &&
    match interpret req.command with
    | .nlst => true
    | .retr =>
      validDirectoryEntry env s.relativePath (tokens whitespace req.body).head? = some true
    | _ => false

namespace System
variable (s : System)

def ask (command : Command) (req : Message) : System :=
  { s with
    client := s.client.ask command req
    requests := s.requests ++ [req]
    asked := s.asked ++ [req] }

def tagged (o : Outcome) : List Reply :=
  o.sent.mapIdx (fun position message => ⟨message, s.served + 1, position⟩)

def serve (rest : List Message) (o : Outcome) (started : Bool) : System :=
  { s with
    serving := .answering o started
    requests := rest
    served := s.served + 1
    replies := s.replies ++ s.tagged o
    sent := s.sent ++ s.tagged o }

def final (o : Outcome) : Reply :=
  ⟨newMessage o.status o.responseMessage, s.served, o.sent.length⟩

def reply (o : Outcome) (started : Bool) : System :=
  { s with
    serving := .receiving o.server
    replies := s.replies ++ [s.final o]
    sent := s.sent ++ [s.final o]
    replied := s.replied ++ [started] }

def goTo (phase : Phase) : System := { s with client := { s.client with phase := phase } }

/-- recv at the head of main's loop, and callback on what came. -/
def dispatch (r : Reply) (rest : List Reply) : System :=
  { s.goTo (callback s.client.sentCommand r.message) with
    replies := rest
    consumed := s.consumed ++ [s.asked.length]
    dispatched := s.dispatched ++ [⟨r, s.client.sentCommand, s.asked.length⟩] }

def finish (rest : List Reply) : System :=
  { s.goTo .prompting with
    replies := rest
    consumed := s.consumed ++ [s.asked.length] }

end System

/-- recv from a server that is gone returns 0, and callback runs on a message of zeros. -/
def System.receive (s : System) : Option System :=
  match s.client.phase, s.replies, s.serving with
  | .receiving, r :: rest, _ => some (s.dispatch r rest)
  | .receiving, [], .ended => some (s.goTo (callback s.client.sentCommand {}))
  | .finishing, _ :: rest, _ => some (s.finish rest)
  | .finishing, [], .ended => some (s.goTo .prompting)
  | _, _, _ => none

def System.step (s : System) : Action → Option System
  | .ask userInput =>
    match s.client.phase, request userInput with
    | .prompting, some (command, req) => some (s.ask command req)
    | .prompting, none => some s
    | _, _ => none
  | .serve env joinStatus =>
    match s.serving, s.requests with
    | .receiving server, req :: rest =>
      let env' := { env with joinStatus := some joinStatus }
      match execute env' req server with
      | none => some { s with serving := .ended, requests := rest }
      | some o => some (s.serve rest o (startsTransfer env' req server))
    | _, _ => none
  | .reply =>
    match s.serving with
    | .answering o started => some (s.reply o started)
    | _ => none
  | .receive => s.receive
  | .create createResult createHandle =>
    match s.client.phase with
    | .creating _ => some { s with client := s.client.create createResult createHandle }
    | _ => none
  | .join =>
    match s.client.phase with
    | .joining => some { s with client := s.client.join }
    | _ => none
  | .serverExits => some { s with serving := .ended }
  | .clientExits => some (s.goTo .exited)

inductive Stepped (s : System) : Action → System → Prop where
  | asked (userInput : CString) (command : Command) (req : Message)
      (phase : s.client.phase = .prompting) (line : request userInput = some (command, req)) :
      Stepped s (.ask userInput) (s.ask command req)
  | askedAgain (userInput : CString) (phase : s.client.phase = .prompting) :
      Stepped s (.ask userInput) s
  | served (env : Environment) (joinStatus : Int) (server : Server) (req : Message)
      (rest : List Message) (o : Outcome) (serving : s.serving = .receiving server)
      (requests : s.requests = req :: rest)
      (outcome : Served { env with joinStatus := some joinStatus } req server o) :
      Stepped s (.serve env joinStatus)
        (s.serve rest o (startsTransfer { env with joinStatus := some joinStatus } req server))
  | broken (env : Environment) (joinStatus : Int) (server : Server) (req : Message)
      (rest : List Message) (serving : s.serving = .receiving server)
      (requests : s.requests = req :: rest)
      (outcome : execute { env with joinStatus := some joinStatus } req server = none) :
      Stepped s (.serve env joinStatus) { s with serving := .ended, requests := rest }
  | replied (o : Outcome) (started : Bool) (serving : s.serving = .answering o started) :
      Stepped s .reply (s.reply o started)
  | dispatched (r : Reply) (rest : List Reply) (phase : s.client.phase = .receiving)
      (replies : s.replies = r :: rest) : Stepped s .receive (s.dispatch r rest)
  | finished (r : Reply) (rest : List Reply) (phase : s.client.phase = .finishing)
      (replies : s.replies = r :: rest) : Stepped s .receive (s.finish rest)
  | dispatchedZeros (phase : s.client.phase = .receiving) (replies : s.replies = [])
      (serving : s.serving = .ended) :
      Stepped s .receive (s.goTo (callback s.client.sentCommand {}))
  | finishedNothing (phase : s.client.phase = .finishing) (replies : s.replies = [])
      (serving : s.serving = .ended) : Stepped s .receive (s.goTo .prompting)
  | created (createResult : Nat) (createHandle : Thread) (res : Message)
      (phase : s.client.phase = .creating res) :
      Stepped s (.create createResult createHandle)
        { s with client := s.client.create createResult createHandle }
  | joined (phase : s.client.phase = .joining) :
      Stepped s .join { s with client := s.client.join }
  | serverExited : Stepped s .serverExits { s with serving := .ended }
  | clientExited : Stepped s .clientExits (s.goTo .exited)

section Steps
variable {s s' : System} {a : Action}

private theorem stepped_receive (h : s.receive = some s') : Stepped s .receive s' := by
  rw [System.receive] at h
  split at h
  · rename_i phase replies
    exact Option.some.inj h ▸ .dispatched _ _ phase replies
  · rename_i phase replies serving
    exact Option.some.inj h ▸ .dispatchedZeros phase replies serving
  · rename_i phase replies
    exact Option.some.inj h ▸ .finished _ _ phase replies
  · rename_i phase replies serving
    exact Option.some.inj h ▸ .finishedNothing phase replies serving
  · cases h

/-- Every step is one of these. -/
theorem stepped (h : s.step a = some s') : Stepped s a s' := by
  cases a with
  | ask userInput =>
    simp only [System.step] at h
    split at h
    · rename_i phase line
      exact Option.some.inj h ▸ .asked userInput _ _ phase line
    · rename_i phase line
      exact Option.some.inj h ▸ .askedAgain userInput phase
    · cases h
  | serve env joinStatus =>
    simp only [System.step] at h
    split at h
    · rename_i server req rest serving requests
      split at h
      · rename_i hexec
        exact Option.some.inj h ▸ .broken env joinStatus server req rest serving requests hexec
      · rename_i o hexec
        exact Option.some.inj h ▸ .served env joinStatus server req rest o serving requests
          (Ftp.served hexec)
    · cases h
  | reply =>
    simp only [System.step] at h
    split at h
    · rename_i o started serving
      exact Option.some.inj h ▸ .replied o started serving
    · cases h
  | receive => exact stepped_receive h
  | create createResult createHandle =>
    simp only [System.step] at h
    split at h
    · rename_i res phase
      exact Option.some.inj h ▸ .created createResult createHandle res phase
    · cases h
  | join =>
    simp only [System.step] at h
    split at h
    · rename_i phase
      exact Option.some.inj h ▸ .joined phase
    · cases h
  | serverExits => exact Option.some.inj h ▸ .serverExited
  | clientExits => exact Option.some.inj h ▸ .clientExited

end Steps

end NetworkProtocol.Ftp
