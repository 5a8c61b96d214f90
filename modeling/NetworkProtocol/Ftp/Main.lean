import NetworkProtocol.Library.Runs
import NetworkProtocol.Ftp.Served

/-! The FTP server's main: one connection after another, each served until recv reports an
error, all over the same globals. -/
namespace NetworkProtocol.Ftp

structure Exchange where
  command : Command
  body : CString
  status : Int
  deriving DecidableEq, Repr

/-- sent is what the present client has been sent. transcript is history: the exchanges of
the present connection; past holds those of the connections that are over. -/
structure Main where
  server : Server := {}
  connected : Bool := false
  sent : List Message := []
  transcript : List Exchange := []
  past : List (List Exchange) := []

inductive Event where
  | accept
  | request (env : Environment) (req : Message)
  | recvError

namespace Main

def accept (m : Main) : Main :=
  { m with connected := true, sent := [newMessage 220 "Server ready".toList] }

def reply (m : Main) (req : Message) (o : Outcome) : Main :=
  { m with
    server := o.server
    sent := m.sent ++ o.sent ++ [newMessage o.status o.responseMessage]
    transcript := m.transcript ++ [⟨interpret req.command, req.body, o.status⟩] }

def recvError (m : Main) : Main :=
  { m with connected := false, transcript := [], past := m.past ++ [m.transcript] }

end Main

/-- A peer that has closed makes recv return 0, which is served as a request of zeros. -/
def step (m : Main) : Event → Option Main
  | .accept => if m.connected then none else some m.accept
  | .request env req =>
    if m.connected then (execute env req m.server).map (m.reply req) else none
  | .recvError => if m.connected then some m.recvError else none

/-- What each event needs and does. -/
theorem step_cases {m m' : Main} {e : Event} (h : step m e = some m') :
    (e = .accept ∧ m.connected = false ∧ m' = m.accept) ∨
    (∃ env req o, e = .request env req ∧ m.connected = true ∧
      execute env req m.server = some o ∧ m' = m.reply req o) ∨
    (e = .recvError ∧ m.connected = true ∧ m' = m.recvError) := by
  cases e with
  | accept =>
    obtain ⟨hoff, rfl⟩ : m.connected = false ∧ m.accept = m' := by simpa [step] using h
    exact .inl ⟨rfl, hoff, rfl⟩
  | request env req =>
    obtain ⟨hon, o, ho, rfl⟩ : m.connected = true ∧
        ∃ o, execute env req m.server = some o ∧ m.reply req o = m' := by
      simpa [step] using h
    exact .inr (.inl ⟨env, req, o, rfl, hon, ho, rfl⟩)
  | recvError =>
    obtain ⟨hon, rfl⟩ : m.connected = true ∧ m.recvError = m' := by simpa [step] using h
    exact .inr (.inr ⟨rfl, hon, rfl⟩)

end NetworkProtocol.Ftp
