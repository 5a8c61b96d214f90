import NetworkProtocol.Ftp.Server

/-! The FTP client: the request main makes of a line, what callback does about a reply, and the
port that dataThreadRoutine reads in the text it is given. -/
namespace NetworkProtocol.Ftp
open CString

def extractClass (status : Int) : Int := status.tdiv 100

/-- Where main is: at recv, at pthread_create with the reply callback was given, at
pthread_join, at callback's own recv, at the prompt, or gone. -/
inductive Phase where
  | receiving
  | creating (res : Message)
  | joining
  | finishing
  | prompting
  | exited
  deriving DecidableEq, Repr

/-- The globals, with the client's threads as the system counts them. -/
structure Client where
  phase : Phase := .receiving
  sentCommand : Command := .user
  fileName : CString := []
  dataThread : Thread := 0
  unjoined : List Thread := []
  created : Nat := 0

/-- The command and the request a line makes; main asks again when its first word is none. The
word is sent as interpret has left it, in lower case. -/
def request (userInput : CString) : Option (Command × Message) :=
  match tokens whitespace userInput with
  | [] => none
  | inputCommand :: left =>
    if interpret inputCommand = .unknown then none
    else
      some (interpret inputCommand,
        { command := toLowercase inputCommand, body := left.head?.getD [] })

/-- Where callback leads; before .joining it has signalled. -/
def callback (sentCommand : Command) (responseMessage : Message) : Phase :=
  match sentCommand with
  | .user | .pass | .cwd | .type => .prompting
  | .nlst | .retr => if extractClass responseMessage.status = 1 then .joining else .prompting
  | .quit => .exited
  | .pasv | .port => .creating responseMessage
  | .unknown => .prompting

/-- The address loop of PASV's data thread; none where it returns NULL. -/
def dataPortLoop : List CString → Nat → Server.Address → Option Int
  | [], _, address => some address.port
  | pch :: rest, idx, address =>
    if 3 < pch.length then none else dataPortLoop rest (idx + 1) (address.add idx (atoi pch))

/-- dataPort as dataThreadRoutine finds it in the reply; the outer none is atoi of NULL, or a
port never set. Without an address part strtok goes on at the end of the text. -/
def dataPort (sentCommand : Command) (addressInformation : CString) : Option (Option Int) :=
  match sentCommand with
  | .pasv =>
    let addressPart := ((tokens ['|'] addressInformation)[1]?).getD []
    some (dataPortLoop (tokens (',' :: whitespace) addressPart) 0 {})
  | .port => ((tokens [':'] addressInformation)[1]?).map (fun portPart => some (atoi portPart))
  | _ => none

namespace Client

def ask (c : Client) (command : Command) (req : Message) : Client :=
  { c with
    phase := .receiving
    sentCommand := command
    fileName := if command = .retr then req.body else c.fileName }

/-- pthread_create, whose failure is looked for under -1 alone; handle is what a failed one
leaves in dataThread. -/
def create (c : Client) (createResult : Nat) (createHandle : Thread) : Client :=
  if createResult = 0 then
    { c with
      phase := .prompting
      dataThread := c.created + 1
      unjoined := c.unjoined ++ [c.created + 1]
      created := c.created + 1 }
  else { c with phase := .prompting, dataThread := createHandle }

/-- pthread_join has returned; what is left is the final reply. -/
def join (c : Client) : Client :=
  { c with phase := .finishing, unjoined := c.unjoined.filter (· ≠ c.dataThread) }

end Client

end NetworkProtocol.Ftp
