import NetworkProtocol.Library.CString

/-! The FTP server's execute over the globals it reads and writes, command by command. A call
that exits the program, never returns or has no defined behaviour is none. -/
namespace NetworkProtocol.Ftp
open CString

inductive Command where
  | user | pass | nlst | pasv | retr | cwd | quit | type | port | unknown
  deriving DecidableEq, Repr

inductive AuthorizationStatus where
  | notLoggedIn | needPassword | loggedIn | modeSelected
  deriving DecidableEq, Repr

def userId : CString := "auaicn".toList

def userPassword : CString := "thislove1!".toList

def maxBufferSize : Nat := 1024

def maxLenCommand : Nat := 5

structure Message where
  status : Int := 0
  command : CString := []
  body : CString := []
  deriving DecidableEq, Repr

def newMessage (status : Int) (body : CString) : Message := { status := status, body := body }

abbrev Thread := Nat

structure DataThread where
  handle : Thread
  port : Int
  deriving DecidableEq, Repr

/-- The globals, and the system's table of the data threads created and not yet joined. -/
structure Server where
  dataCommand : Command := .unknown
  authStatus : AuthorizationStatus := .notLoggedIn
  asciiMode : Bool := true
  dataThread : Thread := 0
  relativePath : CString := ['.', '/']
  fileName : Option CString := none
  portIdx : Nat := 0
  unjoined : List DataThread := []
  created : Nat := 0

/-- What the system answers while one request is served. -/
structure Environment where
  /-- the names in a directory; none where it cannot be opened -/
  opendir : CString → Option (List CString)
  /-- the memory behind ports[] -/
  beyondPorts : Nat → Int
  /-- 0 or a positive error number -/
  createResult : Nat
  /-- what a failed pthread_create leaves in its first argument -/
  createHandle : Thread
  /-- what the join leaves in status; none where it never returns -/
  joinStatus : Option Int

/-- What execute does: the new globals, the messages it sends itself, its return value and
the reply text. -/
structure Outcome where
  server : Server
  sent : List Message := []
  status : Int
  responseMessage : CString

def whitespace : List Char := [' ', '\t', '\n', '\x0b', '\x0c', '\r']

def ports : List Int :=
  [1025, 1026, 1027, 1028, 1197, 1235, 1236, 12347, 12348, 12342, 4321, 2311, 1239, 1184, 1216,
    1193, 1143, 1266]

def interpret (inputCommand : CString) : Command :=
  let command := toLowercase inputCommand
  if command = "user".toList then .user
  else if command = "pass".toList then .pass
  else if command = "nlst".toList then .nlst
  else if command = "pasv".toList then .pasv
  else if command = "retr".toList then .retr
  else if command = "cwd".toList then .cwd
  else if command = "quit".toList then .quit
  else if command = "type".toList then .type
  else if command = "port".toList then .port
  else .unknown

/-- A second interpret finds what the first one has found. -/
theorem interpret_toLowercase (w : CString) : interpret (toLowercase w) = interpret w := by
  rw [interpret, interpret, toLowercase_toLowercase]

section Directory
variable (env : Environment)

/-- strcmp is used as if it answered equality; of NULL it has no behaviour. -/
def validDirectoryEntry (relativePath : CString) (entryToTest : Option CString) : Option Bool :=
  match env.opendir relativePath, entryToTest with
  | none, _ => none
  | some entries, some name => some (entries.any (· ≠ name))
  | some [], none => some false
  | some (_ :: _), none => none

/-- The inner none is the returned NULL. -/
def changeWorkingDirectory (relativePath body : CString) : Option (Option CString) :=
  let dirName := (tokens whitespace body).head?
  match validDirectoryEntry env relativePath dirName, dirName with
  | none, _ => none
  | some true, some name => some (some (relativePath ++ name))
  | some _, _ => some none

end Directory

namespace Server

def answer (s : Server) (status : Int) (responseMessage : String) : Outcome :=
  { server := s, status := status, responseMessage := responseMessage.toList }

def user (s : Server) (body : CString) : Outcome :=
  if s.authStatus = .notLoggedIn then
    if body = userId then
      { server := { s with authStatus := .needPassword }
        status := 331
        responseMessage := "Password required for \"".toList ++ userId ++ ['"'] }
    else answer { s with authStatus := .notLoggedIn } 400 "wrong username. try again"
  else s.answer 400 "user id already given"

def pass (s : Server) (body : CString) : Outcome :=
  match s.authStatus with
  | .notLoggedIn => s.answer 400 "enter user name"
  | .needPassword =>
    if body = userPassword then answer { s with authStatus := .loggedIn } 230 "Logged on"
    else s.answer 400 "wrong password. try again"
  | .loggedIn | .modeSelected => s.answer 200 "already logined"

/-- pthread_join removes the thread that dataThread names, if there is one. -/
def join (s : Server) : Server :=
  { s with unjoined := s.unjoined.filter (·.handle ≠ s.dataThread) }

/-- From dataCommand on, NLST and RETR are the same: signal, 150, and the join, whose status
decides. The text of the 150, what responseMessage still holds, is left out. -/
def transfer (env : Environment) (command : Command) (subject : CString) (s : Server) :
    Option Outcome :=
  env.joinStatus.map (fun status =>
    let s' := join { s with dataCommand := command }
    if status = 0 then
      { server := s'
        sent := [newMessage 150 []]
        status := 500
        responseMessage := "Internal Server Error\n".toList }
    else
      { server := { s' with authStatus := .loggedIn }
        sent := [newMessage 150 []]
        status := 226
        responseMessage := "Successfully transferred ".toList ++ subject ++ ['\n'] })

def selectModeFirst (s : Server) : Outcome :=
  s.answer 401 "please select ftp mode first (active, passive)"

def nlst (env : Environment) (s : Server) : Option Outcome :=
  if s.authStatus ≠ .modeSelected then some s.selectModeFirst
  else transfer env .nlst s.relativePath s

/-- %s of a NULL file name has no behaviour. -/
def retr (env : Environment) (s : Server) (body : CString) : Option Outcome :=
  if s.authStatus ≠ .modeSelected then some s.selectModeFirst
  else
    let s' := { s with fileName := (tokens whitespace body).head? }
    match validDirectoryEntry env s.relativePath s'.fileName, s'.fileName with
    | some false, some name => some
      { server := s', status := 404, responseMessage := "failed opening ".toList ++ name }
    | some true, some name => transfer env .retr name s'
    | _, _ => none

def loginFirst (s : Server) : Outcome :=
  s.answer 401 "operation not authroized. Please login first."

def cwd (env : Environment) (s : Server) (body : CString) : Option Outcome :=
  if s.authStatus ≠ .loggedIn then some s.loginFirst
  else
    match changeWorkingDirectory env s.relativePath body with
    | none => none
    | some none => some
      { server := s
        status := 500
        responseMessage := "changing directory failed. current working directory is \"".toList ++
          s.relativePath ++ ['"'] }
    | some (some relativePath) => some
      { server := { s with relativePath := relativePath }
        status := 226
        responseMessage := "changed current working directory to \"".toList ++ relativePath ++
          ['"'] }

def quit (s : Server) : Outcome := answer { s with authStatus := .notLoggedIn } 221 "Goodbye"

def type (s : Server) (body : CString) : Outcome :=
  if s.authStatus ≠ .loggedIn then s.loginFirst
  else
    match body with
    | [c] =>
      if c.toLower = 'i' then
        { server := { s with asciiMode := false }
          status := 200
          responseMessage := "Type set to ".toList ++ body ++ " (Binary)".toList }
      else if c.toLower = 'a' then
        { server := { s with asciiMode := true }
          status := 200
          responseMessage := "Type set to ".toList ++ body ++ " (Ascii)".toList }
      else
        { server := s
          status := 401
          responseMessage := "invalid file transfer type \"".toList ++ body ++ ['"'] }
    | _ =>
      { server := s
        status := 401
        responseMessage := "type must be a single character \"".toList ++ body ++
          "\" is not a single character.".toList }

def create (env : Environment) (port : Int) (s : Server) : Server :=
  if env.createResult = 0 then
    { s with
      dataThread := s.created + 1
      unjoined := s.unjoined ++ [⟨s.created + 1, port⟩]
      created := s.created + 1 }
  else { s with dataThread := env.createHandle }

/-- The common end of PASV and PORT; a failure is looked for under -1 alone. -/
def selectMode (env : Environment) (port status : Int) (text : CString) (s : Server) : Outcome :=
  if (env.createResult : Int) = -1 then (s.create env port).answer 500 "Internal Server Error"
  else
    { server := { s.create env port with authStatus := .modeSelected }
      status := status
      responseMessage := text }

def nextPort (env : Environment) (s : Server) : Int :=
  ports.getD s.portIdx (env.beyondPorts s.portIdx)

def pasv (env : Environment) (s : Server) : Outcome :=
  if s.authStatus ≠ .loggedIn then s.loginFirst
  else
    let port := s.nextPort env
    let text := "Entering Passive Mode | 192,168,0,1,".toList ++ decimal (port.tdiv 256) ++
      [','] ++ decimal (port.tmod 256)
    selectMode env port 227 text { s with portIdx := s.portIdx + 1 }

def wrap (n : Int) : Int := n.bmod 4294967296

/-- The accumulators of PORT's token loop. -/
structure Address where
  ipAdress : Int := 0
  port : Int := 0
  deriving DecidableEq, Repr

def shift (n value : Int) : Int := wrap (wrap (n * 256) + value)

def Address.add (address : Address) (idx : Nat) (value : Int) : Address :=
  if value = 0 then address
  else if idx < 4 then { address with ipAdress := shift address.ipAdress value }
  else { address with port := shift address.port value }

/-- The token loop of PORT; none when a token is too long. -/
def parseAddress : List CString → Nat → Address → Option Address
  | [], _, address => some address
  | pch :: rest, idx, address =>
    if 3 < pch.length then none
    else parseAddress rest (idx + 1) (address.add idx (atoi pch))

def requested (body : CString) : Option Address :=
  parseAddress (tokens (',' :: whitespace) body) 0 {}

def port (env : Environment) (s : Server) (body : CString) : Outcome :=
  if s.authStatus ≠ .loggedIn then s.loginFirst
  else
    match requested body with
    | none => s.answer 400 "invalid port number encountered. Try Agiain"
    | some address =>
      let text := "Port command successful :".toList ++ decimal address.port
      selectMode env address.port 200 text s

end Server

open Server in
def execute (env : Environment) (req : Message) (s : Server) : Option Outcome :=
  match interpret req.command with
  | .user => some (s.user req.body)
  | .pass => some (s.pass req.body)
  | .nlst => s.nlst env
  | .retr => s.retr env req.body
  | .cwd => s.cwd env req.body
  | .quit => some s.quit
  | .type => some (s.type req.body)
  | .pasv => some (s.pasv env)
  | .port => some (s.port env req.body)
  | .unknown => some (s.answer 404 "unknown command")

end NetworkProtocol.Ftp
