import NetworkProtocol.Ftp.DataPorts
import NetworkProtocol.Ftp.FileTransfer
import NetworkProtocol.Ftp.System

/-! Client and server with the data connection between them: two mains, the data threads of each,
and the sockets that the threads of one side share. -/
namespace NetworkProtocol.Ftp
open CString CMemory

/-- What a data thread of the client does next on its way to the wait. -/
inductive ClientStage where
  | parse (addressInformation : CString)
  | socket (dataPort : Int)
  | address (dataPort : Int)
  deriving DecidableEq, Repr

/-- The client's data threads before, in and past the wait, and the globals they share: whether
the socket of data_server_fd is connected, and the port of data_server_addr. -/
structure ClientThreads where
  opening : List (Thread × ClientStage) := []
  waiting : List Thread := []
  active : Option Thread := none
  connected : Bool := false
  dataServerAddr : Nat := 0

namespace ClientThreads

def all (c : ClientThreads) : List Thread := c.opening.map Prod.fst ++ c.waiting ++ c.active.toList

/-- dataPort as the thread finds it; under any other command it is never set. -/
def portRead (sentCommand : Command) (addressInformation : CString) (unset : Int) :
    Option (Option Int) :=
  if sentCommand = .pasv ∨ sentCommand = .port then dataPort sentCommand addressInformation
  else some (some unset)

/-- The next step of the i-th thread on its way. One that reads no address is over. -/
def setUp (c : ClientThreads) (sentCommand : Command) (i : Nat) (unset : Int) :
    Option ClientThreads :=
  match c.opening[i]? with
  | none => none
  | some (thread, .parse addressInformation) =>
    (portRead sentCommand addressInformation unset).map fun
      | none => { c with opening := c.opening.eraseIdx i }
      | some port => { c with opening := c.opening.set i (thread, .socket port) }
  | some (thread, .socket port) =>
    some { c with opening := c.opening.set i (thread, .address port), connected := false }
  | some (thread, .address port) =>
    some { c with
      opening := c.opening.eraseIdx i
      waiting := c.waiting ++ [thread]
      dataServerAddr := tcpPort port }

/-- The i-th of the waiting threads wakes up, and connects whatever socket there is. -/
def connect (c : ClientThreads) (i : Nat) : Option ClientThreads :=
  c.waiting[i]?.map fun thread =>
    { c with waiting := c.waiting.eraseIdx i, active := some thread, connected := true }

end ClientThreads

/-- What the server's data thread finds: files, directories, and the block malloc gives it. -/
structure Disk where
  fopen : CString → Option (List Char)
  opendir : CString → Option (List CString)
  serverData : HeapBlock

/-- What the client's data thread leaves behind: names on the screen, or a file. -/
inductive Retrieved where
  | listing (names : List CString)
  | copy (name : CString) (bytes : List Char)
  deriving DecidableEq, Repr

def Retrieved.Empty : Retrieved → Prop
  | .listing names => names = []
  | .copy _ bytes => bytes = []

/-- The body of the one message the server's data thread sends. A listing of what cannot be
opened is empty. -/
def payload (disk : Disk) (s : Server) : Option Block :=
  match s.dataCommand with
  | .retr => (getStreamFromFile disk.fopen disk.serverData s).bind newBody
  | .nlst => (getDirectoryEntries ((disk.opendir s.relativePath).getD [])).bind newBody
  | _ => none

def copySuffix : CString := "fromServer".toList

/-- Where the data connection of the transfer now served stands; before it is made, with the data
threads that the server's main has signalled and joins. -/
inductive Link where
  | waiting (threads : List DataThread)
  | connected
  | sent (body : Block)
  | done

def Link.Busy : Link → Prop
  | .connected | .sent _ => True
  | _ => False

/-- retrieved is history: what the client's data threads have left behind. -/
structure Transfer where
  control : System := {}
  sockets : DataSockets := {}
  threads : ClientThreads := {}
  link : Link := .waiting []
  retrieved : List Retrieved := []

/-- Steps of the two mains, and of the data threads: the server's and the client's on their way to
the wait, connect with accept, the server's send, the client's recv with what it does then. -/
inductive Transfer.Event where
  | control (a : Action)
  | setUp (i free : Nat)
  | prepare (i : Nat) (unset : Int)
  | connect (i : Nat)
  | send (disk : Disk)
  | take

/-- The user types a line of C characters; scanf takes no more than 1023 of them. -/
def Transfer.Event.Typed : Transfer.Event → Prop
  | .control (.ask userInput) => nul ∉ userInput ∧ userInput.length < maxBufferSize
  | _ => True

def awaited (env : Environment) (req : Message) (server : Server) : List DataThread :=
  if startsTransfer env req server then
    server.unjoined.filter (·.handle = server.dataThread)
  else []

def saved (writable : CString → Bool) (name : CString) (bytes : List Char) : List Retrieved :=
  if writable name then [.copy name bytes] else []

def took (writable : CString → Bool) (sentCommand : Command) (fileName : CString) (body : Block) :
    Option (List Retrieved) :=
  match sentCommand with
  | .retr => do
    let block ← strcat (zeroed maxRelativePathLength fileName) copySuffix
    let name ← cString block
    (savedCopy body).map (saved writable name)
  | .nlst => (printedEntries body).map ([.listing ·])
  | _ => some []

namespace Transfer
variable (writable : CString → Bool) (t : Transfer)

/-- A main that has joined a data thread goes on when the thread is over. -/
def holds : Action → Bool
  | .reply =>
    match t.link with
    | .waiting threads => threads ≠ []
    | .connected => true
    | _ => false
  | .join => t.control.client.dataThread ∈ t.threads.all
  | _ => false

def linkAfter : Action → Link
  | .serve env joinStatus =>
    match t.control.serving, t.control.requests with
    | .receiving server, req :: _ =>
      .waiting (awaited { env with joinStatus := some joinStatus } req server)
    | _, _ => t.link
  | _ => t.link

def socketsAfter : Action → DataSockets
  | .serve env joinStatus =>
    match t.control.serving, t.control.requests with
    | .receiving server, req :: _ =>
      match execute { env with joinStatus := some joinStatus } req server with
      | some o => { t.sockets with
          opening := t.sockets.opening ++ (started server o.server).map (·, .socket) }
      | none => t.sockets
    | _, _ => t.sockets
  | _ => t.sockets

def threadsAfter : Action → ClientThreads
  | .create createResult _ =>
    match t.control.client.phase with
    | .creating res =>
      if createResult = 0 then
        { t.threads with
          opening := t.threads.opening ++ [(t.control.client.created + 1, .parse res.body)] }
      else t.threads
    | _ => t.threads
  | _ => t.threads

def meets (threads : List DataThread) : Bool :=
  threads ≠ [] && threads.all (· ∉ t.sockets.opening.map Prod.fst) &&
    t.sockets.dataServerFd = some t.threads.dataServerAddr

/-- What a step of the server's set-up leads to; a port in use ends the server. -/
def bound (result : DataSockets × Bool) : Transfer :=
  { t with
    sockets := result.1
    control := if result.2 then { t.control with serving := .ended } else t.control }

def received (body : Block) : Option Transfer :=
  (took writable t.control.client.sentCommand t.control.client.fileName body).map fun new =>
    { t with
      link := .done
      threads := { t.threads with active := none }
      retrieved := t.retrieved ++ new }

/-- recv; from a server that is gone, or of a socket that is not connected, it leaves the zeros of
the new message. -/
def take : Option Transfer :=
  let zeros := zeroed maxBufferSize []
  match t.control.client.phase, t.link, t.control.serving with
  | .exited, _, _ => none
  | _, .sent body, _ => t.received writable (if t.threads.connected then body else zeros)
  | _, .connected, .ended => t.received writable zeros
  | _, .connected, _ => if t.threads.connected then none else t.received writable zeros
  | _, _, _ => none

def step : Event → Option Transfer
  | .control a =>
    if t.holds a then none
    else (t.control.step a).map fun s =>
      { t with
        control := s
        sockets := t.socketsAfter a
        threads := t.threadsAfter a
        link := t.linkAfter a }
  | .setUp i free =>
    match t.control.serving with
    | .ended => none
    | _ => (t.sockets.setUp i free).map t.bound
  | .prepare i unset =>
    match t.control.client.phase with
    | .exited => none
    | _ => (t.threads.setUp t.control.client.sentCommand i unset).map fun threads =>
        { t with threads := threads }
  | .connect i =>
    match t.control.client.phase, t.control.serving, t.link with
    | .joining, .answering _ true, .waiting threads =>
      if t.meets threads then
        (t.threads.connect i).map fun threads => { t with threads := threads, link := .connected }
      else none
    | _, _, _ => none
  | .send disk =>
    match t.control.serving, t.link with
    | .answering o _, .connected =>
      (payload disk o.server).map fun body => { t with link := .sent body }
    | _, _ => none
  | .take => t.take writable

variable {writable t} {t' : Transfer}

/-- A step of one of the mains. -/
theorem step_control {a : Action} (h : t.step writable (.control a) = some t') :
    t.holds a = false ∧ ∃ s, t.control.step a = some s ∧ t' = { t with
      control := s
      sockets := t.socketsAfter a
      threads := t.threadsAfter a
      link := t.linkAfter a } := by
  obtain ⟨hfree, h⟩ := Option.ite_none_left_eq_some.mp h
  obtain ⟨s, hs, rfl⟩ := Option.map_eq_some_iff.mp h
  exact ⟨Bool.of_not_eq_true hfree, s, hs, rfl⟩

/-- A data thread of the server goes on with its set-up. -/
theorem step_setUp {i free : Nat} (h : t.step writable (.setUp i free) = some t') :
    ∃ result, t.sockets.setUp i free = some result ∧ t' = t.bound result := by
  simp only [step] at h
  split at h
  · cases h
  · obtain ⟨result, hresult, rfl⟩ := Option.map_eq_some_iff.mp h
    exact ⟨result, hresult, rfl⟩

/-- A data thread of the client goes on with its set-up. -/
theorem step_prepare {i : Nat} {unset : Int} (h : t.step writable (.prepare i unset) = some t') :
    ∃ threads, t.threads.setUp t.control.client.sentCommand i unset = some threads ∧
      t' = { t with threads := threads } := by
  simp only [step] at h
  split at h
  · cases h
  · obtain ⟨threads, hthreads, rfl⟩ := Option.map_eq_some_iff.mp h
    exact ⟨threads, hthreads, rfl⟩

/-- A connect that is accepted. -/
theorem step_connect {i : Nat} (h : t.step writable (.connect i) = some t') :
    t.control.client.phase = .joining ∧ (∃ o, t.control.serving = .answering o true) ∧
      (∃ pending, t.link = .waiting pending ∧ t.meets pending = true) ∧
      ∃ threads, t.threads.connect i = some threads ∧
        t' = { t with threads := threads, link := .connected } := by
  simp only [step] at h
  split at h
  · rename_i o pending hphase hserving hwaiting
    obtain ⟨hmeets, h⟩ := Option.ite_none_right_eq_some.mp h
    obtain ⟨threads, hthreads, rfl⟩ := Option.map_eq_some_iff.mp h
    exact ⟨hphase, ⟨o, hserving⟩, ⟨pending, hwaiting, hmeets⟩, threads, hthreads, rfl⟩
  · cases h

/-- The send of the server's data thread. -/
theorem step_send {disk : Disk} (h : t.step writable (.send disk) = some t') :
    t.link = .connected ∧ ∃ o started body, t.control.serving = .answering o started ∧
      payload disk o.server = some body ∧ t' = { t with link := .sent body } := by
  simp only [step] at h
  split at h
  · rename_i o started hserving hconnected
    obtain ⟨body, hbody, rfl⟩ := Option.map_eq_some_iff.mp h
    exact ⟨hconnected, o, started, body, hserving, hbody, rfl⟩
  · cases h

/-- Serving a request sets up the next transfer. -/
theorem linkAfter_serve {env : Environment} {joinStatus : Int} {server : Server} {req : Message}
    {rest : List Message} (hserving : t.control.serving = .receiving server)
    (hrequests : t.control.requests = req :: rest) :
    t.linkAfter (.serve env joinStatus) =
      .waiting (awaited { env with joinStatus := some joinStatus } req server) := by
  simp only [linkAfter, hserving, hrequests]

/-- What the client's data thread reads where its recv returns. -/
theorem take_cases (h : t.take writable = some t') :
    t.control.client.phase ≠ .exited ∧ ∃ body new,
      took writable t.control.client.sentCommand t.control.client.fileName body = some new ∧
      ((∃ sent, t.link = .sent sent ∧
          body = if t.threads.connected then sent else zeroed maxBufferSize []) ∨
        t.link = .connected ∧ body = zeroed maxBufferSize [] ∧
          (t.control.serving = .ended ∨ t.threads.connected = false)) ∧
      t' = { t with
        link := .done
        threads := { t.threads with active := none }
        retrieved := t.retrieved ++ new } := by
  simp only [take, received] at h
  split at h
  · cases h
  · rename_i sent hlink hphase
    obtain ⟨new, hnew, rfl⟩ := Option.map_eq_some_iff.mp h
    exact ⟨hphase, _, new, hnew, .inl ⟨sent, hlink, rfl⟩, rfl⟩
  · rename_i hlink hserving hphase
    obtain ⟨new, hnew, rfl⟩ := Option.map_eq_some_iff.mp h
    exact ⟨hphase, _, new, hnew, .inr ⟨hlink, rfl, .inl hserving⟩, rfl⟩
  · rename_i hlink hphase _
    obtain ⟨hloose, h⟩ := Option.ite_none_left_eq_some.mp h
    obtain ⟨new, hnew, rfl⟩ := Option.map_eq_some_iff.mp h
    exact ⟨hphase, _, new, hnew, .inr ⟨hlink, rfl, .inr (Bool.of_not_eq_true hloose)⟩, rfl⟩
  · cases h

end Transfer

end NetworkProtocol.Ftp
