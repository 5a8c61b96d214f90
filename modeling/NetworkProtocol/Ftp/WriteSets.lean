import NetworkProtocol.Ftp.Served

/-! What a command may write of the four globals a session consists of, by the class of the
reply. -/
namespace NetworkProtocol.Ftp
open Server

structure SessionVariables where
  authStatus : AuthorizationStatus
  relativePath : CString
  asciiMode : Bool
  portIdx : Nat
  deriving DecidableEq

def Server.variables (s : Server) : SessionVariables :=
  ⟨s.authStatus, s.relativePath, s.asciiMode, s.portIdx⟩

def WritesAtMost (v v' : SessionVariables) : Command → Prop
  | .user | .pass | .port | .nlst | .retr | .quit => v' = { v with authStatus := v'.authStatus }
  | .cwd => v' = { v with relativePath := v'.relativePath }
  | .type => v' = { v with asciiMode := v'.asciiMode }
  | .pasv => v' = { v with authStatus := v'.authStatus, portIdx := v'.portIdx }
  | .unknown => v' = v

section Frame
variable {env : Environment} {s s' : Server} {req : Message}

@[simp] theorem variables_join : s.join.variables = s.variables := rfl

private theorem variables_create (env : Environment) (s : Server) (port : Int) :
    (s.create env port).variables = s.variables := by
  rw [create]
  split <;> rfl

/-- A mode is selected in authStatus, whether there is a new data thread or not. -/
theorem variables_selected (port : Int) :
    ({ s.create env port with authStatus := .modeSelected } : Server).variables =
      { s.variables with authStatus := .modeSelected } := by
  rw [← variables_create env s port]
  rfl

/-- Signalling the data thread writes dataCommand and the file name alone. -/
theorem Starts.variables (h : Starts env req s s') : s'.variables = s.variables := by
  obtain ⟨-, ⟨-, rfl⟩ | ⟨-, name, -, -, rfl⟩⟩ := h
  · rfl
  · rfl

/-- pthread_create leaves portIdx alone. -/
theorem create_portIdx (env : Environment) (s : Server) (port : Int) :
    (s.create env port).portIdx = s.portIdx :=
  congrArg SessionVariables.portIdx (variables_create env s port)

/-- It leaves relativePath alone. -/
theorem create_relativePath (env : Environment) (s : Server) (port : Int) :
    (s.create env port).relativePath = s.relativePath :=
  congrArg SessionVariables.relativePath (variables_create env s port)

/-- A transfer leaves portIdx alone. -/
theorem Starts.portIdx (h : Starts env req s s') : s'.portIdx = s.portIdx :=
  congrArg SessionVariables.portIdx h.variables

/-- It leaves relativePath alone. -/
theorem Starts.relativePath (h : Starts env req s s') : s'.relativePath = s.relativePath :=
  congrArg SessionVariables.relativePath h.variables

/-- Only NLST and RETR start one. -/
theorem Starts.command (h : Starts env req s s') :
    interpret req.command = .nlst ∨ interpret req.command = .retr := by
  obtain ⟨-, ⟨command, -⟩ | ⟨command, -⟩⟩ := h
  · exact .inl command
  · exact .inr command

end Frame

section Reply
variable {v v' : SessionVariables} {status : Int} {command c : Command}

private theorem keeps_of_success (hc : command = c) (writes : WritesAtMost v v' c)
    (success : status < 400 := by simp) :
    (400 ≤ status ∧ status < 600 → v' = v) ∧
      (200 ≤ status ∧ status < 400 → WritesAtMost v v' command) := by
  refine ⟨fun error => ?_, fun _ => hc ▸ writes⟩
  omega

private theorem keeps_of_error (same : v' = v) (error : 400 ≤ status) :
    (400 ≤ status ∧ status < 600 → v' = v) ∧
      (200 ≤ status ∧ status < 400 → WritesAtMost v v' command) := by
  refine ⟨fun _ => same, fun success => ?_⟩
  omega

end Reply

/-- An error leaves the four variables as they were, and a success writes those of its command
and no others. -/
theorem execute_writes {env : Environment} {req : Message} {s : Server} {o : Outcome}
    (h : execute env req s = some o) :
    (400 ≤ o.status ∧ o.status < 600 → o.server.variables = s.variables) ∧
      (200 ≤ o.status ∧ o.status < 400 →
        WritesAtMost s.variables o.server.variables (interpret req.command)) := by
  cases served h with
  | refused fileName status text reason error => exact keeps_of_error rfl error
  | identified text command auth body => exact keeps_of_success command rfl
  | loggedOn text command auth body => exact keeps_of_success command rfl
  | already text command auth => exact keeps_of_success command rfl
  | left text command => exact keeps_of_success command rfl
  | moved relativePath text command auth change => exact keeps_of_success command rfl
  | typed asciiMode text command auth => exact keeps_of_success command rfl
  | passive text command auth =>
    refine keeps_of_success command ?_
    rw [variables_selected]
    rfl
  | active address text command auth parsed =>
    refine keeps_of_success command ?_
    rw [variables_selected]
    rfl
  | transferred s' status text starts joined success =>
    have hvariables : ({ s'.join with authStatus := .loggedIn } : Server).variables =
        { s.variables with authStatus := .loggedIn } := by
      rw [← starts.variables]
      rfl
    rcases starts.command with command | command
    · refine keeps_of_success command ?_
      rw [hvariables]
      rfl
    · refine keeps_of_success command ?_
      rw [hvariables]
      rfl
  | failed s' text starts joined =>
    exact keeps_of_error (variables_join.trans starts.variables) (by simp)

private def empty : Environment := ⟨fun _ => some [], fun _ => 0, 11, 7, none⟩

private def passive : Message := { command := "pasv".toList }

private def ready : Server :=
  { authStatus := .loggedIn, relativePath := "./a".toList, portIdx := 3 }

/-- An accepted PASV writes what it may. -/
theorem execute_writes_passive :
    ∃ o, execute empty passive ready = some o ∧
      (400 ≤ o.status ∧ o.status < 600 → o.server.variables = ready.variables) ∧
      (200 ≤ o.status ∧ o.status < 400 →
        WritesAtMost ready.variables o.server.variables (interpret passive.command)) := by
  have hexec : execute empty passive ready = some (ready.pasv empty) := rfl
  exact ⟨_, hexec, execute_writes hexec⟩

end NetworkProtocol.Ftp
