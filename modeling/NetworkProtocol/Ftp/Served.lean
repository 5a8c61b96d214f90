import NetworkProtocol.Ftp.Server

/-! What one request can do to the FTP server, with the guard under which it does it. -/
namespace NetworkProtocol.Ftp
open CString Server

section Scan
variable {env : Environment} {path name : CString} {listing : List CString}

/-- The scan answers whether the directory lists another name. -/
theorem validDirectoryEntry_eq (h : env.opendir path = some listing) (name : CString) :
    validDirectoryEntry env path (some name) = some (listing.any (· ≠ name)) := by
  simp only [validDirectoryEntry, h]

/-- A name passes when the directory has some other entry. -/
theorem validDirectoryEntry_iff (h : env.opendir path = some listing) :
    validDirectoryEntry env path (some name) = some true ↔ ∃ entry ∈ listing, entry ≠ name := by
  rw [validDirectoryEntry_eq h, Option.some.injEq, List.any_eq_true]
  simp only [decide_eq_true_eq]

/-- It fails when there is no other. -/
theorem validDirectoryEntry_false (h : env.opendir path = some listing) :
    validDirectoryEntry env path (some name) = some false ↔
      ¬ ∃ entry ∈ listing, entry ≠ name := by
  rw [← validDirectoryEntry_iff h, validDirectoryEntry_eq h, Option.some.injEq,
    Option.some.injEq, Bool.not_eq_true]

/-- Only a name passes the check. -/
theorem validDirectoryEntry_none (env : Environment) (path : CString) :
    validDirectoryEntry env path none ≠ some true := by
  cases hopen : env.opendir path with
  | none => simp [validDirectoryEntry, hopen]
  | some entries => cases entries <;> simp [validDirectoryEntry, hopen]

end Scan

section Request
variable (env : Environment) (req : Message) (s : Server)

/-- The state in which NLST or RETR signals the data thread and joins it. -/
def Starts (s' : Server) : Prop :=
  s.authStatus = .modeSelected ∧
  (interpret req.command = .nlst ∧ s' = { s with dataCommand := .nlst } ∨
    interpret req.command = .retr ∧ ∃ name, (tokens whitespace req.body).head? = some name ∧
      validDirectoryEntry env s.relativePath (some name) = some true ∧
      s' = { s with fileName := some name, dataCommand := .retr })

def Refused : Prop :=
  match interpret req.command with
  | .user => s.authStatus ≠ .notLoggedIn ∨ req.body ≠ userId
  | .pass => s.authStatus = .notLoggedIn ∨ s.authStatus = .needPassword ∧ req.body ≠ userPassword
  | .nlst => s.authStatus ≠ .modeSelected
  | .retr => s.authStatus ≠ .modeSelected ∨
    validDirectoryEntry env s.relativePath (tokens whitespace req.body).head? = some false
  | .cwd => s.authStatus ≠ .loggedIn ∨
    changeWorkingDirectory env s.relativePath req.body = some none
  | .quit => False
  | .type => s.authStatus ≠ .loggedIn ∨
    ∀ c, req.body = [c] → c.toLower ≠ 'i' ∧ c.toLower ≠ 'a'
  | .pasv => s.authStatus ≠ .loggedIn
  | .port => s.authStatus ≠ .loggedIn ∨ requested req.body = none
  | .unknown => True

inductive Served : Outcome → Prop where
  | refused (fileName : Option CString) (status : Int) (text : CString)
      (reason : Refused env req s) (error : 400 ≤ status) :
      Served ⟨{ s with fileName := fileName }, [], status, text⟩
  | identified (text : CString) (command : interpret req.command = .user)
      (auth : s.authStatus = .notLoggedIn) (body : req.body = userId) :
      Served ⟨{ s with authStatus := .needPassword }, [], 331, text⟩
  | loggedOn (text : CString) (command : interpret req.command = .pass)
      (auth : s.authStatus = .needPassword) (body : req.body = userPassword) :
      Served ⟨{ s with authStatus := .loggedIn }, [], 230, text⟩
  | already (text : CString) (command : interpret req.command = .pass)
      (auth : s.authStatus = .loggedIn ∨ s.authStatus = .modeSelected) :
      Served ⟨s, [], 200, text⟩
  | left (text : CString) (command : interpret req.command = .quit) :
      Served ⟨{ s with authStatus := .notLoggedIn }, [], 221, text⟩
  | moved (relativePath text : CString) (command : interpret req.command = .cwd)
      (auth : s.authStatus = .loggedIn)
      (change : changeWorkingDirectory env s.relativePath req.body = some (some relativePath)) :
      Served ⟨{ s with relativePath := relativePath }, [], 226, text⟩
  | typed (asciiMode : Bool) (text : CString) (command : interpret req.command = .type)
      (auth : s.authStatus = .loggedIn) :
      Served ⟨{ s with asciiMode := asciiMode }, [], 200, text⟩
  | passive (text : CString) (command : interpret req.command = .pasv)
      (auth : s.authStatus = .loggedIn) :
      Served ⟨{ create env (s.nextPort env) { s with portIdx := s.portIdx + 1 } with
        authStatus := .modeSelected }, [], 227, text⟩
  | active (address : Address) (text : CString) (command : interpret req.command = .port)
      (auth : s.authStatus = .loggedIn) (parsed : requested req.body = some address) :
      Served ⟨{ s.create env address.port with authStatus := .modeSelected }, [], 200, text⟩
  | transferred (s' : Server) (status : Int) (text : CString) (starts : Starts env req s s')
      (joined : env.joinStatus = some status) (success : status ≠ 0) :
      Served ⟨{ s'.join with authStatus := .loggedIn }, [newMessage 150 []], 226, text⟩
  | failed (s' : Server) (text : CString) (starts : Starts env req s s')
      (joined : env.joinStatus = some 0) :
      Served ⟨s'.join, [newMessage 150 []], 500, text⟩

end Request

section Commands
variable {env : Environment} {req : Message} {s : Server} {o : Outcome}

/-- Signalling the data thread leaves the mode selected. -/
theorem Starts.authStatus {s' : Server} (h : Starts env req s s') :
    s'.authStatus = .modeSelected := by
  obtain ⟨auth, ⟨-, rfl⟩ | ⟨-, name, -, -, rfl⟩⟩ := h
  · exact auth
  · exact auth

private theorem Served.same {status : Int} {text : CString} (reason : Refused env req s)
    (error : 400 ≤ status := by decide) : Served env req s ⟨s, [], status, text⟩ :=
  Served.refused s.fileName status text reason error

private theorem served_user (command : interpret req.command = .user) :
    Served env req s (s.user req.body) := by
  rw [Server.user]
  by_cases auth : s.authStatus = .notLoggedIn
  · rw [if_pos auth]
    by_cases body : req.body = userId
    · rw [if_pos body]
      exact .identified _ command auth body
    · have hsame : { s with authStatus := .notLoggedIn } = s := by rw [← auth]
      rw [if_neg body, hsame]
      exact .same (by simp [Refused, command, body])
  · rw [if_neg auth]
    exact .same (by simp [Refused, command, auth])

private theorem served_pass (command : interpret req.command = .pass) :
    Served env req s (s.pass req.body) := by
  rw [Server.pass]
  split
  · rename_i auth
    exact .same (by simp [Refused, command, auth])
  · rename_i auth
    by_cases body : req.body = userPassword
    · rw [if_pos body]
      exact .loggedOn _ command auth body
    · rw [if_neg body]
      exact .same (by simp [Refused, command, auth, body])
  · rename_i auth
    exact .already _ command (.inl auth)
  · rename_i auth
    exact .already _ command (.inr auth)

private theorem served_transfer {command : Command} {subject : CString} {s' : Server}
    (starts : Starts env req s { s' with dataCommand := command })
    (h : transfer env command subject s' = some o) : Served env req s o := by
  obtain ⟨status, joined, rfl⟩ := Option.map_eq_some_iff.mp h
  rcases eq_or_ne status 0 with rfl | hzero
  · exact .failed _ _ starts joined
  · simp only [if_neg hzero]
    exact .transferred _ status _ starts joined hzero

private theorem served_nlst (command : interpret req.command = .nlst)
    (h : s.nlst env = some o) : Served env req s o := by
  rw [Server.nlst] at h
  split at h
  · rename_i auth
    obtain rfl := Option.some.inj h
    exact .same (by simp [Refused, command, auth])
  · rename_i auth
    exact served_transfer ⟨not_not.mp auth, .inl ⟨command, rfl⟩⟩ h

private theorem served_retr (command : interpret req.command = .retr)
    (h : s.retr env req.body = some o) : Served env req s o := by
  rw [Server.retr] at h
  split at h
  · rename_i auth
    obtain rfl := Option.some.inj h
    exact .same (by simp [Refused, command, auth])
  · rename_i auth
    dsimp only at h
    split at h
    · rename_i valid first
      obtain rfl := Option.some.inj h
      exact .refused _ _ _ (by simp [Refused, command, valid]) (by decide)
    · rename_i name valid first
      rw [first] at h valid
      exact served_transfer ⟨not_not.mp auth, .inr ⟨command, name, first, valid, rfl⟩⟩ h
    · cases h

private theorem served_cwd (command : interpret req.command = .cwd)
    (h : s.cwd env req.body = some o) : Served env req s o := by
  rw [Server.cwd] at h
  split at h
  · rename_i auth
    obtain rfl := Option.some.inj h
    exact .same (by simp [Refused, command, auth])
  · rename_i auth
    split at h
    · cases h
    · rename_i change
      obtain rfl := Option.some.inj h
      exact .same (by simp [Refused, command, change])
    · rename_i relativePath change
      obtain rfl := Option.some.inj h
      exact .moved _ _ command (not_not.mp auth) change

private theorem served_type (command : interpret req.command = .type) :
    Served env req s (s.type req.body) := by
  unfold Server.type
  split
  · rename_i auth
    exact .same (by simp [Refused, command, auth])
  · rename_i auth
    split
    · rename_i c body
      split_ifs with binary ascii
      · exact .typed _ _ command (not_not.mp auth)
      · exact .typed _ _ command (not_not.mp auth)
      · exact .same (by simp [Refused, command, body, binary, ascii])
    · rename_i body
      refine .same ?_
      simp only [Refused, command]
      exact .inr (fun c hc => absurd hc (body c))

/-- pthread_create never returns -1. -/
theorem selectMode_eq (port status : Int) (text : CString) (s : Server) :
    selectMode env port status text s =
      ⟨{ s.create env port with authStatus := .modeSelected }, [], status, text⟩ :=
  if_neg (by omega)

private theorem served_pasv (command : interpret req.command = .pasv) :
    Served env req s (s.pasv env) := by
  rw [Server.pasv]
  split
  · rename_i auth
    exact .same (by simp [Refused, command, auth])
  · rename_i auth
    rw [selectMode_eq]
    exact .passive _ command (not_not.mp auth)

private theorem served_port (command : interpret req.command = .port) :
    Served env req s (s.port env req.body) := by
  rw [Server.port]
  split
  · rename_i auth
    exact .same (by simp [Refused, command, auth])
  · rename_i auth
    split
    · rename_i parsed
      exact .same (by simp [Refused, command, parsed])
    · rename_i address parsed
      rw [selectMode_eq]
      exact .active address _ command (not_not.mp auth) parsed

/-- Every outcome of execute is one of these. -/
theorem served (h : execute env req s = some o) : Served env req s o := by
  rw [execute] at h
  generalize command : interpret req.command = c at h
  cases c with
  | user => exact Option.some.inj h ▸ served_user command
  | pass => exact Option.some.inj h ▸ served_pass command
  | nlst => exact served_nlst command h
  | retr => exact served_retr command h
  | cwd => exact served_cwd command h
  | quit => exact Option.some.inj h ▸ .left _ command
  | type => exact Option.some.inj h ▸ served_type command
  | pasv => exact Option.some.inj h ▸ served_pasv command
  | port => exact Option.some.inj h ▸ served_port command
  | unknown => exact Option.some.inj h ▸ .same (by simp [Refused, command])

/-- RETR with a name, where a mode is selected: what the check finds decides. -/
theorem execute_retr {name : CString} (command : interpret req.command = .retr)
    (auth : s.authStatus = .modeSelected)
    (first : (tokens whitespace req.body).head? = some name) :
    execute env req s = (validDirectoryEntry env s.relativePath (some name)).bind (fun valid =>
      if valid then transfer env .retr name { s with fileName := some name }
      else some
        { server := { s with fileName := some name }
          status := 404
          responseMessage := "failed opening ".toList ++ name }) := by
  rw [execute, command]
  change s.retr env req.body = _
  rw [Server.retr, if_neg (not_not.mpr auth), first]
  rcases hvalid : validDirectoryEntry env s.relativePath (some name) with - | valid
  · simp only [hvalid, Option.bind_none]
  · cases valid <;> simp only [hvalid] <;> rfl

end Commands

end NetworkProtocol.Ftp
