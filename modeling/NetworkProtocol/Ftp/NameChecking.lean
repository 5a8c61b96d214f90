import NetworkProtocol.Ftp.System

/-! The check of a name against the current directory, and the refusals of RETR and CWD that
rest on it. -/
namespace NetworkProtocol.Ftp
open CString

def RetrRefused (env : Environment) (req : Message) (s : Server) : Prop :=
  startsTransfer env req s = false ∧
    ∃ o, execute env req s = some o ∧ o.status = 404 ∧ o.sent = []

def CwdRefused (env : Environment) (req : Message) (s : Server) : Prop :=
  ∃ o, execute env req s = some o ∧ o.status = 500 ∧ o.server.relativePath = s.relativePath

/-- The scan finds the name just when it is listed, and the two commands refuse it just when it
is not. -/
structure Checked (env : Environment) (path body : CString) (listing : List CString)
    (name : CString) : Prop where
  valid : validDirectoryEntry env path (some name) = some true ↔ name ∈ listing
  retr : ∀ req s, interpret req.command = .retr → req.body = body → s.relativePath = path →
    s.authStatus = .modeSelected → (RetrRefused env req s ↔ name ∉ listing)
  cwd : ∀ req s, interpret req.command = .cwd → req.body = body → s.relativePath = path →
    s.authStatus = .loggedIn → (CwdRefused env req s ↔ name ∉ listing)

section Scan
variable {name : CString} {listing : List CString}

/-- Whether another name is listed agrees with whether this one is. -/
theorem other_iff_mem : ((∃ entry ∈ listing, entry ≠ name) ↔ name ∈ listing) ↔
    listing = [] ∨ name ∈ listing ∧ ∃ entry ∈ listing, entry ≠ name := by
  constructor
  · intro h
    by_cases hmem : name ∈ listing
    · exact .inr ⟨hmem, h.mpr hmem⟩
    · refine .inl (List.eq_nil_iff_forall_not_mem.mpr (fun entry hentry => ?_))
      have hne : entry ≠ name := fun heq => hmem (heq ▸ hentry)
      exact hmem (h.mp ⟨entry, hentry, hne⟩)
  · rintro (rfl | ⟨hmem, hother⟩)
    · simp
    · exact iff_of_true hother hmem

end Scan

section Commands
variable {env : Environment} {req : Message} {s : Server} {name : CString}

private theorem retrRefused_iff (command : interpret req.command = .retr)
    (auth : s.authStatus = .modeSelected)
    (first : (tokens whitespace req.body).head? = some name) : RetrRefused env req s ↔
      validDirectoryEntry env s.relativePath (some name) = some false := by
  have hexec := @execute_retr env req s name command auth first
  rcases hvalid : validDirectoryEntry env s.relativePath (some name) with - | valid
  · rw [hvalid, Option.bind_none] at hexec
    simp [RetrRefused, hexec]
  · rw [hvalid, Option.bind_some] at hexec
    cases valid with
    | false => simp [RetrRefused, hexec, startsTransfer, auth, command, first, hvalid]
    | true => simp [RetrRefused, startsTransfer, auth, command, first, hvalid]

private theorem cwdRefused_iff (command : interpret req.command = .cwd)
    (auth : s.authStatus = .loggedIn)
    (first : (tokens whitespace req.body).head? = some name) : CwdRefused env req s ↔
      validDirectoryEntry env s.relativePath (some name) = some false := by
  have hexec : execute env req s = s.cwd env req.body := by
    rw [execute, command]
  rw [CwdRefused, hexec, Server.cwd, if_neg (not_not.mpr auth), changeWorkingDirectory, first]
  rcases validDirectoryEntry env s.relativePath (some name) with - | valid
  · simp
  · cases valid <;> simp

end Commands

/-- The scan, the 404 of RETR and the 500 of CWD are right about a name exactly when nothing is
listed, or the name is and another one with it. -/
theorem checked_iff {env : Environment} {path body name : CString} {listing : List CString}
    (hopen : env.opendir path = some listing)
    (hfirst : (tokens whitespace body).head? = some name) :
    Checked env path body listing name ↔
      listing = [] ∨ name ∈ listing ∧ ∃ entry ∈ listing, entry ≠ name := by
  rw [← other_iff_mem]
  constructor
  · intro h
    rw [← validDirectoryEntry_iff hopen]
    exact h.valid
  · intro h
    refine ⟨(validDirectoryEntry_iff hopen).trans h, ?_, ?_⟩
    · rintro req s command rfl rfl auth
      rw [retrRefused_iff command auth hfirst, validDirectoryEntry_false hopen, h]
    · rintro req s command rfl rfl auth
      rw [cwdRefused_iff command auth hfirst, validDirectoryEntry_false hopen, h]

def oneFile : Environment :=
  ⟨fun _ => some [['.'], ['.', '.'], ['f']], fun _ => 0, 0, 0, some 1⟩

/-- That file passes the check. -/
theorem checked_file : Checked oneFile ['.', '/'] ['f'] [['.'], ['.', '.'], ['f']] ['f'] :=
  (checked_iff rfl (by decide)).mpr (.inr ⟨by decide, ['.'], by decide, by decide⟩)

/-- So does every name that is not there. -/
theorem unlisted_name_passes : ¬ ∀ (env : Environment) (path body name : CString)
    (listing : List CString), env.opendir path = some listing →
      (tokens whitespace body).head? = some name → Checked env path body listing name := by
  intro h
  have hchecked := h oneFile ['.', '/'] ['g'] ['g'] [['.'], ['.', '.'], ['f']] rfl (by decide)
  have hpasses : validDirectoryEntry oneFile ['.', '/'] (some ['g']) = some true := by decide
  exact absurd (hchecked.valid.mp hpasses) (by decide)

end NetworkProtocol.Ftp
