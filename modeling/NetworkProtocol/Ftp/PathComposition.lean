import NetworkProtocol.Ftp.WorkingDirectory
import NetworkProtocol.Ftp.FileTransfer
import NetworkProtocol.Ftp.History

/-! The paths the server composes over a whole run, by bare appends: relativePath of the names CWD
has accepted, and the path of a file behind it. -/
namespace NetworkProtocol.Ftp
open CString FileTree

def Exchange.movedTo (e : Exchange) : Option CString :=
  if e.command = .cwd ∧ e.status = 226 then (tokens whitespace e.body).head? else none

def Main.accepted (m : Main) : List CString := m.exchanges.filterMap Exchange.movedTo

/-- What strcpy and strcat make of relativePath and fileName in getStreamFromFile. -/
def Server.opened (s : Server) : Option CString := s.fileName.map (s.relativePath ++ ·)

structure Plain (name : CString) : Prop where
  ne_nil : name ≠ []
  slash : '/' ∉ name
  ne_here : name ≠ ['.']
  ne_above : name ≠ ['.', '.']

/-- Where there is room for it, that is the path in the block that fopen is given. -/
theorem cString_opened {s : Server} {path : CString} (hopened : s.opened = some path)
    (hnul : CMemory.nul ∉ path) (hfits : path.length < maxRelativePathLength) :
    ∃ fileName, s.fileName = some fileName ∧
      (filePath s.relativePath fileName).bind CMemory.cString = some path := by
  obtain ⟨fileName, hname, rfl⟩ := Option.map_eq_some_iff.mp hopened
  rw [List.mem_append, not_or] at hnul
  exact ⟨fileName, hname, cString_filePath hnul.1 hnul.2 hfits⟩

section History
variable {env : Environment} {req : Message} {s s' : Server} {o : Outcome}

private theorem appends_nothing {command : Command} (h : interpret req.command = command)
    (hsame : o.server.relativePath = s.relativePath) (hne : command ≠ .cwd := by decide) :
    o.server.relativePath = s.relativePath ++ (exchange req o).movedTo.getD [] := by
  subst h
  have hnone : (exchange req o).movedTo = none := if_neg (fun hcwd => hne hcwd.1)
  rw [hnone, hsame]
  exact (List.append_nil _).symm

private theorem Starts.appends_nothing (starts : Starts env req s s')
    (hsame : o.server.relativePath = s'.relativePath) :
    o.server.relativePath = s.relativePath ++ (exchange req o).movedTo.getD [] := by
  rcases starts.command with command | command
  · exact Ftp.appends_nothing command (hsame.trans starts.relativePath)
  · exact Ftp.appends_nothing command (hsame.trans starts.relativePath)

/-- relativePath grows by the names that CWD accepts. -/
theorem relativePath_exchange (served : Served env req s o) :
    o.server.relativePath = s.relativePath ++ (exchange req o).movedTo.getD [] := by
  cases served with
  | refused fileName status text reason error =>
    have hnone : (exchange req ⟨{ s with fileName := fileName }, [], status, text⟩).movedTo =
        none := by
      refine if_neg (fun hcwd => ?_)
      have hstatus : status = 226 := hcwd.2
      subst hstatus
      exact absurd error (by decide)
    rw [hnone]
    exact (List.append_nil _).symm
  | identified text command auth body => exact appends_nothing command rfl
  | loggedOn text command auth body => exact appends_nothing command rfl
  | already text command auth => exact appends_nothing command rfl
  | left text command => exact appends_nothing command rfl
  | moved relativePath text command auth change =>
    obtain ⟨name, first, rfl⟩ := changeWorkingDirectory_some change
    simp [Exchange.movedTo, exchange, command, first]
  | typed asciiMode text command auth => exact appends_nothing command rfl
  | passive text command auth => exact appends_nothing command (create_relativePath env _ _)
  | active address text command auth parsed =>
    exact appends_nothing command (create_relativePath env s _)
  | transferred s' status text starts joined success => exact starts.appends_nothing rfl
  | failed s' text starts joined => exact starts.appends_nothing rfl

/-- Over every run: the start directory, and behind it the names, one directly behind the other. -/
theorem relativePath_run {events : List Event} {m : Main}
    (hrun : Runs.run step {} events = some m) :
    m.server.relativePath = '.' :: '/' :: m.accepted.flatten := by
  refine history_invariant (I := fun s exchanges => s.relativePath =
    '.' :: '/' :: (exchanges.filterMap Exchange.movedTo).flatten) rfl ?_ hrun
  intro env req s o exchanges hpath served
  rw [relativePath_exchange served, hpath, List.filterMap_append, List.flatten_append]
  cases hmoved : (exchange req o).movedTo with
  | none => simp [hmoved]
  | some name => simp [hmoved]

end History

section Resolution
variable {names : List CString} {name : CString}

private theorem slash_not_mem_flatten (h : ∀ name ∈ names, Plain name) : '/' ∉ names.flatten := by
  intro hmem
  obtain ⟨name, hname, hslash⟩ := List.mem_flatten.mp hmem
  exact (h name hname).slash hslash

/-- The path of a file is a single name, whatever was accepted before it. -/
theorem proper_file_iff (h : ∀ other ∈ names ++ [name], Plain other) :
    proper ('.' :: '/' :: names.flatten ++ name) = names ++ [name] ↔ names = [] := by
  have hflatten : (names ++ [name]).flatten = names.flatten ++ name := by simp
  have hslash := slash_not_mem_flatten h
  have hname := h name (List.mem_append_right _ (List.mem_singleton.mpr rfl))
  rw [hflatten] at hslash
  rw [List.cons_append, List.cons_append, proper_here]
  constructor
  · intro hproper
    have hlength := length_proper_le hslash
    rw [hproper, List.length_append, List.length_singleton] at hlength
    exact List.length_eq_zero_iff.mp (by omega)
  · rintro rfl
    exact proper_name hname.slash hname.ne_nil hname.ne_here

/-- relativePath is right as long as at most one name was accepted. -/
theorem proper_directory_iff (h : ∀ name ∈ names, Plain name) :
    proper ('.' :: '/' :: names.flatten) = names ↔ names.length ≤ 1 := by
  rw [proper_here]
  constructor
  · intro hproper
    have hlength := length_proper_le (slash_not_mem_flatten h)
    rwa [hproper] at hlength
  · intro hlength
    match names, hlength with
    | [], _ => rfl
    | [name], _ =>
      have hname := h name (List.mem_singleton.mpr rfl)
      rw [List.flatten_singleton]
      exact proper_name hname.slash hname.ne_nil hname.ne_here

/-- What opendir finds over a tree rests on the proper names of relativePath alone. -/
theorem opendir_proper (tree : ServedTree) {events : List Event} {m : Main}
    (hrun : Runs.run step {} events = some m) : tree.opendir m.server.relativePath =
      (tree.start.walk (proper m.server.relativePath)).map Place.names := by
  have hne : m.server.relativePath ≠ [] := by
    rw [relativePath_run hrun]
    exact List.cons_ne_nil _ _
  rw [ServedTree.opendir, resolve_eq_walk_proper hne]

end Resolution

/-- After any run: the path RETR opens and the path opendir is given lead where the names say
exactly when CWD has accepted none. -/
theorem paths_resolve_iff {events : List Event} {m : Main} {env : Environment} {req : Message}
    {s : Server} {f : CString} (hrun : Runs.run step {} events = some m)
    (hcommand : interpret req.command = .retr)
    (hfirst : (tokens whitespace req.body).head? = some f)
    (hstarts : Starts env req m.server s) (hplain : ∀ name ∈ m.accepted ++ [f], Plain name) :
    ((∃ path, s.opened = some path ∧ proper path = m.accepted ++ [f]) ∧
      proper s.relativePath = m.accepted) ↔ m.accepted = [] := by
  obtain ⟨-, ⟨hnlst, -⟩ | ⟨-, name, hname, -, rfl⟩⟩ := hstarts
  · exact absurd (hcommand.symm.trans hnlst) (by decide)
  obtain rfl := Option.some.inj (hfirst.symm.trans hname)
  have hpath := relativePath_run hrun
  have hopened : ({ m.server with fileName := some f, dataCommand := .retr } : Server).opened =
      some ('.' :: '/' :: m.accepted.flatten ++ f) := congrArg (some <| · ++ f) hpath
  have hfile := proper_file_iff hplain
  constructor
  · rintro ⟨⟨path, hopen, hproper⟩, -⟩
    obtain rfl := Option.some.inj (hopened.symm.trans hopen)
    exact hfile.mp hproper
  · intro hnone
    refine ⟨⟨_, hopened, hfile.mpr hnone⟩, ?_⟩
    change proper m.server.relativePath = m.accepted
    rw [hpath, hnone]
    rfl

def oneDirectory : Environment :=
  ⟨fun _ => some [['.'], ['.', '.'], ['d'], ['f']], fun _ => 0, 0, 0, some 1⟩

def session (requests : List Message) : List Event :=
  let login : List Message := [{ command := "user".toList, body := userId },
    { command := "pass".toList, body := userPassword }]
  let pasv : Message := { command := "pasv".toList }
  .accept :: (login ++ requests ++ [pasv]).map (.request oneDirectory)

def retrieval : Message := { command := "retr".toList, body := ['f'] }

private theorem first_retrieval : (tokens whitespace retrieval.body).head? = some ['f'] := by
  decide

private theorem starts_retrieval {s : Server} (auth : s.authStatus = .modeSelected) :
    Starts oneDirectory retrieval s { s with fileName := some ['f'], dataCommand := .retr } := by
  refine ⟨auth, .inr ⟨by decide, ['f'], first_retrieval, ?_, rfl⟩⟩
  change some ([['.'], ['.', '.'], ['d'], ['f']].any (· ≠ ['f'])) = some true
  decide

private theorem plain_letter {c : Char} (hslash : c ≠ '/' := by decide)
    (hdot : c ≠ '.' := by decide) : Plain [c] := by
  constructor <;> simp [hslash.symm, hdot]

/-- In the start directory both paths are right. -/
theorem paths_resolve_at_start : ∃ m s, Runs.run step {} (session []) = some m ∧
    Starts oneDirectory retrieval m.server s ∧
    (∃ path, s.opened = some path ∧ proper path = m.accepted ++ [['f']]) ∧
      proper s.relativePath = m.accepted := by
  obtain ⟨m, hrun, hauth, hnone⟩ : ∃ m, Runs.run step {} (session []) = some m ∧
      m.server.authStatus = .modeSelected ∧ m.accepted = [] := ⟨_, rfl, rfl, rfl⟩
  have hstarts := starts_retrieval hauth
  have hplain : ∀ name ∈ m.accepted ++ [['f']], Plain name := by
    rw [hnone]
    exact List.forall_mem_singleton.mpr plain_letter
  exact ⟨m, _, hrun, hstarts,
    (paths_resolve_iff hrun (by decide) first_retrieval hstarts hplain).mpr hnone⟩

/-- CWD d and RETR f open ./df. -/
theorem file_below_start : ¬ ∀ (events : List Event) (m : Main) (env : Environment)
    (req : Message) (s : Server) (f : CString), Runs.run step {} events = some m →
      interpret req.command = .retr → (tokens whitespace req.body).head? = some f →
      Starts env req m.server s → (∀ name ∈ m.accepted ++ [f], Plain name) →
      (∃ path, s.opened = some path ∧ proper path = m.accepted ++ [f]) ∧
        proper s.relativePath = m.accepted := by
  intro h
  obtain ⟨m, hrun, hauth, hpath, hone⟩ : ∃ m,
      Runs.run step {} (session [{ command := "cwd".toList, body := ['d'] }]) = some m ∧
      m.server.authStatus = .modeSelected ∧ m.server.relativePath = ['.', '/', 'd'] ∧
      m.accepted = [['d']] := ⟨_, rfl, rfl, rfl, rfl⟩
  have hplain : ∀ name ∈ m.accepted ++ [['f']], Plain name := by
    rw [hone]
    exact List.forall_mem_cons.mpr ⟨plain_letter, List.forall_mem_singleton.mpr plain_letter⟩
  obtain ⟨⟨path, hopened, hproper⟩, -⟩ :=
    h _ m _ _ _ _ hrun (by decide) first_retrieval (starts_retrieval hauth) hplain
  have hopen : path = ['.', '/', 'd', 'f'] := by
    simpa [Server.opened, hpath] using hopened.symm
  rw [hopen, hone] at hproper
  exact absurd hproper (by decide)

end NetworkProtocol.Ftp
