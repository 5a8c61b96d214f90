import NetworkProtocol.Library.FileTree
import NetworkProtocol.Ftp.Main
import NetworkProtocol.Ftp.WriteSets

/-! relativePath over one directory tree. CWD writes each name right behind the last one, with no
slash, and the check before it lets every name pass. -/
namespace NetworkProtocol.Ftp
open CString FileTree

structure ServedTree where
  root : List (Name × Node)
  path : List Name
  start : Place
  exists_start : Place.walk ⟨root, []⟩ path = some start

/-- The names of a directory, as readdir lists them; none where the path names no directory. -/
def ServedTree.opendir (tree : ServedTree) (path : CString) : Option (List CString) :=
  (resolve tree.start path).map Place.names

/-- What the system answers when the directories are those of the tree. -/
def Environment.over (env : Environment) (tree : ServedTree) : Environment :=
  { env with opendir := tree.opendir }

def Event.over (tree : ServedTree) : Event → Event
  | .request env req => .request (env.over tree) req
  | e => e

def stepOver (tree : ServedTree) (m : Main) (e : Event) : Option Main := step m (e.over tree)

/-- relativePath names a directory, and opendir succeeds whatever entry is tested. -/
def Opens (tree : ServedTree) (m : Main) : Prop :=
  (resolve tree.start m.server.relativePath).isSome ∧
    ∀ (env : Environment) (name : CString),
      validDirectoryEntry (env.over tree) m.server.relativePath (some name) ≠ none

/-- A CWD of a client logged in names, behind the last name of relativePath, a directory. -/
def LeadsOn (tree : ServedTree) (m : Main) : Event → Prop
  | .request _ req => interpret req.command = .cwd → m.server.authStatus = .loggedIn →
    ∀ name, (tokens whitespace req.body).head? = some name →
      Extends tree.start m.server.relativePath name
  | _ => True

section Request
variable {tree : ServedTree} {env : Environment} {req : Message} {s : Server} {o : Outcome}
  {path name : CString}

/-- Every directory lists two names, so one of them differs from the name tested. -/
theorem validDirectoryEntry_over (h : (resolve tree.start path).isSome) (name : CString) :
    validDirectoryEntry (env.over tree) path (some name) = some true := by
  obtain ⟨place, hplace⟩ := Option.isSome_iff_exists.mp h
  have hlisted : (env.over tree).opendir path = some place.names := by
    simp [Environment.over, ServedTree.opendir, hplace]
  have hother : ∃ entry ∈ place.names, entry ≠ name := by
    rcases eq_or_ne name ['.'] with rfl | hne
    · exact ⟨['.', '.'], by simp [Place.names], by simp⟩
    · exact ⟨['.'], by simp [Place.names], hne.symm⟩
  exact (validDirectoryEntry_iff hlisted).mpr hother

private theorem opens_iff {m : Main} :
    Opens tree m ↔ (resolve tree.start m.server.relativePath).isSome := by
  refine ⟨And.left, fun h => ⟨h, fun env name => ?_⟩⟩
  rw [validDirectoryEntry_over h]
  exact Option.some_ne_none true

/-- A change of directory is a name written behind the path. -/
theorem changeWorkingDirectory_some {relativePath body path' : CString}
    (change : changeWorkingDirectory env relativePath body = some (some path')) :
    ∃ name, (tokens whitespace body).head? = some name ∧ path' = relativePath ++ name := by
  rw [changeWorkingDirectory] at change
  split at change
  · cases change
  · rename_i name valid first
    exact ⟨name, first, (Option.some.inj (Option.some.inj change)).symm⟩
  · cases change

/-- relativePath changes by a CWD alone, which writes its name behind it. -/
theorem relativePath_served (served : Served env req s o) :
    o.server.relativePath = s.relativePath ∨
      interpret req.command = .cwd ∧ s.authStatus = .loggedIn ∧
        ∃ name, (tokens whitespace req.body).head? = some name ∧
          o.server.relativePath = s.relativePath ++ name := by
  cases served with
  | moved relativePath text command auth change =>
    exact .inr ⟨command, auth, changeWorkingDirectory_some change⟩
  | passive text command auth => exact .inl (create_relativePath env _ _)
  | active address text command auth parsed => exact .inl (create_relativePath env s _)
  | transferred s' status text starts joined success => exact .inl starts.relativePath
  | failed s' text starts joined => exact .inl starts.relativePath
  | _ => exact .inl rfl

/-- Where relativePath names a directory, a CWD with any name is carried out. -/
theorem relativePath_cwd (h : (resolve tree.start s.relativePath).isSome)
    (command : interpret req.command = .cwd) (auth : s.authStatus = .loggedIn)
    (first : (tokens whitespace req.body).head? = some name)
    (hexec : execute (env.over tree) req s = some o) :
    o.server.relativePath = s.relativePath ++ name := by
  have hchange : changeWorkingDirectory (env.over tree) s.relativePath req.body =
      some (some (s.relativePath ++ name)) := by
    rw [changeWorkingDirectory, first, validDirectoryEntry_over h]
  rw [execute, command] at hexec
  change s.cwd (env.over tree) req.body = some o at hexec
  rw [Server.cwd, if_neg (not_not.mpr auth), hchange] at hexec
  obtain rfl := Option.some.inj hexec
  rfl

end Request

section Steps
variable {tree : ServedTree} {m m' : Main} {e : Event}

private theorem request_over {env : Environment} {req : Message}
    (h : stepOver tree m (.request env req) = some m') :
    ∃ o, execute (env.over tree) req m.server = some o ∧ m' = m.reply req o := by
  obtain ⟨-, h⟩ := Option.ite_none_right_eq_some.mp h
  obtain ⟨o, hexec, rfl⟩ := Option.map_eq_some_iff.mp h
  exact ⟨o, hexec, rfl⟩

private theorem Opens.step (h : Opens tree m) (hstep : stepOver tree m e = some m')
    (hok : LeadsOn tree m e) : Opens tree m' := by
  rcases step_cases hstep with ⟨-, -, rfl⟩ | ⟨_, _, _, he, -⟩ | ⟨-, -, rfl⟩
  · exact h
  · cases e with
    | request env req =>
      obtain ⟨o, hexec, rfl⟩ := request_over hstep
      have hpath := opens_iff.mp h
      apply opens_iff.mpr
      change (resolve tree.start o.server.relativePath).isSome
      rcases relativePath_served (served hexec) with heq | ⟨command, auth, name, first, heq⟩
      · rw [heq]
        exact hpath
      · rw [heq]
        exact (resolve_append (resolve_ne_nil hpath)).mpr (hok command auth name first)
    | _ => cases he
  · exact h

private theorem Opens.lost (h : Opens tree m) (hstep : stepOver tree m e = some m')
    (hbad : ¬ LeadsOn tree m e) : ¬ Opens tree m' := by
  have hpath := opens_iff.mp h
  cases e with
  | request env req =>
    simp only [LeadsOn, not_forall] at hbad
    obtain ⟨command, auth, name, first, hnowhere⟩ := hbad
    obtain ⟨o, hexec, rfl⟩ := request_over hstep
    rw [opens_iff]
    change ¬ (resolve tree.start o.server.relativePath).isSome
    rw [relativePath_cwd hpath command auth first hexec, resolve_append (resolve_ne_nil hpath)]
    exact hnowhere
  | _ => exact absurd trivial hbad

end Steps

/-- relativePath keeps naming a directory, and opendir keeps succeeding, in exactly the runs in
which each CWD leads on from it to a directory. -/
theorem opens_iff_leads_on (tree : ServedTree) (events : List Event) :
    Runs.Visits (stepOver tree) (Opens tree) {} events ↔
      Runs.Along (stepOver tree) (LeadsOn tree) {} events := by
  apply Runs.visits_iff_along (I := Opens tree)
  · exact fun m e m' => Opens.step
  · exact fun m h => h
  · exact fun m e m' => Opens.lost
  · exact opens_iff.mpr rfl

/-- CWD to a name that does not exist is answered 226 and leaves relativePath nowhere. -/
theorem cwd_to_nowhere :
    ¬ ∀ tree events m, Runs.run (stepOver tree) {} events = some m → Opens tree m := by
  intro h
  let tree : ServedTree := ⟨[], [], ⟨[], []⟩, rfl⟩
  let env : Environment := ⟨fun _ => none, fun _ => 0, 0, 0, some 1⟩
  let events : List Event :=
    [.accept, .request env { command := "user".toList, body := userId },
      .request env { command := "pass".toList, body := userPassword },
      .request env { command := "cwd".toList, body := "nosuch".toList }]
  have hrun : (Runs.run (stepOver tree) {} events).map (·.server.relativePath) =
      some "./nosuch".toList := by decide
  obtain ⟨m, hm, hpath⟩ := Option.map_eq_some_iff.mp hrun
  have hopens := (h tree events m hm).1
  rw [hpath] at hopens
  exact absurd hopens (by decide)

end NetworkProtocol.Ftp
