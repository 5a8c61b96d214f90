import NetworkProtocol.Ftp.Main

/-! MODESELECTED against the data threads of the system. The two part company when
pthread_create fails unnoticed, when QUIT comes before the transfer, and when the joined
thread has failed. -/
namespace NetworkProtocol.Ftp
open CString Server

/-- MODESELECTED means that one data thread is not joined yet and dataThread names it; in the
other states there is none. -/
def OneThread (s : Server) : Prop :=
  (s.authStatus = .modeSelected ↔ ∃ port, s.unjoined = [⟨s.dataThread, port⟩]) ∧
    (s.authStatus ≠ .modeSelected → s.unjoined = [])

/-- An accepted PASV or PORT creates its thread, QUIT finds none, and a thread that NLST or
RETR joins has not failed. -/
def Tidy (env : Environment) (req : Message) (s : Server) : Prop :=
  match interpret req.command with
  | .quit => s.authStatus ≠ .modeSelected
  | .pasv => s.authStatus = .loggedIn → env.createResult = 0
  | .port => s.authStatus = .loggedIn → requested req.body ≠ none → env.createResult = 0
  | .nlst => s.authStatus = .modeSelected → env.joinStatus ≠ some 0
  | .retr => s.authStatus = .modeSelected →
    validDirectoryEntry env s.relativePath (tokens whitespace req.body).head? = some true →
      env.joinStatus ≠ some 0
  | _ => True

def TidyEvent (m : Main) : Event → Prop
  | .request env req => Tidy env req m.server
  | _ => True

section Request
variable {env : Environment} {req : Message} {s s' : Server} {o : Outcome}

private theorem oneThread_of_idle (h : s.authStatus ≠ .modeSelected) :
    OneThread s ↔ s.unjoined = [] := by
  constructor
  · exact fun hs => hs.2 h
  · intro hnil
    exact ⟨⟨fun hs => absurd hs h, fun ⟨port, hone⟩ => by simp [hnil] at hone⟩, fun _ => hnil⟩

private theorem oneThread_of_selected (h : s.authStatus = .modeSelected) :
    OneThread s ↔ ∃ port, s.unjoined = [⟨s.dataThread, port⟩] :=
  ⟨fun hs => hs.1.mp h, fun hone => ⟨⟨fun _ => hone, fun _ => h⟩, fun hs => absurd h hs⟩⟩

private theorem tidy_of_refused (h : Refused env req s) : Tidy env req s := by
  unfold Refused at h
  unfold Tidy
  cases command : interpret req.command <;> simp only [command] at h ⊢ <;> grind

private theorem oneThread_created {port : Int} (hnil : s.unjoined = []) :
    OneThread { s.create env port with authStatus := .modeSelected } ↔ env.createResult = 0 := by
  rw [oneThread_of_selected rfl]
  by_cases hcreate : env.createResult = 0
  · simp [create, hcreate, hnil]
  · simp [create, hcreate, hnil]

private theorem join_unjoined (h : OneThread s) (starts : Starts env req s s') :
    s'.join.unjoined = [] := by
  obtain ⟨auth, hs'⟩ := starts
  obtain ⟨port, hone⟩ := (oneThread_of_selected auth).mp h
  obtain ⟨-, rfl⟩ | ⟨-, name, -, -, rfl⟩ := hs' <;> simp [join, hone]

/-- A request keeps the two in step just when it is tidy. -/
theorem oneThread_served (h : OneThread s) (served : Served env req s o) :
    OneThread o.server ↔ Tidy env req s := by
  cases served with
  | refused fileName status text reason error => exact iff_of_true h (tidy_of_refused reason)
  | identified text command auth body =>
    have hnil := (oneThread_of_idle (by simp [auth])).mp h
    have htidy : Tidy env req s := by simp [Tidy, command]
    exact iff_of_true ((oneThread_of_idle (by simp)).mpr hnil) htidy
  | loggedOn text command auth body =>
    have hnil := (oneThread_of_idle (by simp [auth])).mp h
    have htidy : Tidy env req s := by simp [Tidy, command]
    exact iff_of_true ((oneThread_of_idle (by simp)).mpr hnil) htidy
  | already text command auth => exact iff_of_true h (by simp [Tidy, command])
  | left text command =>
    rw [oneThread_of_idle (by simp)]
    simp only [Tidy, command]
    constructor
    · intro hnil auth
      obtain ⟨port, hone⟩ := (oneThread_of_selected auth).mp h
      simp [hnil] at hone
    · exact h.2
  | moved relativePath text command auth change => exact iff_of_true h (by simp [Tidy, command])
  | typed asciiMode text command auth => exact iff_of_true h (by simp [Tidy, command])
  | passive text command auth =>
    have hnil := (oneThread_of_idle (by simp [auth])).mp h
    refine (oneThread_created (s := { s with portIdx := s.portIdx + 1 }) hnil).trans ?_
    simp [Tidy, command, auth]
  | active address text command auth parsed =>
    have hnil := (oneThread_of_idle (by simp [auth])).mp h
    refine (oneThread_created hnil).trans ?_
    simp [Tidy, command, auth, parsed]
  | transferred s' status text starts joined success =>
    refine iff_of_true ((oneThread_of_idle (by simp)).mpr (join_unjoined h starts)) ?_
    obtain ⟨-, ⟨command, -⟩ | ⟨command, -⟩⟩ := starts <;> simp [Tidy, command, joined, success]
  | failed s' text starts joined =>
    have hnil := join_unjoined h starts
    have hauth : s'.join.authStatus = .modeSelected := starts.authStatus
    rw [oneThread_of_selected hauth]
    obtain ⟨auth, ⟨command, -⟩ | ⟨command, name, first, valid, -⟩⟩ := starts
    · simp [Tidy, command, auth, joined, hnil]
    · simp [Tidy, command, auth, joined, hnil, first, valid]

end Request

/-- authStatus and the data threads agree in every state of a run just when its requests are
tidy. -/
theorem oneThread_iff (events : List Event) :
    Runs.Visits step (fun m => OneThread m.server) {} events ↔
      Runs.Along step TidyEvent {} events := by
  apply Runs.visits_iff_along (I := fun m => OneThread m.server)
  · intro m e m' h hstep hok
    obtain ⟨rfl, -, rfl⟩ | ⟨env, req, o, rfl, -, ho, rfl⟩ | ⟨rfl, -, rfl⟩ := step_cases hstep
    · exact h
    · exact (oneThread_served h (served ho)).mpr hok
    · exact h
  · exact fun m h => h
  · intro m e m' h hstep hbad
    obtain ⟨rfl, -, -⟩ | ⟨env, req, o, rfl, -, ho, rfl⟩ | ⟨rfl, -, -⟩ := step_cases hstep
    · exact absurd trivial hbad
    · exact fun hone => hbad ((oneThread_served h (served ho)).mp hone)
    · exact absurd trivial hbad
  · exact (oneThread_of_idle (by simp)).mpr rfl

/-- QUIT after PASV: the server is back at NOTLOGGEDIN and its data thread still waits. -/
theorem quit_leaves_thread :
    ¬ ∀ events m, Runs.run step {} events = some m → OneThread m.server := by
  intro h
  let env : Environment := ⟨fun _ => none, fun _ => 0, 0, 0, some 1⟩
  let events : List Event :=
    [.accept, .request env { command := "user".toList, body := userId },
      .request env { command := "pass".toList, body := userPassword },
      .request env { command := "pasv".toList }, .request env { command := "quit".toList }]
  have hrun : (Runs.run step {} events).map
      (fun m => (m.server.authStatus, m.server.unjoined)) =
        some (.notLoggedIn, [⟨1, 1025⟩]) := by decide
  obtain ⟨m, hm, hend⟩ := Option.map_eq_some_iff.mp hrun
  obtain ⟨hauth, hone⟩ := Prod.mk.inj hend
  have hnil := (h events m hm).2 (by rw [hauth]; decide)
  rw [hone] at hnil
  exact absurd hnil (by decide)

end NetworkProtocol.Ftp
