import NetworkProtocol.Ftp.Main

/-! Which connection a login belongs to. QUIT resets authStatus, but neither accept nor a lost
connection does, so a client may find the server as the one before it left it. -/
namespace NetworkProtocol.Ftp
open CString Server

def identification : Exchange := ⟨.user, userId, 331⟩

def login : Exchange := ⟨.pass, userPassword, 230⟩

def LoggedOn (t : List Exchange) : Prop := [identification, login].Sublist t

def needsLogin : List Command := [.cwd, .type, .pasv, .port, .nlst, .retr]

def Privileged (e : Exchange) : Prop :=
  e.command ∈ needsLogin ∧ 200 ≤ e.status ∧ e.status < 300

/-- Each privileged exchange comes after a login among the same exchanges. -/
def Authorized (t : List Exchange) : Prop :=
  ∀ before e, before ++ [e] <+: t → Privileged e → LoggedOn before

def Isolated (m : Main) : Prop := ∀ t ∈ m.transcript :: m.past, Authorized t

def Reset (m : Main) : Event → Prop
  | .accept => m.server.authStatus = .notLoggedIn
  | _ => True

def IsRequest : Event → Prop
  | .request _ _ => True
  | _ => False

section Transcript
variable {t : List Exchange} {e : Exchange}

private theorem not_privileged {command : Command} {body : CString} {status : Int}
    (h : command ∉ needsLogin := by decide) : ¬ Privileged ⟨command, body, status⟩ :=
  fun he => h he.1

private theorem authorized_nil : Authorized [] := by
  intro before e hp
  simp at hp

private theorem authorized_concat :
    Authorized (t ++ [e]) ↔ Authorized t ∧ (Privileged e → LoggedOn t) := by
  constructor
  · intro h
    refine ⟨fun before e' hp => h before e' (hp.trans (List.prefix_append _ _)), ?_⟩
    exact h t e List.prefix_rfl
  · rintro ⟨h, he⟩ before e' hp
    rcases List.prefix_concat_iff.mp hp with heq | hp
    · obtain ⟨rfl, hlast⟩ := List.append_inj' heq rfl
      obtain rfl := List.head_eq_of_cons_eq hlast
      exact he
    · exact h before e' hp

private theorem LoggedOn.concat (h : LoggedOn t) : LoggedOn (t ++ [e]) :=
  h.trans (List.sublist_append_left t [e])

/-- A login needs two exchanges. -/
theorem not_authorized_of_short (he : Privileged e) (hshort : t.length < 2) :
    ¬ Authorized (t ++ [e]) := by
  intro h
  have hlen := ((authorized_concat.mp h).2 he).length_le
  simp only [List.length_cons, List.length_nil] at hlen
  omega

end Transcript

def Tracks (t : List Exchange) : AuthorizationStatus → Prop
  | .notLoggedIn => True
  | .needPassword => identification ∈ t
  | .loggedIn | .modeSelected => LoggedOn t

section Request
variable {env : Environment} {req : Message} {s : Server} {o : Outcome} {t : List Exchange}

private theorem Tracks.concat {e : Exchange} {status : AuthorizationStatus} (h : Tracks t status) :
    Tracks (t ++ [e]) status := by
  cases status with
  | notLoggedIn => trivial
  | needPassword => exact List.mem_append_left _ h
  | loggedIn => exact LoggedOn.concat h
  | modeSelected => exact LoggedOn.concat h

/-- Who may select a mode has logged on. -/
theorem Tracks.loggedOn (h : Tracks t s.authStatus)
    (auth : s.authStatus = .loggedIn ∨ s.authStatus = .modeSelected) : LoggedOn t := by
  rcases auth with auth | auth
  · rw [auth] at h
    exact h
  · rw [auth] at h
    exact h

/-- A request keeps authStatus in step with the exchanges, and is answered 2xx to a command
that needs a login only after one. -/
theorem tracks_served (h : Tracks t s.authStatus) (served : Served env req s o) :
    Tracks (t ++ [⟨interpret req.command, req.body, o.status⟩]) o.server.authStatus ∧
      (Privileged ⟨interpret req.command, req.body, o.status⟩ → LoggedOn t) := by
  cases served with
  | refused fileName status text reason error =>
    refine ⟨h.concat, fun hp => ?_⟩
    have hlt : status < 300 := hp.2.2
    omega
  | identified text command auth body =>
    rw [command, body]
    exact ⟨List.mem_concat_self, fun hp => absurd hp not_privileged⟩
  | loggedOn text command auth body =>
    rw [auth] at h
    rw [command, body]
    refine ⟨?_, fun hp => absurd hp not_privileged⟩
    exact (List.singleton_sublist.mpr h).append (List.Sublist.refl [login])
  | already text command auth =>
    rw [command]
    exact ⟨h.concat, fun hp => absurd hp not_privileged⟩
  | left text command =>
    rw [command]
    exact ⟨trivial, fun hp => absurd hp not_privileged⟩
  | moved relativePath text command auth change =>
    exact ⟨h.concat, fun _ => h.loggedOn (.inl auth)⟩
  | typed asciiMode text command auth =>
    exact ⟨h.concat, fun _ => h.loggedOn (.inl auth)⟩
  | passive text command auth =>
    have hlogged := h.loggedOn (.inl auth)
    exact ⟨hlogged.concat, fun _ => hlogged⟩
  | active address text command auth parsed =>
    have hlogged := h.loggedOn (.inl auth)
    exact ⟨hlogged.concat, fun _ => hlogged⟩
  | transferred s' status text starts joined success =>
    have hlogged := h.loggedOn (.inr starts.1)
    exact ⟨hlogged.concat, fun _ => hlogged⟩
  | failed s' text starts joined =>
    have hlogged := h.loggedOn (.inr starts.1)
    refine ⟨?_, fun _ => hlogged⟩
    change Tracks _ s'.authStatus
    rw [starts.authStatus]
    exact hlogged.concat

end Request

structure Sound (m : Main) : Prop where
  isolated : Isolated m
  tracks : m.connected = true → Tracks m.transcript m.server.authStatus
  fresh : m.connected = false → m.transcript = []

section Steps
variable {m : Main}

private theorem Sound.accept (h : Sound m) (hok : m.server.authStatus = .notLoggedIn) :
    Sound m.accept where
  isolated := h.isolated
  tracks := fun _ => by
    change Tracks m.transcript m.server.authStatus
    rw [hok]
    trivial
  fresh := nofun

private theorem Sound.reply (h : Sound m) {env : Environment} {req : Message} {o : Outcome}
    (hon : m.connected = true) (ho : execute env req m.server = some o) :
    Sound (m.reply req o) := by
  obtain ⟨htracks, hprivileged⟩ := tracks_served (h.tracks hon) (served ho)
  obtain ⟨hnow, hpast⟩ := List.forall_mem_cons.mp h.isolated
  refine ⟨?_, ?_, ?_⟩
  · exact List.forall_mem_cons.mpr ⟨authorized_concat.mpr ⟨hnow, hprivileged⟩, hpast⟩
  · exact fun _ => htracks
  · intro hoff
    exact absurd (hon.symm.trans hoff) (by decide)

private theorem Sound.recvError (h : Sound m) : Sound m.recvError where
  isolated := by
    obtain ⟨hnow, hpast⟩ := List.forall_mem_cons.mp h.isolated
    intro t ht
    rcases List.mem_cons.mp ht with rfl | ht
    · exact authorized_nil
    · rcases List.mem_append.mp ht with ht | ht
      · exact hpast t ht
      · exact List.mem_singleton.mp ht ▸ hnow
  tracks := nofun
  fresh := fun _ => rfl

end Steps

section Leftover
variable {m : Main}

private def transferring : Environment where
  opendir := fun _ => none
  beyondPorts := fun _ => 0
  createResult := 0
  createHandle := 0
  joinStatus := some 1

private theorem request_shows {env : Environment} {req : Message} {o : Outcome}
    (hon : m.connected = true) (hshort : m.transcript.length < 2)
    (ho : execute env req m.server = some o) (hcommand : interpret req.command ∈ needsLogin)
    (hstatus : 200 ≤ o.status ∧ o.status < 300) :
    step m (.request env req) = some (m.reply req o) ∧ ¬ Isolated (m.reply req o) := by
  refine ⟨by simp [step, hon, ho], fun h => ?_⟩
  have hprivileged : Privileged ⟨interpret req.command, req.body, o.status⟩ := ⟨hcommand, hstatus⟩
  exact not_authorized_of_short hprivileged hshort (h _ List.mem_cons_self)

private def givePassword : Message := { command := "pass".toList, body := userPassword }

private def setBinary : Message := { command := "type".toList, body := ['i'] }

private def listDirectory : Message := { command := "nlst".toList }

private theorem type_shows (hon : m.connected = true) (hshort : m.transcript.length < 2)
    (hauth : m.server.authStatus = .loggedIn) :
    ∃ m', step m (.request transferring setBinary) = some m' ∧ ¬ Isolated m' := by
  have ho : ∃ o, execute transferring setBinary m.server = some o ∧ o.status = 200 :=
    ⟨_, rfl, by simp [Server.type, setBinary, hauth]⟩
  obtain ⟨o, ho, hstatus⟩ := ho
  exact ⟨_, request_shows hon hshort ho (by decide) (by omega)⟩

private theorem nlst_shows (hon : m.connected = true) (hshort : m.transcript.length < 2)
    (hauth : m.server.authStatus = .modeSelected) :
    ∃ m', step m (.request transferring listDirectory) = some m' ∧ ¬ Isolated m' := by
  have ho : ∃ o, execute transferring listDirectory m.server = some o ∧ o.status = 226 := by
    refine ⟨_, if_neg (not_not.mpr hauth), ?_⟩
    rfl
  obtain ⟨o, ho, hstatus⟩ := ho
  exact ⟨_, request_shows hon hshort ho (by decide) (by omega)⟩

private theorem pass_logs_on (hon : m.connected = true)
    (hauth : m.server.authStatus = .needPassword) :
    ∃ o, step m (.request transferring givePassword) = some (m.reply givePassword o) ∧
      o.server.authStatus = .loggedIn := by
  have ho : ∃ o, execute transferring givePassword m.server = some o ∧
      o.server.authStatus = .loggedIn :=
    ⟨_, rfl, by simp [Server.pass, givePassword, answer, hauth]⟩
  obtain ⟨o, ho, hlogged⟩ := ho
  exact ⟨o, by simp [step, hon, ho], hlogged⟩

private theorem leftover_shows (h : Sound m) (hoff : m.connected = false)
    (hauth : m.server.authStatus ≠ .notLoggedIn) :
    ∃ w m', (∀ e ∈ w, IsRequest e) ∧ Runs.run step m.accept w = some m' ∧ ¬ Isolated m' := by
  have hnil : m.accept.transcript = [] := h.fresh hoff
  have hshort : m.accept.transcript.length < 2 := by simp [hnil]
  cases hstatus : m.server.authStatus with
  | notLoggedIn => exact absurd hstatus hauth
  | needPassword =>
    obtain ⟨o, hpass, hlogged⟩ := pass_logs_on (m := m.accept) rfl hstatus
    have hone : (m.accept.reply givePassword o).transcript.length < 2 := by
      simp [Main.reply, hnil]
    obtain ⟨m', htype, hn⟩ := type_shows (m := m.accept.reply givePassword o) rfl hone hlogged
    refine ⟨[.request transferring givePassword, .request transferring setBinary], m', ?_, ?_, hn⟩
    · simp [IsRequest]
    · simp [hpass, htype]
  | loggedIn =>
    obtain ⟨m', htype, hn⟩ := type_shows (m := m.accept) rfl hshort hstatus
    exact ⟨[.request transferring setBinary], m', by simp [IsRequest], by simp [htype], hn⟩
  | modeSelected =>
    obtain ⟨m', hnlst, hn⟩ := nlst_shows (m := m.accept) rfl hshort hstatus
    exact ⟨[.request transferring listDirectory], m', by simp [IsRequest], by simp [hnlst], hn⟩

end Leftover

/-- Sessions are isolated in every state of a run whose connections are all accepted in
NOTLOGGEDIN, and after any other the client connected can go on to break it. -/
theorem isolated_iff (events : List Event) :
    (Runs.Along step Reset {} events → Runs.Visits step Isolated {} events) ∧
    (Runs.Visits step (Runs.Henceforth step IsRequest Isolated) {} events ↔
      Runs.Along step Reset {} events) := by
  suffices hiff : _ from ⟨fun h => (hiff.mpr h).now, hiff⟩
  apply Runs.visits_henceforth_iff_along (I := Sound)
  · intro m e m' h hstep hok
    obtain ⟨rfl, -, rfl⟩ | ⟨env, req, o, rfl, hon, ho, rfl⟩ | ⟨rfl, -, rfl⟩ := step_cases hstep
    · exact h.accept hok
    · exact h.reply hon ho
    · exact h.recvError
  · exact fun m h => h.isolated
  · intro m e he
    cases e with
    | accept => exact he.elim
    | request env req => trivial
    | recvError => trivial
  · intro m e m' h hstep hbad
    obtain ⟨rfl, hoff, rfl⟩ | ⟨env, req, o, rfl, -⟩ | ⟨rfl, -⟩ := step_cases hstep
    · exact leftover_shows h hoff hbad
    · exact absurd trivial hbad
    · exact absurd trivial hbad
  · refine ⟨?_, ?_, ?_⟩
    · intro t ht
      rw [List.mem_singleton.mp ht]
      exact authorized_nil
    · exact nofun
    · exact fun _ => rfl

/-- The first client logs in and is lost without QUIT; the second one gives no name and no
password, and its TYPE is answered 200. -/
theorem login_outlives_connection :
    ¬ ∀ events m, Runs.run step {} events = some m → Isolated m := by
  intro h
  let events : List Event :=
    [.accept, .request transferring { command := "user".toList, body := userId },
      .request transferring givePassword, .recvError,
      .accept, .request transferring setBinary]
  have hrun : (Runs.run step {} events).map Main.transcript = some [⟨.type, ['i'], 200⟩] := by
    decide
  obtain ⟨m, hm, ht⟩ := Option.map_eq_some_iff.mp hrun
  have hauthorized := h events m hm m.transcript List.mem_cons_self
  rw [ht] at hauthorized
  have hprivileged : Privileged ⟨.type, ['i'], 200⟩ := ⟨by decide, by decide, by decide⟩
  exact not_authorized_of_short (t := []) hprivileged (by decide) hauthorized

end NetworkProtocol.Ftp
