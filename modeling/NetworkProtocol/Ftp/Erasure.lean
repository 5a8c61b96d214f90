import NetworkProtocol.Library.Runs
import NetworkProtocol.Ftp.WriteSets

/-! What of the past a reply can depend on. The requests answered with an error, and those for a
transfer type, can be taken out of a run, and every other one is answered as before. -/
namespace NetworkProtocol.Ftp
open CString Server

/-- The three globals that replies are made from. -/
structure SameReplies (s t : Server) : Prop where
  authStatus : s.authStatus = t.authStatus
  relativePath : s.relativePath = t.relativePath
  portIdx : s.portIdx = t.portIdx

structure Told where
  request : Environment × Message
  sent : List Message
  status : Int
  responseMessage : CString

structure Talk where
  server : Server
  told : List Told := []

def tell (r : Environment × Message) (o : Outcome) : Told :=
  ⟨r, o.sent, o.status, o.responseMessage⟩

def Talk.step (k : Talk) (r : Environment × Message) : Option Talk :=
  (execute r.1 r.2 k.server).map (fun o => ⟨o.server, k.told ++ [tell r o]⟩)

/-- Neither an error nor an answer to TYPE. -/
def Told.lasts (e : Told) : Bool := e.status < 400 ∧ interpret e.request.2.command ≠ .type

/-- Outcomes that tell the client the same and leave the same behind. -/
structure SameOutcomes (o o' : Outcome) : Prop where
  server : SameReplies o.server o'.server
  sent : o.sent = o'.sent
  status : o.status = o'.status
  responseMessage : o.responseMessage = o'.responseMessage

section Same
variable {s t : Server} {env : Environment} {req : Message} {o : Outcome}

private theorem SameReplies.refl (s : Server) : SameReplies s s := ⟨rfl, rfl, rfl⟩

private theorem SameReplies.trans {u : Server} (h : SameReplies s t) (j : SameReplies t u) :
    SameReplies s u :=
  ⟨h.authStatus.trans j.authStatus, h.relativePath.trans j.relativePath,
    h.portIdx.trans j.portIdx⟩

private theorem same_of_not_lasts (h : execute env req s = some o)
    (hlasts : (tell (env, req) o).lasts = false) : SameReplies o.server s := by
  have hcases : 400 ≤ o.status ∨ interpret req.command = .type := by
    rcases not_and_or.mp (of_decide_eq_false hlasts) with herror | htype
    · exact .inl (Int.not_lt.mp herror)
    · exact .inr (not_not.mp htype)
  cases served h with
  | refused fileName status text reason error => exact ⟨rfl, rfl, rfl⟩
  | already text command auth => exact .refl s
  | typed asciiMode text command auth => exact ⟨rfl, rfl, rfl⟩
  | failed s' text starts joined =>
    have hvariables : s'.join.variables = s.variables := starts.variables
    exact ⟨congrArg SessionVariables.authStatus hvariables,
      congrArg SessionVariables.relativePath hvariables,
      congrArg SessionVariables.portIdx hvariables⟩
  | identified text command auth body => simp [command] at hcases
  | loggedOn text command auth body => simp [command] at hcases
  | left text command => simp [command] at hcases
  | moved relativePath text command auth change => simp [command] at hcases
  | passive text command auth => simp [command] at hcases
  | active address text command auth parsed => simp [command] at hcases
  | transferred s' status text starts joined success =>
    rcases starts.command with command | command <;> simp [command] at hcases

end Same

section Commands
variable {s t : Server} {env : Environment} {o : Outcome} (h : SameReplies s t)
include h

private theorem same_answer (status : Int) (text : String) :
    SameOutcomes (s.answer status text) (t.answer status text) := ⟨h, rfl, rfl, rfl⟩

private theorem same_auth (auth : AuthorizationStatus) :
    SameReplies { s with authStatus := auth } { t with authStatus := auth } :=
  ⟨rfl, h.relativePath, h.portIdx⟩

private theorem same_user (body : CString) : SameOutcomes (s.user body) (t.user body) := by
  unfold Server.user
  rw [h.authStatus]
  split_ifs
  · exact ⟨same_auth h _, rfl, rfl, rfl⟩
  · exact same_answer (same_auth h _) _ _
  · exact same_answer h _ _

private theorem same_pass (body : CString) : SameOutcomes (s.pass body) (t.pass body) := by
  unfold Server.pass
  rw [h.authStatus]
  split
  · exact same_answer h _ _
  · split_ifs
    · exact same_answer (same_auth h _) _ _
    · exact same_answer h _ _
  · exact same_answer h _ _
  · exact same_answer h _ _

private theorem same_transfer {command : Command} {subject : CString}
    (hexec : transfer env command subject s = some o) :
    ∃ o', transfer env command subject t = some o' ∧ SameOutcomes o o' := by
  obtain ⟨status, joined, rfl⟩ := Option.map_eq_some_iff.mp hexec
  refine ⟨_, by rw [transfer, joined]; rfl, ?_⟩
  dsimp only
  split_ifs
  · exact ⟨⟨h.authStatus, h.relativePath, h.portIdx⟩, rfl, rfl, rfl⟩
  · exact ⟨⟨rfl, h.relativePath, h.portIdx⟩, rfl, rfl, rfl⟩

private theorem same_nlst (hexec : s.nlst env = some o) :
    ∃ o', t.nlst env = some o' ∧ SameOutcomes o o' := by
  rw [Server.nlst, h.authStatus] at hexec
  rw [Server.nlst]
  split at hexec
  · rename_i auth
    obtain rfl := Option.some.inj hexec
    rw [if_pos auth]
    exact ⟨_, rfl, same_answer h _ _⟩
  · rename_i auth
    rw [if_neg auth, ← h.relativePath]
    exact same_transfer h hexec

private theorem same_retr {body : CString} (hexec : s.retr env body = some o) :
    ∃ o', t.retr env body = some o' ∧ SameOutcomes o o' := by
  rw [Server.retr, h.authStatus, h.relativePath] at hexec
  rw [Server.retr]
  split at hexec
  · rename_i auth
    obtain rfl := Option.some.inj hexec
    rw [if_pos auth]
    exact ⟨_, rfl, same_answer h _ _⟩
  · rename_i auth
    rw [if_neg auth]
    dsimp only at hexec ⊢
    split at hexec
    · rename_i name valid first
      obtain rfl := Option.some.inj hexec
      exact ⟨_, rfl, ⟨rfl, rfl, h.portIdx⟩, rfl, rfl, rfl⟩
    · have hnamed : SameReplies
          { s with
            authStatus := t.authStatus
            relativePath := t.relativePath
            fileName := (tokens whitespace body).head? }
          { t with fileName := (tokens whitespace body).head? } := ⟨rfl, rfl, h.portIdx⟩
      exact same_transfer hnamed hexec
    · cases hexec

private theorem same_cwd {body : CString} (hexec : s.cwd env body = some o) :
    ∃ o', t.cwd env body = some o' ∧ SameOutcomes o o' := by
  rw [Server.cwd, h.authStatus, h.relativePath] at hexec
  rw [Server.cwd]
  split at hexec
  · rename_i auth
    obtain rfl := Option.some.inj hexec
    rw [if_pos auth]
    exact ⟨_, rfl, same_answer h _ _⟩
  · rename_i auth
    rw [if_neg auth]
    split at hexec
    · cases hexec
    · obtain rfl := Option.some.inj hexec
      exact ⟨_, rfl, h, rfl, rfl, rfl⟩
    · obtain rfl := Option.some.inj hexec
      exact ⟨_, rfl, ⟨rfl, rfl, h.portIdx⟩, rfl, rfl, rfl⟩

private theorem same_type (body : CString) : SameOutcomes (s.type body) (t.type body) := by
  unfold Server.type
  rw [h.authStatus]
  split_ifs
  · exact same_answer h _ _
  · split
    · split_ifs
      · exact ⟨⟨rfl, h.relativePath, h.portIdx⟩, rfl, rfl, rfl⟩
      · exact ⟨⟨rfl, h.relativePath, h.portIdx⟩, rfl, rfl, rfl⟩
      · exact ⟨h, rfl, rfl, rfl⟩
    · exact ⟨h, rfl, rfl, rfl⟩

private theorem same_selectMode (env : Environment) (port status : Int) (text : CString) :
    SameOutcomes (selectMode env port status text s) (selectMode env port status text t) := by
  rw [selectMode_eq, selectMode_eq]
  refine ⟨⟨rfl, ?_, ?_⟩, rfl, rfl, rfl⟩
  · exact (create_relativePath env s port).trans
      (h.relativePath.trans (create_relativePath env t port).symm)
  · exact (create_portIdx env s port).trans (h.portIdx.trans (create_portIdx env t port).symm)

private theorem same_pasv (env : Environment) : SameOutcomes (s.pasv env) (t.pasv env) := by
  unfold Server.pasv
  rw [nextPort, nextPort, h.authStatus, h.portIdx]
  split_ifs
  · exact same_answer h _ _
  · refine same_selectMode ?_ env _ _ _
    exact ⟨rfl, h.relativePath, rfl⟩

private theorem same_port (env : Environment) (body : CString) :
    SameOutcomes (s.port env body) (t.port env body) := by
  unfold Server.port
  rw [h.authStatus]
  split_ifs
  · exact same_answer h _ _
  · split
    · exact same_answer h _ _
    · exact same_selectMode h env _ _ _

/-- execute answers alike from states that agree on the three. -/
theorem execute_same {req : Message} (hexec : execute env req s = some o) :
    ∃ o', execute env req t = some o' ∧ SameOutcomes o o' := by
  rw [execute] at hexec ⊢
  generalize interpret req.command = command at hexec ⊢
  cases command with
  | user => exact ⟨_, rfl, Option.some.inj hexec ▸ same_user h _⟩
  | pass => exact ⟨_, rfl, Option.some.inj hexec ▸ same_pass h _⟩
  | nlst => exact same_nlst h hexec
  | retr => exact same_retr h hexec
  | cwd => exact same_cwd h hexec
  | quit => exact ⟨_, rfl, Option.some.inj hexec ▸ same_answer (same_auth h _) _ _⟩
  | type => exact ⟨_, rfl, Option.some.inj hexec ▸ same_type h _⟩
  | pasv => exact ⟨_, rfl, Option.some.inj hexec ▸ same_pasv h _⟩
  | port => exact ⟨_, rfl, Option.some.inj hexec ▸ same_port h _ _⟩
  | unknown => exact ⟨_, rfl, Option.some.inj hexec ▸ same_answer h _ _⟩

end Commands

section Run
variable {k k' t : Talk}

private theorem tell_same {r : Environment × Message} {o o' : Outcome} (h : SameOutcomes o o') :
    tell r o = tell r o' := by
  rw [tell, tell, h.sent, h.status, h.responseMessage]

private theorem retold {requests : List (Environment × Message)}
    (hrun : Runs.run Talk.step k requests = some k') (h : SameReplies k.server t.server) :
    ∃ new t', k'.told = k.told ++ new ∧
      Runs.run Talk.step t ((new.filter Told.lasts).map Told.request) = some t' ∧
      t'.told = t.told ++ new.filter Told.lasts ∧ SameReplies k'.server t'.server := by
  induction requests generalizing k t with
  | nil =>
    obtain rfl := Option.some.inj hrun
    exact ⟨[], t, (List.append_nil _).symm, rfl, (List.append_nil _).symm, h⟩
  | cons r requests ih =>
    obtain ⟨k₁, hstep, hrun⟩ := Option.bind_eq_some_iff.mp hrun
    obtain ⟨o, hexec, rfl⟩ := Option.map_eq_some_iff.mp hstep
    cases hlasts : (tell r o).lasts with
    | false =>
      have hserver : SameReplies o.server t.server := (same_of_not_lasts hexec hlasts).trans h
      obtain ⟨new, t', htold, hshort, htold', hsame⟩ := ih hrun hserver
      refine ⟨tell r o :: new, t', ?_, ?_, ?_, hsame⟩
      · rw [htold, List.append_assoc]
        rfl
      · rwa [List.filter_cons_of_neg (by simp [hlasts])]
      · rwa [List.filter_cons_of_neg (by simp [hlasts])]
    | true =>
      obtain ⟨o', hexec', hsameOutcomes⟩ := execute_same h hexec
      have hstep' : t.step r = some ⟨o'.server, t.told ++ [tell r o]⟩ := by
        rw [Talk.step, hexec', tell_same hsameOutcomes]
        rfl
      obtain ⟨new, t', htold, hshort, htold', hsame⟩ := @ih _
        ⟨o'.server, t.told ++ [tell r o]⟩ hrun hsameOutcomes.server
      refine ⟨tell r o :: new, t', ?_, ?_, ?_, hsame⟩
      · rw [htold, List.append_assoc]
        rfl
      · rw [List.filter_cons_of_pos hlasts, List.map_cons, Runs.run_cons]
        exact (congrArg (Option.bind · _) hstep').trans hshort
      · rw [htold', List.filter_cons_of_pos hlasts, List.append_assoc]
        rfl

end Run

/-- Without the requests that were answered with an error, and without those for a transfer type,
a run goes on to its end, and every other request is answered to the letter as it was. -/
theorem errors_leave_no_trace {s : Server} {requests : List (Environment × Message)} {k : Talk}
    (hrun : Runs.run Talk.step { server := s } requests = some k) :
    ∃ k', Runs.run Talk.step { server := s } ((k.told.filter Told.lasts).map Told.request) =
      some k' ∧ k'.told = k.told.filter Told.lasts := by
  obtain ⟨new, k', htold, hshort, htold', -⟩ := retold (t := { server := s }) hrun (.refl s)
  rw [List.nil_append] at htold htold'
  subst htold
  exact ⟨k', hshort, htold'⟩

private def attempts : List (Environment × Message) :=
  let env : Environment := ⟨fun _ => none, fun _ => 0, 0, 0, some 1⟩
  [(env, ⟨0, "user".toList, userId⟩), (env, ⟨0, "pass".toList, []⟩),
    (env, ⟨0, "pass".toList, userPassword⟩), (env, ⟨0, "type".toList, ['i']⟩),
    (env, ⟨0, "pasv".toList, []⟩)]

/-- Two failed attempts change nothing. -/
theorem attempts_leave_no_trace : ∃ k k', Runs.run Talk.step { server := {} } attempts = some k ∧
    Runs.run Talk.step { server := {} } ((k.told.filter Told.lasts).map Told.request) = some k' ∧
      k'.told = k.told.filter Told.lasts := by
  obtain ⟨k, hrun⟩ : ∃ k, Runs.run Talk.step { server := {} } attempts = some k := ⟨_, rfl⟩
  obtain ⟨k', hshort, htold⟩ := errors_leave_no_trace hrun
  exact ⟨k, k', hrun, hshort, htold⟩

end NetworkProtocol.Ftp
