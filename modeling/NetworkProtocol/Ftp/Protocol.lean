import NetworkProtocol.Ftp.Discipline

/-! The protocol that execute speaks, as a table: for each state of the login the statuses a
command can be answered with, and where each of them leads. -/
namespace NetworkProtocol.Ftp
open CString Server

def answers : AuthorizationStatus → Command → List (Int × AuthorizationStatus)
  | .notLoggedIn, .user => [(331, .needPassword), (400, .notLoggedIn)]
  | auth, .user => [(400, auth)]
  | .notLoggedIn, .pass => [(400, .notLoggedIn)]
  | .needPassword, .pass => [(230, .loggedIn), (400, .needPassword)]
  | auth, .pass => [(200, auth)]
  | .modeSelected, .nlst => [(226, .loggedIn), (500, .modeSelected)]
  | .modeSelected, .retr => [(226, .loggedIn), (500, .modeSelected), (404, .modeSelected)]
  | auth, .nlst | auth, .retr => [(401, auth)]
  | .loggedIn, .cwd => [(226, .loggedIn), (500, .loggedIn)]
  | .loggedIn, .type => [(200, .loggedIn), (401, .loggedIn)]
  | .loggedIn, .pasv => [(227, .modeSelected)]
  | .loggedIn, .port => [(200, .modeSelected), (400, .loggedIn)]
  | auth, .cwd | auth, .type | auth, .pasv | auth, .port => [(401, auth)]
  | _, .quit => [(221, .notLoggedIn)]
  | auth, .unknown => [(404, auth)]

/-- The table as an automaton over commands and statuses. -/
def follow (auth : AuthorizationStatus) (spoken : Command × Int) : Option AuthorizationStatus :=
  (answers auth spoken.1).lookup spoken.2

def Exchange.spoken (e : Exchange) : Command × Int := (e.command, e.status)

/-- No status leads to two states. -/
theorem follow_iff {auth auth' : AuthorizationStatus} {command : Command} {status : Int} :
    follow auth (command, status) = some auth' ↔ (status, auth') ∈ answers auth command := by
  cases auth <;> cases command <;> simp [follow, answers, List.lookup_cons] <;> grind

section Answered
variable {env : Environment} {req : Message} {s : Server} {o : Outcome}

def Answered (s : Server) (command : Command) (o : Outcome) : Prop :=
  (o.status, o.server.authStatus) ∈ answers s.authStatus command

private theorem answered_user (body : CString) : Answered s .user (s.user body) := by
  unfold Answered Server.user
  cases auth : s.authStatus with
  | notLoggedIn =>
    by_cases hbody : body = userId <;> simp [hbody, answers, answer]
  | _ => simp [answers, answer, auth]

private theorem answered_pass (body : CString) : Answered s .pass (s.pass body) := by
  unfold Answered Server.pass
  cases auth : s.authStatus with
  | needPassword =>
    by_cases hbody : body = userPassword <;> simp [hbody, answers, answer, auth]
  | _ => simp [answers, answer, auth]

private theorem answered_transfer {command : Command} {subject : CString} {s' : Server}
    (auth : s'.authStatus = .modeSelected) (h : transfer env command subject s' = some o) :
    (o.status = 226 ∧ o.server.authStatus = .loggedIn) ∨
      (o.status = 500 ∧ o.server.authStatus = .modeSelected) := by
  obtain ⟨status, -, rfl⟩ := Option.map_eq_some_iff.mp h
  dsimp only
  split
  · exact .inr ⟨rfl, auth⟩
  · exact .inl ⟨rfl, rfl⟩

private theorem answered_nlst (h : s.nlst env = some o) : Answered s .nlst o := by
  unfold Answered
  rw [Server.nlst] at h
  split at h
  · rename_i auth
    obtain rfl := Option.some.inj h
    cases hauth : s.authStatus <;> simp_all [answers, selectModeFirst, answer]
  · rename_i auth
    have auth := not_not.mp auth
    rw [auth]
    rcases answered_transfer auth h with ⟨hstatus, hauth⟩ | ⟨hstatus, hauth⟩
    · simp [hstatus, hauth, answers]
    · simp [hstatus, hauth, answers]

private theorem answered_retr {body : CString} (h : s.retr env body = some o) :
    Answered s .retr o := by
  unfold Answered
  rw [Server.retr] at h
  split at h
  · rename_i auth
    obtain rfl := Option.some.inj h
    cases hauth : s.authStatus <;> simp_all [answers, selectModeFirst, answer]
  · rename_i auth
    have auth := not_not.mp auth
    rw [auth]
    dsimp only at h
    split at h
    · obtain rfl := Option.some.inj h
      simp [answers, auth]
    · have named : ({ s with fileName := (tokens whitespace body).head? } : Server).authStatus =
          .modeSelected := auth
      rcases answered_transfer named h with ⟨hstatus, hauth⟩ | ⟨hstatus, hauth⟩
      · simp [hstatus, hauth, answers]
      · simp [hstatus, hauth, answers]
    · cases h

private theorem answered_cwd {body : CString} (h : s.cwd env body = some o) :
    Answered s .cwd o := by
  unfold Answered
  rw [Server.cwd] at h
  split at h
  · rename_i auth
    obtain rfl := Option.some.inj h
    cases hauth : s.authStatus <;> simp_all [answers, loginFirst, answer]
  · rename_i auth
    have auth := not_not.mp auth
    split at h
    · cases h
    · obtain rfl := Option.some.inj h
      simp [answers, auth]
    · obtain rfl := Option.some.inj h
      simp [answers, auth]

private theorem answered_type (body : CString) : Answered s .type (s.type body) := by
  unfold Answered Server.type
  split
  · rename_i auth
    cases hauth : s.authStatus <;> simp_all [answers, loginFirst, answer]
  · rename_i auth
    have auth := not_not.mp auth
    split
    · split_ifs <;> simp [answers, auth]
    · simp [answers, auth]

private theorem answered_pasv (env : Environment) : Answered s .pasv (s.pasv env) := by
  unfold Answered Server.pasv
  split
  · rename_i auth
    cases hauth : s.authStatus <;> simp_all [answers, loginFirst, answer]
  · rename_i auth
    rw [selectMode_eq, not_not.mp auth]
    simp [answers]

private theorem answered_port (env : Environment) (body : CString) :
    Answered s .port (s.port env body) := by
  unfold Answered Server.port
  split
  · rename_i auth
    cases hauth : s.authStatus <;> simp_all [answers, loginFirst, answer]
  · rename_i auth
    have auth := not_not.mp auth
    split
    · simp [answers, answer, auth]
    · rw [selectMode_eq, auth]
      simp [answers]

/-- Whatever the system does meanwhile, execute answers by the table. -/
theorem answered (h : execute env req s = some o) :
    follow s.authStatus (exchange req o).spoken = some o.server.authStatus := by
  rw [Exchange.spoken, exchange, follow_iff]
  rw [execute] at h
  generalize interpret req.command = command at h ⊢
  cases command with
  | user => exact Option.some.inj h ▸ answered_user req.body
  | pass => exact Option.some.inj h ▸ answered_pass req.body
  | nlst => exact answered_nlst h
  | retr => exact answered_retr h
  | cwd => exact answered_cwd h
  | quit =>
    obtain rfl := Option.some.inj h
    simp [answers, quit, answer]
  | type => exact Option.some.inj h ▸ answered_type req.body
  | pasv => exact Option.some.inj h ▸ answered_pasv env
  | port => exact Option.some.inj h ▸ answered_port env req.body
  | unknown =>
    obtain rfl := Option.some.inj h
    cases hauth : s.authStatus <;> simp [answers, answer, hauth]

end Answered

section Reached
variable {s : Server}

def directoryOf (names : List CString) (joinStatus : Int) : Environment :=
  ⟨fun _ => some names, fun _ => 0, 0, 0, some joinStatus⟩

def word : Command → CString
  | .user => "user".toList
  | .pass => "pass".toList
  | .nlst => "nlst".toList
  | .pasv => "pasv".toList
  | .retr => "retr".toList
  | .cwd => "cwd".toList
  | .quit => "quit".toList
  | .type => "type".toList
  | .port => "port".toList
  | .unknown => []

def bodyFor : Command → Int → CString
  | .user, status => if status = 331 then userId else []
  | .pass, status => if status = 230 then userPassword else []
  | .retr, _ | .cwd, _ => ['a']
  | .type, status => if status = 200 then ['i'] else []
  | .port, status => if status = 400 then "1234".toList else []
  | _, _ => []

def systemFor (command : Command) (status : Int) : Environment :=
  directoryOf (if status = 404 ∨ status = 500 ∧ command = .cwd then [] else [['b']])
    (if status = 500 then 0 else 1)

def requestFor (command : Command) (status : Int) : Message :=
  ⟨0, word command, bodyFor command status⟩

private theorem interpret_word (command : Command) : interpret (word command) = command := by
  cases command <;> decide

private theorem tokens_a : tokens whitespace ['a'] = [['a']] :=
  tokens_word (by simp) (by simp [whitespace])

section Commands
variable {auth : AuthorizationStatus} {status : Int}

private theorem reached_user (h : (status, auth) ∈ answers s.authStatus .user) :
    (s.user (bodyFor .user status)).status = status ∧
      (s.user (bodyFor .user status)).server.authStatus = auth := by
  unfold Server.user
  by_cases fresh : s.authStatus = .notLoggedIn
  · rw [if_pos fresh]
    rw [fresh] at h
    simp only [answers, List.mem_cons, Prod.mk.injEq, List.not_mem_nil, or_false] at h
    rcases h with ⟨rfl, rfl⟩ | ⟨rfl, rfl⟩
    · have hbody : bodyFor .user 331 = userId := rfl
      rw [if_pos hbody]
      exact ⟨rfl, rfl⟩
    · rw [if_neg (by decide)]
      exact ⟨rfl, rfl⟩
  · rw [if_neg fresh]
    cases hauth : s.authStatus <;> simp [answers, hauth] at h <;> grind [answer]

private theorem reached_pass (h : (status, auth) ∈ answers s.authStatus .pass) :
    (s.pass (bodyFor .pass status)).status = status ∧
      (s.pass (bodyFor .pass status)).server.authStatus = auth := by
  unfold Server.pass
  cases hauth : s.authStatus with
  | needPassword =>
    simp only [hauth, answers, List.mem_cons, Prod.mk.injEq, List.not_mem_nil, or_false] at h ⊢
    rcases h with ⟨rfl, rfl⟩ | ⟨rfl, rfl⟩
    · have hbody : bodyFor .pass 230 = userPassword := rfl
      rw [if_pos hbody]
      exact ⟨rfl, rfl⟩
    · rw [if_neg (by decide)]
      exact ⟨rfl, hauth⟩
  | _ =>
    simp only [hauth, answers, List.mem_singleton, Prod.mk.injEq] at h
    exact ⟨h.1.symm, hauth.trans h.2.symm⟩

private theorem reached_transfer {command : Command} {env : Environment} {subject : CString}
    {s' : Server} (selected : s'.authStatus = .modeSelected)
    (joined : env.joinStatus = some (if status = 500 then 0 else 1))
    (h : (status = 226 ∧ auth = .loggedIn) ∨ (status = 500 ∧ auth = .modeSelected)) :
    ∃ o, transfer env command subject s' = some o ∧ o.status = status ∧
      o.server.authStatus = auth := by
  rw [transfer, joined]
  refine ⟨_, rfl, ?_⟩
  rcases h with ⟨rfl, rfl⟩ | ⟨rfl, rfl⟩
  · exact ⟨rfl, rfl⟩
  · exact ⟨rfl, selected⟩

private theorem reached_nlst (h : (status, auth) ∈ answers s.authStatus .nlst) :
    ∃ o, s.nlst (systemFor .nlst status) = some o ∧ o.status = status ∧
      o.server.authStatus = auth := by
  rw [Server.nlst]
  by_cases selected : s.authStatus = .modeSelected
  · rw [if_neg (not_not.mpr selected)]
    apply reached_transfer selected rfl
    simpa [answers, selected] using h
  · rw [if_pos selected]
    refine ⟨_, rfl, ?_⟩
    cases hauth : s.authStatus <;> simp [answers, hauth] at h <;>
      grind [selectModeFirst, answer]

private theorem reached_retr (h : (status, auth) ∈ answers s.authStatus .retr) :
    ∃ o, s.retr (systemFor .retr status) (bodyFor .retr status) = some o ∧ o.status = status ∧
      o.server.authStatus = auth := by
  rw [Server.retr]
  by_cases selected : s.authStatus = .modeSelected
  · rw [if_neg (not_not.mpr selected), bodyFor, tokens_a]
    rw [selected] at h
    simp only [answers, List.mem_cons, Prod.mk.injEq, List.not_mem_nil, or_false] at h
    rcases h with ⟨rfl, rfl⟩ | ⟨rfl, rfl⟩ | ⟨rfl, rfl⟩
    · exact reached_transfer selected rfl (.inl ⟨rfl, rfl⟩)
    · exact reached_transfer selected rfl (.inr ⟨rfl, rfl⟩)
    · exact ⟨_, rfl, rfl, selected⟩
  · rw [if_pos selected]
    refine ⟨_, rfl, ?_⟩
    cases hauth : s.authStatus <;> simp [answers, hauth] at h <;>
      grind [selectModeFirst, answer]

private theorem reached_cwd (h : (status, auth) ∈ answers s.authStatus .cwd) :
    ∃ o, s.cwd (systemFor .cwd status) (bodyFor .cwd status) = some o ∧ o.status = status ∧
      o.server.authStatus = auth := by
  rw [Server.cwd]
  by_cases logged : s.authStatus = .loggedIn
  · rw [if_neg (not_not.mpr logged), bodyFor, changeWorkingDirectory, tokens_a]
    rw [logged] at h
    simp only [answers, List.mem_cons, Prod.mk.injEq, List.not_mem_nil, or_false] at h
    rcases h with ⟨rfl, rfl⟩ | ⟨rfl, rfl⟩
    · exact ⟨_, rfl, rfl, logged⟩
    · exact ⟨_, rfl, rfl, logged⟩
  · rw [if_pos logged]
    refine ⟨_, rfl, ?_⟩
    cases hauth : s.authStatus <;> simp [answers, hauth] at h <;> grind [loginFirst, answer]

private theorem reached_type (h : (status, auth) ∈ answers s.authStatus .type) :
    (s.type (bodyFor .type status)).status = status ∧
      (s.type (bodyFor .type status)).server.authStatus = auth := by
  unfold Server.type
  by_cases logged : s.authStatus = .loggedIn
  · rw [if_neg (not_not.mpr logged)]
    rw [logged] at h
    simp only [answers, List.mem_cons, Prod.mk.injEq, List.not_mem_nil, or_false] at h
    rcases h with ⟨rfl, rfl⟩ | ⟨rfl, rfl⟩
    · exact ⟨rfl, logged⟩
    · exact ⟨rfl, logged⟩
  · rw [if_pos logged]
    cases hauth : s.authStatus <;> simp [answers, hauth] at h <;> grind [loginFirst, answer]

private theorem reached_pasv (env : Environment)
    (h : (status, auth) ∈ answers s.authStatus .pasv) :
    (s.pasv env).status = status ∧ (s.pasv env).server.authStatus = auth := by
  unfold Server.pasv
  by_cases logged : s.authStatus = .loggedIn
  · rw [if_neg (not_not.mpr logged), selectMode_eq]
    simp_all [answers]
  · rw [if_pos logged]
    cases hauth : s.authStatus <;> simp [answers, hauth] at h <;> grind [loginFirst, answer]

private theorem reached_port (env : Environment)
    (h : (status, auth) ∈ answers s.authStatus .port) :
    (s.port env (bodyFor .port status)).status = status ∧
      (s.port env (bodyFor .port status)).server.authStatus = auth := by
  have hempty : requested (bodyFor .port 200) = some {} := by decide
  have hlong : requested (bodyFor .port 400) = none := by decide
  unfold Server.port
  by_cases logged : s.authStatus = .loggedIn
  · rw [if_neg (not_not.mpr logged)]
    rw [logged] at h
    simp only [answers, List.mem_cons, Prod.mk.injEq, List.not_mem_nil, or_false] at h
    rcases h with ⟨rfl, rfl⟩ | ⟨rfl, rfl⟩
    · rw [hempty]
      dsimp only
      rw [selectMode_eq]
      exact ⟨rfl, rfl⟩
    · rw [hlong]
      exact ⟨rfl, logged⟩
  · rw [if_pos logged]
    cases hauth : s.authStatus <;> simp [answers, hauth] at h <;> grind [loginFirst, answer]

end Commands

/-- Every answer of the table is given to some request. -/
theorem reached {auth : AuthorizationStatus} {command : Command} {status : Int}
    (h : follow s.authStatus (command, status) = some auth) :
    ∃ o, execute (systemFor command status) (requestFor command status) s = some o ∧
      (exchange (requestFor command status) o).spoken = (command, status) ∧
      o.server.authStatus = auth := by
  suffices hexec : ∃ o, execute (systemFor command status) (requestFor command status) s =
      some o ∧ o.status = status ∧ o.server.authStatus = auth by
    obtain ⟨o, ho, hstatus, hauth⟩ := hexec
    refine ⟨o, ho, ?_, hauth⟩
    rw [Exchange.spoken, exchange, requestFor, interpret_word, hstatus]
  rw [follow_iff] at h
  rw [execute, requestFor, interpret_word]
  cases command with
  | user => exact ⟨_, rfl, reached_user h⟩
  | pass => exact ⟨_, rfl, reached_pass h⟩
  | nlst => exact reached_nlst h
  | retr => exact reached_retr h
  | cwd => exact reached_cwd h
  | quit =>
    refine ⟨_, rfl, ?_⟩
    cases hauth : s.authStatus <;> simp [answers, hauth] at h <;> grind [quit, answer]
  | type => exact ⟨_, rfl, reached_type h⟩
  | pasv => exact ⟨_, rfl, reached_pasv _ h⟩
  | port => exact ⟨_, rfl, reached_port _ h⟩
  | unknown =>
    refine ⟨_, rfl, ?_⟩
    cases hauth : s.authStatus <;> simp [answers, hauth] at h <;> grind [answer]

end Reached

section Runs
variable {h h' : Handled}

private theorem followed {requests : List (Environment × Message)}
    (hrun : Runs.run handle h requests = some h') : ∃ new, h'.trace = h.trace ++ new ∧
      Runs.run follow h.server.authStatus (new.map Exchange.spoken) =
        some h'.server.authStatus := by
  induction requests generalizing h with
  | nil =>
    obtain rfl := Option.some.inj hrun
    exact ⟨[], (List.append_nil _).symm, rfl⟩
  | cons r requests ih =>
    obtain ⟨h₁, hstep, hrun⟩ := Option.bind_eq_some_iff.mp hrun
    obtain ⟨o, hexec, rfl⟩ := Option.map_eq_some_iff.mp hstep
    obtain ⟨new, htrace, hfollow⟩ := ih hrun
    refine ⟨exchange r.2 o :: new, ?_, ?_⟩
    · rw [htrace, List.append_assoc]
      rfl
    · rw [List.map_cons, Runs.run_cons, answered hexec]
      exact hfollow

private theorem exists_spoken {spoken : List (Command × Int)} {auth : AuthorizationStatus}
    (hfollow : Runs.run follow h.server.authStatus spoken = some auth) :
    ∃ requests h' new, Runs.run handle h requests = some h' ∧ h'.trace = h.trace ++ new ∧
      new.map Exchange.spoken = spoken := by
  induction spoken generalizing h with
  | nil => exact ⟨[], h, [], rfl, (List.append_nil _).symm, rfl⟩
  | cons e spoken ih =>
    obtain ⟨command, status⟩ := e
    obtain ⟨auth₁, hone, hfollow⟩ := Option.bind_eq_some_iff.mp hfollow
    obtain ⟨o, hexec, hspoken, hauth⟩ := reached hone
    have hstep : handle h (systemFor command status, requestFor command status) =
        some ⟨o.server, h.trace ++ [exchange (requestFor command status) o]⟩ := by
      rw [handle, hexec, Option.map_some]
    obtain ⟨requests, h', new, hrun, htrace, hnew⟩ := @ih
      ⟨o.server, h.trace ++ [exchange (requestFor command status) o]⟩ (hauth ▸ hfollow)
    refine ⟨(systemFor command status, requestFor command status) :: requests, h',
      exchange (requestFor command status) o :: new, ?_, ?_, ?_⟩
    · rw [Runs.run_cons, hstep]
      exact hrun
    · rw [htrace, List.append_assoc]
      rfl
    · rw [List.map_cons, hspoken, hnew]

end Runs

/-- From any state of the globals, the conversations that execute can have, over all requests and
all a system may answer meanwhile, are those the table admits. -/
theorem spoken_iff (s : Server) (spoken : List (Command × Int)) :
    (∃ requests h, Runs.run handle { server := s } requests = some h ∧
      h.trace.map Exchange.spoken = spoken) ↔ (Runs.run follow s.authStatus spoken).isSome := by
  rw [Option.isSome_iff_exists]
  constructor
  · rintro ⟨requests, h, hrun, rfl⟩
    obtain ⟨new, htrace, hfollow⟩ := followed hrun
    rw [List.nil_append] at htrace
    exact ⟨h.server.authStatus, htrace ▸ hfollow⟩
  · rintro ⟨auth, hfollow⟩
    obtain ⟨requests, h, new, hrun, htrace, hspoken⟩ := exists_spoken (h := { server := s }) hfollow
    rw [List.nil_append] at htrace
    exact ⟨requests, h, hrun, htrace ▸ hspoken⟩

end NetworkProtocol.Ftp
