import NetworkProtocol.Ftp.Lockstep

/-! The data threads of the client against authStatus of the server. callback creates a thread
for every reply to PASV and PORT, an error included, and a transfer that fails on the server
leaves MODESELECTED behind without a thread. -/
namespace NetworkProtocol.Ftp
open CString

/-- Whenever the client prompts, it has one data thread not yet joined in MODESELECTED and none
in the other states. -/
def Agrees (s : System) : Prop :=
  s.client.phase = .prompting → ∀ server, s.serving = .receiving server →
    s.client.unjoined.length = if server.authStatus = .modeSelected then 1 else 0

/-- A transfer's data thread does not fail; callback's pthread_create succeeds on a 2xx reply
and fails on any other, and then leaves dataThread naming the thread there is. -/
def Tallied (s : System) : Action → Prop
  | .serve env joinStatus => ∀ server req rest, s.serving = .receiving server →
      s.requests = req :: rest → s.client.phase = .receiving →
      startsTransfer { env with joinStatus := some joinStatus } req server = true → joinStatus ≠ 0
  | .create createResult createHandle => ∀ server res, s.serving = .receiving server →
      s.client.phase = .creating res →
      if extractClass res.status = 2 then createResult = 0
      else createResult ≠ 0 ∧ (s.client.unjoined ≠ [] → createHandle = s.client.dataThread)
  | _ => True

/-- Requests that go through whole, and no thread created. -/
def GoesThrough : Action → Prop
  | .serve _ joinStatus => joinStatus ≠ 0
  | .create _ _ | .serverExits | .clientExits => False
  | _ => True

/-- The client's threads for a server whose status is auth, dataThread naming the one. -/
def InStep (auth : AuthorizationStatus) (c : Client) : Prop :=
  c.unjoined = if auth = .modeSelected then [c.dataThread] else []

def Due (auth : AuthorizationStatus) (c : Client) : Phase → Prop
  | .receiving | .prompting => InStep auth c
  | .creating res =>
    if extractClass res.status = 2 then c.unjoined = [] ∧ auth = .modeSelected else InStep auth c
  | .joining => c.unjoined = [c.dataThread] ∧ auth ≠ .modeSelected
  | .finishing => c.unjoined = [] ∧ auth ≠ .modeSelected
  | .exited => True

namespace System
variable (s : System)

def authStatus : Option AuthorizationStatus :=
  match s.serving with
  | .receiving server => some server.authStatus
  | .answering o _ => some o.server.authStatus
  | .ended => none

def heading : Phase :=
  match s.client.phase, s.owed with
  | .receiving, r :: _ => callback s.client.sentCommand r.message
  | phase, _ => phase

end System

structure Paired (s : System) : Prop where
  steady : Steady s
  due : ∀ auth, s.authStatus = some auth → Due auth s.client s.heading

section Request
variable {env : Environment} {req : Message} {server : Server} {o : Outcome} {c : Client}

private theorem due_phase {auth : AuthorizationStatus} (phase : Phase) {target : Phase} :
    Due auth { c with phase := phase } target ↔ Due auth c target := by
  cases target <;> exact Iff.rfl

private theorem inStep_idle {auth : AuthorizationStatus} (hauth : auth ≠ .modeSelected) :
    InStep auth c ↔ c.unjoined = [] := by rw [InStep, if_neg hauth]

private theorem inStep_selected : InStep .modeSelected c ↔ c.unjoined = [c.dataThread] := by
  rw [InStep, if_pos rfl]

def openingReply (env : Environment) (req : Message) (server : Server) (o : Outcome) : Message :=
  if startsTransfer env req server then newMessage 150 []
  else newMessage o.status o.responseMessage

private theorem due_refused {status : Int} {text : CString} {command : Command}
    (h : InStep server.authStatus c) (error : 400 ≤ status) :
    Due server.authStatus c (callback command (newMessage status text)) := by
  have hclass : extractClass status ≠ 1 ∧ extractClass status ≠ 2 := by
    rw [extractClass, Int.tdiv_eq_ediv_of_nonneg (by omega)]
    omega
  cases command <;> simp [callback, newMessage, hclass, Due, h]

/-- A request whose transfer does not fail leads the client to where the server is. -/
theorem due_served (h : InStep server.authStatus c) (served : Served env req server o)
    (hjoined : startsTransfer env req server = true → env.joinStatus ≠ some 0) :
    Due o.server.authStatus c
      (callback (interpret req.command) (openingReply env req server o)) := by
  cases served with
  | refused fileName status text reason error =>
    rw [openingReply, not_startsTransfer_of_refused reason]
    exact due_refused h error
  | identified text command auth body =>
    rw [auth, inStep_idle (by simp)] at h
    rw [command]
    exact (inStep_idle (by simp)).mpr h
  | loggedOn text command auth body =>
    rw [auth, inStep_idle (by simp)] at h
    rw [command]
    exact (inStep_idle (by simp)).mpr h
  | already text command auth =>
    rw [command]
    exact h
  | left text command =>
    rw [command]
    trivial
  | moved relativePath text command auth change =>
    rw [command]
    exact h
  | typed asciiMode text command auth =>
    rw [command]
    exact h
  | passive text command auth =>
    rw [auth, inStep_idle (by simp)] at h
    simp [openingReply, startsTransfer, auth, command, callback, newMessage, Due, extractClass, h]
  | active address text command auth parsed =>
    rw [auth, inStep_idle (by simp)] at h
    simp [openingReply, startsTransfer, auth, command, callback, newMessage, Due, extractClass, h]
  | transferred s' status text starts joined success =>
    have hstarts := startsTransfer_of_starts starts
    rw [starts.1, inStep_selected] at h
    rw [openingReply, if_pos hstarts, callback_of_startsTransfer hstarts]
    exact ⟨h, by simp⟩
  | failed s' text starts joined =>
    exact absurd joined (hjoined (startsTransfer_of_starts starts))

end Request

section Steps
variable {s s' : System} {a : Action}

/-- The first reply that a request leads to. -/
theorem owed_head_serve {env : Environment} {server : Server} {req : Message} {o : Outcome}
    (hreplies : s.replies = []) (served : Served env req server o) :
    ∃ r rest, (s.serve [] o (startsTransfer env req server)).owed = r :: rest ∧
      r.message = openingReply env req server o := by
  rw [openingReply, System.owed]
  simp only [System.serve, System.tagged, hreplies, sent_of_served served, List.nil_append]
  split
  · exact ⟨_, _, rfl, rfl⟩
  · exact ⟨_, _, rfl, rfl⟩

/-- A server at recv with a request before it: the client waits for the answer. -/
theorem Steady.asking (h : Steady s) (hphase : s.client.phase ≠ .exited) {server : Server}
    {req : Message} {rest : List Message} (hserving : s.serving = .receiving server)
    (hrequests : s.requests = req :: rest) :
    rest = [] ∧ s.replies = [] ∧ s.client.phase = .receiving ∧
      interpret req.command = s.client.sentCommand := by
  have halive : s.serving ≠ .ended := by simp [hserving]
  rcases h.converses.resolve_left hphase with
    ⟨lost, hlost, -⟩ | ⟨_, req', -, hrequests', hnil, hrec⟩
  · rw [(hlost halive).2] at hrequests
    cases hrequests
  · obtain ⟨rfl, rfl⟩ := List.cons.inj (hrequests.symm.trans hrequests')
    obtain ⟨before, hasked, -⟩ := h.aligned halive
    rw [hrequests] at hasked
    exact ⟨rfl, hnil, hrec, h.recorded before req hasked⟩

/-- At pthread_create the server owes nothing, and no request is on its way. -/
theorem Steady.creating (h : Steady s) {res : Message} (hphase : s.client.phase = .creating res) :
    s.owed = [] ∧ (s.serving ≠ .ended → s.requests = []) := by
  rcases h.converses with hexited | ⟨lost, hlost, hawaits⟩ | ⟨_, _, -, -, -, hphase'⟩
  · simp [hphase] at hexited
  · rw [Awaits, hphase] at hawaits
    exact ⟨(List.append_eq_nil_iff.mp hawaits).1, fun halive => (hlost halive).2⟩
  · simp [hphase] at hphase'

/-- Outside recv the client is where it heads. -/
theorem heading_of_phase {phase : Phase} (hphase : s.client.phase = phase)
    (h : phase ≠ .receiving := by simp) : s.heading = phase := by
  rw [System.heading]
  split
  · rename_i hrec _
    exact absurd (hphase.symm.trans hrec) h
  · exact hphase

/-- At recv it heads for what the next reply makes callback do. -/
theorem heading_of_owed (hphase : s.client.phase = .receiving) {r : Reply} {rest : List Reply}
    (howed : s.owed = r :: rest) : s.heading = callback s.client.sentCommand r.message := by
  rw [System.heading, hphase, howed]

/-- Without a reply it stays where it is. -/
theorem heading_of_nothing (howed : s.owed = []) : s.heading = s.client.phase := by
  rw [System.heading, howed]
  cases s.client.phase <;> rfl

/-- After pthread_create the client prompts, whatever came of it. -/
theorem create_phase (c : Client) (createResult : Nat) (createHandle : Thread) :
    (c.create createResult createHandle).phase = .prompting := by
  rw [Client.create]
  split <;> rfl

/-- A server that is there and owes nothing is at recv. -/
theorem serving_of_status {auth : AuthorizationStatus} (howed : s.owed = [])
    (hauth : s.authStatus = some auth) :
    ∃ server, s.serving = .receiving server ∧ server.authStatus = auth := by
  rw [System.owed] at howed
  rw [System.authStatus] at hauth
  rcases hserving : s.serving with server | ⟨o, started⟩ | _
  · simp only [hserving] at hauth
    exact ⟨server, rfl, Option.some.inj hauth⟩
  · simp [hserving] at howed
  · simp [hserving] at hauth

private theorem due_serve {env : Environment} {server : Server} {req : Message}
    {rest : List Message} {o : Outcome} (h : Paired s) (hserving : s.serving = .receiving server)
    (hrequests : s.requests = req :: rest) (served : Served env req server o)
    (hjoined : s.client.phase = .receiving → startsTransfer env req server = true →
      env.joinStatus ≠ some 0) :
    Due o.server.authStatus s.client (s.serve rest o (startsTransfer env req server)).heading := by
  rcases Classical.em (s.client.phase = .exited) with hexited | halive
  · rw [heading_of_phase (s := s.serve _ _ _) hexited]
    trivial
  · obtain ⟨rfl, hreplies, hphase, hcommand⟩ := h.steady.asking halive hserving hrequests
    have hdue := h.due server.authStatus (by rw [System.authStatus, hserving])
    have howed : s.owed = [] := by rw [System.owed, hserving, hreplies]
    rw [heading_of_nothing howed, hphase] at hdue
    obtain ⟨r, rest, howed', hr⟩ := owed_head_serve hreplies served
    rw [heading_of_owed (s := s.serve _ _ _) hphase howed', hr]
    simp only [System.serve, ← hcommand]
    exact due_served hdue served (hjoined hphase)

private theorem inStep_create {auth : AuthorizationStatus} {c : Client} {res : Message}
    (hdue : Due auth c (.creating res)) (createResult : Nat) (createHandle : Thread) :
    InStep auth (c.create createResult createHandle) ↔
      if extractClass res.status = 2 then createResult = 0
      else createResult ≠ 0 ∧ (c.unjoined ≠ [] → createHandle = c.dataThread) := by
  rw [Due] at hdue
  rw [Client.create]
  rcases eq_or_ne (extractClass res.status) 2 with hclass | hclass
  · rw [if_pos hclass] at hdue ⊢
    obtain ⟨hnil, rfl⟩ := hdue
    rw [inStep_selected]
    split
    · rename_i hresult
      simp [hnil, hresult]
    · rename_i hresult
      simp [hnil, hresult]
  · rw [if_neg hclass] at hdue ⊢
    rcases eq_or_ne auth .modeSelected with rfl | hauth
    · rw [inStep_selected] at hdue ⊢
      split
      · rename_i hresult
        simp [hdue, hresult]
      · rename_i hresult
        simp [hdue, hresult, eq_comm]
    · rw [inStep_idle hauth] at hdue ⊢
      split
      · rename_i hresult
        simp [hdue, hresult]
      · rename_i hresult
        simp [hdue, hresult]

/-- A tallied step keeps the threads in step with the mode. -/
theorem paired_step (h : Paired s) (hok : Tallied s a) (hstep : Stepped s a s') : Paired s' := by
  refine ⟨steady_step h.steady hstep, ?_⟩
  intro auth hauth
  cases hstep with
  | asked userInput command req phase line =>
    have howed := h.steady.unread phase
    have hdue := h.due auth hauth
    rw [heading_of_nothing howed, phase] at hdue
    rw [heading_of_nothing (s := s.ask command req) howed]
    exact hdue
  | askedAgain userInput phase => exact h.due auth hauth
  | served env joinStatus server req rest o serving requests outcome =>
    obtain rfl := Option.some.inj hauth
    refine due_serve h serving requests outcome (fun hphase hstarts hzero => ?_)
    exact hok server req rest serving requests hphase hstarts (Option.some.inj hzero)
  | replied o started serving =>
    have hauth' : s.authStatus = some auth := by
      rw [System.authStatus, serving]
      exact hauth
    have hheading : (s.reply o started).heading = s.heading := by
      rw [System.heading, System.heading, owed_reply serving]
      rfl
    rw [hheading]
    exact h.due auth hauth'
  | dispatched r rest phase replies =>
    have howed : s.owed = r :: (s.dispatch r rest).owed := owed_of_replies replies rfl rfl rfl
    have hdue := h.due auth hauth
    rw [heading_of_owed phase howed] at hdue
    rw [heading_of_phase (s := s.dispatch r rest) rfl callback_phases.1]
    exact (due_phase _).mpr hdue
  | finished r rest phase replies =>
    have hdue := h.due auth hauth
    rw [heading_of_phase phase] at hdue
    have hheading : (s.finish rest).heading = .prompting := heading_of_phase rfl
    rw [hheading]
    exact (inStep_idle hdue.2).mpr hdue.1
  | dispatchedZeros phase replies serving =>
    simp [System.authStatus, System.goTo, serving] at hauth
  | finishedNothing phase replies serving =>
    simp [System.authStatus, System.goTo, serving] at hauth
  | created createResult createHandle res phase =>
    have howed := (h.steady.creating phase).1
    have hdue := h.due auth hauth
    rw [heading_of_nothing howed, phase] at hdue
    have hheading : ({ s with client := s.client.create createResult createHandle } :
        System).heading = .prompting := heading_of_phase (create_phase _ _ _)
    rw [hheading]
    obtain ⟨server, hserving, -⟩ := serving_of_status howed hauth
    exact (inStep_create hdue createResult createHandle).mpr (hok server res hserving phase)
  | joined phase =>
    have hdue := h.due auth hauth
    rw [heading_of_phase phase] at hdue
    have hheading : ({ s with client := s.client.join } : System).heading = .finishing :=
      heading_of_phase rfl
    rw [hheading]
    refine ⟨?_, hdue.2⟩
    simp [Client.join, hdue.1]
  | broken env joinStatus server req rest serving requests outcome => cases hauth
  | serverExited => cases hauth
  | clientExited =>
    have hheading : (s.goTo .exited).heading = .exited := heading_of_phase rfl
    rw [hheading]
    trivial

private theorem Paired.agrees (h : Paired s) : Agrees s := by
  intro hphase server hserving
  have hdue := h.due server.authStatus (by rw [System.authStatus, hserving])
  rw [heading_of_phase hphase] at hdue
  have hunjoined : s.client.unjoined = if server.authStatus = .modeSelected then
      [s.client.dataThread] else [] := hdue
  rw [hunjoined]
  split <;> rfl

end Steps

section Disagreement
variable {s t : System}

private theorem transfer_goes_through {o : Outcome} {started : Bool} {r : Reply}
    (hphase : t.client.phase = .receiving) (hserving : t.serving = .answering o started)
    (hreplies : t.replies = [r]) (hcall : callback t.client.sentCommand r.message = .joining) :
    ∃ t', Runs.run System.step t [.receive, .join, .reply, .receive] = some t' ∧
      t'.client.phase = .prompting ∧ t'.serving = .receiving o.server ∧
      t'.client.unjoined = t.client.unjoined.filter (· ≠ t.client.dataThread) := by
  have hreceive : t.step .receive = some (t.dispatch r []) := by
    simp [System.step, System.receive, hphase, hreplies]
  have hjoin : (t.dispatch r []).step .join =
      some { t.dispatch r [] with client := (t.dispatch r []).client.join } := by
    simp [System.step, System.dispatch, System.goTo, hcall]
  generalize hmiddle : ({ t.dispatch r [] with client := (t.dispatch r []).client.join } :
    System) = m at hjoin
  have hreply : m.step .reply = some (m.reply o started) := by
    subst hmiddle
    simp [System.step, System.dispatch, System.goTo, hserving]
  have hfinish : (m.reply o started).step .receive = some ((m.reply o started).finish []) := by
    subst hmiddle
    simp [System.step, System.receive, System.reply, System.dispatch, System.goTo, Client.join]
  refine ⟨(m.reply o started).finish [], ?_, rfl, rfl, ?_⟩
  · simp only [Runs.run_cons, Runs.run_nil, hreceive, hjoin, hreply, hfinish, Option.bind_some]
  · subst hmiddle
    rfl

private theorem not_tallied_serve {env : Environment} {joinStatus : Int} {server : Server}
    {req : Message} {rest : List Message} (hserving : s.serving = .receiving server)
    (hrequests : s.requests = req :: rest) (h : ¬ Tallied s (.serve env joinStatus)) :
    s.client.phase = .receiving ∧
      startsTransfer { env with joinStatus := some joinStatus } req server = true ∧
      joinStatus = 0 := by
  simp only [Tallied, not_forall, not_not] at h
  obtain ⟨server', req', rest', hserving', hrequests', hphase, hstarts, hzero⟩ := h
  obtain rfl := Serving.receiving.inj (hserving.symm.trans hserving')
  obtain ⟨rfl, rfl⟩ := List.cons.inj (hrequests.symm.trans hrequests')
  exact ⟨hphase, hstarts, hzero⟩

private theorem not_tallied_create {createResult : Nat} {createHandle : Thread} {res : Message}
    (hphase : s.client.phase = .creating res)
    (h : ¬ Tallied s (.create createResult createHandle)) :
    ∃ server, s.serving = .receiving server ∧
      ¬ if extractClass res.status = 2 then createResult = 0
        else createResult ≠ 0 ∧ (s.client.unjoined ≠ [] → createHandle = s.client.dataThread) := by
  simp only [Tallied, not_forall] at h
  obtain ⟨server, res', hserving, hphase', h⟩ := h
  obtain rfl := Phase.creating.inj (hphase.symm.trans hphase')
  exact ⟨server, hserving, h⟩

/-- Where a data thread comes to its end, execute returns. -/
theorem executes_of_startsTransfer {env : Environment} {req : Message} {server : Server}
    {status : Int} (hstarts : startsTransfer env req server = true)
    (hjoined : env.joinStatus = some status) : execute env req server ≠ none := by
  simp only [startsTransfer, Bool.and_eq_true, decide_eq_true_eq] at hstarts
  obtain ⟨auth, hcommand⟩ := hstarts
  rw [execute]
  generalize interpret req.command = command at hcommand
  cases command with
  | nlst =>
    change Server.nlst env server ≠ none
    rw [Server.nlst, if_neg (not_not.mpr auth), Server.transfer, hjoined]
    exact Option.some_ne_none _
  | retr =>
    change Server.retr env server req.body ≠ none
    cases hfirst : (tokens whitespace req.body).head? with
    | none =>
      simp only [hfirst, validDirectoryEntry] at hcommand
      split at hcommand <;> simp_all
    | some name =>
      simp only [hfirst, decide_eq_true_eq] at hcommand
      rw [Server.retr, if_neg (not_not.mpr auth)]
      simp only [hfirst, hcommand, Server.transfer, hjoined]
      exact Option.some_ne_none _
  | _ => simp at hcommand

private theorem transfer_harmless :
    ∀ b ∈ [Action.receive, .join, .reply, .receive], GoesThrough b := by
  simp [GoesThrough]

private theorem failed_status {env : Environment} {server : Server} {req : Message} {o : Outcome}
    (served : Served env req server o) (hstarts : startsTransfer env req server = true)
    (hjoined : env.joinStatus = some 0) : o.server.authStatus = .modeSelected := by
  cases served with
  | refused fileName status text reason error =>
    rw [not_startsTransfer_of_refused reason] at hstarts
    cases hstarts
  | transferred s' status text starts joined success =>
    rw [hjoined] at joined
    exact absurd (Option.some.inj joined).symm success
  | failed s' text starts joined => exact starts.authStatus
  | _ => simp [startsTransfer, *] at hstarts

private theorem failure_shows {env : Environment} {server : Server} {req : Message}
    {rest : List Message} {o : Outcome} (h : Paired s) (halive : s.client.phase ≠ .exited)
    (hserving : s.serving = .receiving server)
    (hrequests : s.requests = req :: rest) (served : Served env req server o)
    (hstarts : startsTransfer env req server = true) (hjoined : env.joinStatus = some 0) :
    ∃ w t, (∀ b ∈ w, GoesThrough b) ∧
      Runs.run System.step (s.serve rest o (startsTransfer env req server)) w = some t ∧
      ¬ Agrees t := by
  obtain ⟨rfl, hreplies, hphase, hcommand⟩ := h.steady.asking halive hserving hrequests
  have hauth : server.authStatus = .modeSelected := by
    simp only [startsTransfer, Bool.and_eq_true, decide_eq_true_eq] at hstarts
    exact hstarts.1
  have hdue := h.due server.authStatus (by rw [System.authStatus, hserving])
  rw [heading_of_nothing (by rw [System.owed, hserving, hreplies]), hphase, hauth] at hdue
  have hone := inStep_selected.mp hdue
  have hcall : callback s.client.sentCommand (newMessage 150 []) = .joining := by
    rw [← hcommand]
    exact callback_of_startsTransfer hstarts
  obtain ⟨t, hrun, hprompt, hreceiving, hunjoined⟩ :=
    transfer_goes_through (t := s.serve [] o (startsTransfer env req server))
      (r := ⟨newMessage 150 [], s.served + 1, 0⟩) hphase rfl
      (by simp [System.serve, System.tagged, hreplies, sent_of_served served, hstarts]) hcall
  refine ⟨_, t, transfer_harmless, hrun, fun hagrees => ?_⟩
  have hlen := hagrees hprompt o.server hreceiving
  rw [if_pos (failed_status served hstarts hjoined), hunjoined] at hlen
  simp [System.serve, hone] at hlen

private def succeeding : Environment := ⟨fun _ => none, fun _ => 0, 0, 0, some 1⟩

private def listing : Message := { command := "nlst".toList }

private theorem prompt_shows {server : Server} (hphase : s.client.phase = .prompting)
    (hserving : s.serving = .receiving server) (hreplies : s.replies = [])
    (hrequests : s.requests = []) (hout : ¬ InStep server.authStatus s.client) :
    ∃ w t, (∀ b ∈ w, GoesThrough b) ∧ Runs.run System.step s w = some t ∧ ¬ Agrees t := by
  rcases Classical.em (s.client.unjoined.length =
    if server.authStatus = .modeSelected then 1 else 0) with hlen | hlen
  · -- one thread in MODESELECTED, but dataThread does not name it
    rcases eq_or_ne server.authStatus .modeSelected with hauth | hauth
    · rw [if_pos hauth] at hlen
      obtain ⟨thread, hone⟩ := List.length_eq_one_iff.mp hlen
      rw [hauth, inStep_selected, hone] at hout
      have hne : thread ≠ s.client.dataThread := fun heq => hout (by rw [heq])
      obtain ⟨o, hexec, hsent, hlogged⟩ : ∃ o, execute succeeding listing server = some o ∧
          o.sent = [newMessage 150 []] ∧ o.server.authStatus = .loggedIn :=
        ⟨_, if_neg (not_not.mpr hauth), rfl, rfl⟩
      have hask : s.step (.ask "nlst".toList) = some (s.ask .nlst listing) := by
        have hline : request "nlst".toList = some (.nlst, listing) := by decide
        simp only [System.step, hphase, hline]
      have hserve : (s.ask .nlst listing).step (.serve succeeding 1) =
          some ((s.ask .nlst listing).serve [] o (startsTransfer succeeding listing server)) := by
        simp only [System.step, System.ask, hserving, hrequests, List.nil_append]
        rw [show ({ succeeding with joinStatus := some 1 } : Environment) = succeeding from rfl,
          hexec]
      obtain ⟨t, hrun, hprompt, hreceiving, hunjoined⟩ :=
        transfer_goes_through
          (t := (s.ask .nlst listing).serve [] o (startsTransfer succeeding listing server))
          (r := ⟨newMessage 150 [], s.served + 1, 0⟩) rfl rfl
          (by simp [System.serve, System.tagged, System.ask, hreplies, hsent]) rfl
      refine ⟨.ask "nlst".toList :: .serve succeeding 1 :: [.receive, .join, .reply, .receive], t,
        by simp [GoesThrough], ?_, fun hagrees => ?_⟩
      · rw [Runs.run_cons, hask, Option.bind_some, Runs.run_cons, hserve, Option.bind_some, hrun]
      · have hlen' := hagrees hprompt o.server hreceiving
        rw [hunjoined, hlogged] at hlen'
        simp [System.serve, System.ask, Client.ask, hone, hne] at hlen'
    · rw [if_neg hauth] at hlen
      exact absurd ((inStep_idle hauth).mpr (List.length_eq_zero_iff.mp hlen)) hout
  · exact ⟨[], s, by simp, rfl, fun hagrees => hlen (hagrees hphase server hserving)⟩

end Disagreement

/-- The threads of the client and authStatus of the server agree at every prompt of a run in
which the creations and the transfers go as Tallied says, and after any other the two part
company at some prompt to come. -/
theorem agrees_iff (actions : List Action) :
    (Runs.Along System.step Tallied {} actions → Runs.Visits System.step Agrees {} actions) ∧
    (Runs.Visits System.step (Runs.Henceforth System.step GoesThrough Agrees) {} actions ↔
      Runs.Along System.step Tallied {} actions) := by
  suffices hiff : _ from ⟨fun h => (hiff.mpr h).now, hiff⟩
  apply Runs.visits_henceforth_iff_along (I := Paired)
  · exact fun s a s' h hstep hok => paired_step h hok (stepped hstep)
  · exact fun s h => h.agrees
  · intro s a ha
    cases a with
    | serve env joinStatus => exact fun _ _ _ _ _ _ _ => ha
    | create createResult createHandle => exact ha.elim
    | _ => trivial
  · intro s a s' h hstep hbad
    cases stepped hstep with
    | served env joinStatus server req rest o serving requests outcome =>
      obtain ⟨hphase, hstarts, rfl⟩ := not_tallied_serve serving requests hbad
      exact failure_shows h (by simp [hphase]) serving requests outcome hstarts rfl
    | broken env joinStatus server req rest serving requests outcome =>
      obtain ⟨-, hstarts, -⟩ := not_tallied_serve serving requests hbad
      exact absurd outcome (executes_of_startsTransfer hstarts rfl)
    | created createResult createHandle res phase =>
      obtain ⟨server, serving, hcreate⟩ := not_tallied_create phase hbad
      obtain ⟨howed, hrequests⟩ := h.steady.creating phase
      have hdue := h.due server.authStatus (by rw [System.authStatus, serving])
      rw [heading_of_nothing howed, phase] at hdue
      refine prompt_shows (create_phase _ _ _) serving (replies_of_owed howed)
        (hrequests (by simp [serving])) (fun hin => hcreate ?_)
      exact (inStep_create hdue createResult createHandle).mp hin
    | _ => exact absurd trivial hbad
  · refine ⟨steady_start, fun auth hauth => ?_⟩
    obtain rfl := Option.some.inj hauth
    exact rfl

/-- PASV before the login is answered 401; at the next prompt a data thread waits all the same. -/
theorem refused_pasv_creates_thread :
    ¬ ∀ actions s, Runs.run System.step {} actions = some s → Agrees s := by
  intro h
  let actions : List Action :=
    [.receive, .ask "pasv".toList, .serve succeeding 1, .reply, .receive, .create 0 0]
  have hrun : (Runs.run System.step {} actions).map
      (fun s => (s.client.phase, s.client.unjoined, s.owed, s.authStatus)) =
        some (.prompting, [1], [], some .notLoggedIn) := by decide
  obtain ⟨s, hs, hend⟩ := Option.map_eq_some_iff.mp hrun
  simp only [Prod.mk.injEq] at hend
  obtain ⟨hphase, hone, howed, hauth⟩ := hend
  obtain ⟨server, hserving, hidle⟩ := serving_of_status howed hauth
  have hlen := h actions s hs hphase server hserving
  rw [hone, hidle] at hlen
  exact absurd hlen (by decide)

end NetworkProtocol.Ftp
