import NetworkProtocol.Ftp.SamePort
import NetworkProtocol.Ftp.Transfer

/-! The client's data threads share one socket, and whichever waits is woken. As long as a thread
is created on a 2xx reply only, there is never more than the one that main will join. -/
namespace NetworkProtocol.Ftp
open CString

namespace ClientThreads
variable {c c' : ClientThreads} {thread : Thread}

/-- What each step of a set-up needs and does. -/
theorem setUp_cases {sentCommand : Command} {i : Nat} {unset : Int}
    (h : c.setUp sentCommand i unset = some c') : ∃ thread,
    (∃ text, c.opening[i]? = some (thread, .parse text) ∧
      (portRead sentCommand text unset = some none ∧
        c' = { c with opening := c.opening.eraseIdx i } ∨
      ∃ port, portRead sentCommand text unset = some (some port) ∧
        c' = { c with opening := c.opening.set i (thread, .socket port) })) ∨
    (∃ port, c.opening[i]? = some (thread, .socket port) ∧
      c' = { c with opening := c.opening.set i (thread, .address port), connected := false }) ∨
    ∃ port, c.opening[i]? = some (thread, .address port) ∧ c' = { c with
      opening := c.opening.eraseIdx i
      waiting := c.waiting ++ [thread]
      dataServerAddr := tcpPort port } := by
  rw [setUp] at h
  split at h
  · cases h
  · rename_i thread text hget
    obtain ⟨port, hport, rfl⟩ := Option.map_eq_some_iff.mp h
    cases port with
    | none => exact ⟨thread, .inl ⟨text, hget, .inl ⟨hport, rfl⟩⟩⟩
    | some port => exact ⟨thread, .inl ⟨text, hget, .inr ⟨port, hport, rfl⟩⟩⟩
  · rename_i thread port hget
    exact ⟨thread, .inr (.inl ⟨port, hget, (Option.some.inj h).symm⟩)⟩
  · rename_i thread port hget
    exact ⟨thread, .inr (.inr ⟨port, hget, (Option.some.inj h).symm⟩)⟩

/-- Without threads none is past its wait. -/
theorem active_of_all_nil (h : c.all = []) : c.active = none := by
  rw [all, List.append_eq_nil_iff, Option.toList_eq_nil_iff] at h
  exact h.2

/-- The one thread there is, on its way. -/
theorem opening_sole (h : c.all = [thread]) {i : Nat} {other : Thread} {stage : ClientStage}
    (hget : c.opening[i]? = some (other, stage)) :
    c.opening = [(thread, stage)] ∧ other = thread ∧ i = 0 ∧ c.waiting = [] ∧ c.active = none := by
  rw [all] at h
  cases hopening : c.opening with
  | nil => simp [hopening] at hget
  | cons first rest =>
    rw [hopening, List.map_cons, List.cons_append, List.cons_append] at h
    obtain ⟨rfl, hnil⟩ := List.cons.inj h
    simp only [List.append_eq_nil_iff, List.map_eq_nil_iff, Option.toList_eq_nil_iff] at hnil
    obtain ⟨⟨rfl, hwaiting⟩, hactive⟩ := hnil
    rw [hopening] at hget
    cases i with
    | zero =>
      obtain rfl := Option.some.inj hget
      exact ⟨rfl, rfl, rfl, hwaiting, hactive⟩
    | succ i => cases hget

/-- On its way it stays the only one, or is over. -/
theorem setUp_sole {sentCommand : Command} {i : Nat} {unset : Int} (h : c.all = [thread])
    (hstep : c.setUp sentCommand i unset = some c') :
    c.active = none ∧ (c'.all = [] ∨ c'.all = [thread]) := by
  obtain ⟨other, ⟨text, hget, ⟨-, rfl⟩ | ⟨port, -, rfl⟩⟩ | ⟨port, hget, rfl⟩ | ⟨port, hget, rfl⟩⟩ :=
    setUp_cases hstep
  all_goals
    obtain ⟨hopening, rfl, rfl, hwaiting, hactive⟩ := opening_sole h hget
    simp [all, hopening, hwaiting, hactive]

private theorem setUp_nil {sentCommand : Command} {i : Nat} {unset : Int} (h : c.all = []) :
    c.setUp sentCommand i unset = none := by
  rw [all, List.append_eq_nil_iff, List.append_eq_nil_iff, List.map_eq_nil_iff] at h
  simp [setUp, h.1.1]

private theorem connect_sole {i : Nat} (h : c.all = [] ∨ c.all = [thread])
    (hstep : c.connect i = some c') :
    c'.all = [thread] ∧ c'.active ≠ none ∧ c'.connected = true := by
  obtain ⟨other, hget, rfl⟩ := Option.map_eq_some_iff.mp hstep
  rw [all] at h
  cases hwaiting : c.waiting with
  | nil => simp [hwaiting] at hget
  | cons first rest =>
    simp only [hwaiting, List.append_assoc, List.cons_append, List.append_eq_nil_iff,
      reduceCtorEq, and_false, false_or] at h
    cases hopening : c.opening with
    | nil =>
      simp only [hopening, List.map_nil, List.nil_append, List.cons.injEq,
        List.append_eq_nil_iff, Option.toList_eq_nil_iff] at h
      obtain ⟨rfl, rfl, hactive⟩ := h
      rw [hwaiting] at hget
      cases i with
      | zero =>
        obtain rfl := Option.some.inj hget
        simp [all]
      | succ i => cases hget
    | cons second others => simp [hopening] at h

end ClientThreads

/-- The reply for which a data thread is about to be created, if any, is of class 2. -/
def Phase.Accepted : Phase → Prop
  | .creating res => extractClass res.status = 2
  | _ => True

instance : DecidablePred Phase.Accepted
  | .creating res => inferInstanceAs (Decidable (extractClass res.status = 2))
  | .receiving | .joining | .finishing | .prompting | .exited => isTrue trivial

/-- On a reply of another class pthread_create fails, and dataThread is what it was. -/
def Calm (t : Transfer) : Transfer.Event → Prop
  | .control (.create createResult createHandle) => t.control.client.phase.Accepted ∨
      createResult ≠ 0 ∧ createHandle = t.control.client.dataThread
  | _ => True

instance (t : Transfer) : DecidablePred (Calm t)
  | .control (.create _ _) => inferInstanceAs (Decidable (_ ∨ _ ∧ _))
  | .control (.ask _) | .control (.serve _ _) | .control .reply | .control .receive
  | .control .join | .control .serverExits | .control .clientExits
  | .setUp _ _ | .prepare _ _ | .connect _ | .send _ | .take => isTrue trivial

def Suits (auth : AuthorizationStatus) (threads : List Thread) : Phase → Prop
  | .receiving | .prompting => threads ≠ [] → auth = .modeSelected
  | .creating res => extractClass res.status = 2 ∨ threads ≠ [] → auth = .modeSelected
  | _ => True

private theorem Suits.mono {auth : AuthorizationStatus} {threads threads' : List Thread}
    {phase : Phase}
    (h : Suits auth threads phase) (hfewer : threads' ≠ [] → threads ≠ []) :
    Suits auth threads' phase := by
  cases phase with
  | receiving => exact fun hsome => h (hfewer hsome)
  | prompting => exact fun hsome => h (hfewer hsome)
  | creating res => exact fun hdue => h (hdue.imp_right hfewer)
  | _ => trivial

structure Sole (t : Transfer) : Prop where
  steady : Steady t.control
  only : t.threads.all = [] ∨ t.threads.all = [t.control.client.dataThread]
  linked : t.link.Busy → t.threads.active ≠ none ∧ t.threads.connected = true
  fresh : ∀ res, t.control.heading = .creating res → extractClass res.status = 2 →
    t.threads.all = []
  joined : t.control.heading = .finishing → t.threads.all = []
  suits : ∀ server, t.control.server = some server →
    Suits server.authStatus t.threads.all t.control.heading

section Request
variable {env : Environment} {req : Message} {server : Server} {o : Outcome}
  {threads : List Thread}

structure Received (auth : AuthorizationStatus) (threads : List Thread) (phase : Phase) : Prop where
  suits : Suits auth threads phase
  fresh : ∀ res, phase = .creating res → extractClass res.status = 2 → threads = []

private theorem received_prompting {auth : AuthorizationStatus}
    (h : threads ≠ [] → auth = .modeSelected) : Received auth threads .prompting :=
  ⟨h, fun _ hphase => by cases hphase⟩

private theorem received_refused {auth : AuthorizationStatus}
    (h : threads ≠ [] → auth = .modeSelected) {status : Int} {text : CString} {command : Command}
    (error : 400 ≤ status) :
    Received auth threads (callback command (newMessage status text)) := by
  have hclass : extractClass status ≠ 1 ∧ extractClass status ≠ 2 := by
    rw [extractClass, Int.tdiv_eq_ediv_of_nonneg (by omega)]
    omega
  have hcreating : Received auth threads (.creating (newMessage status text)) := by
    refine ⟨fun hdue => h (hdue.resolve_left hclass.2), fun res hres htwo => ?_⟩
    obtain rfl := Phase.creating.inj hres
    exact absurd htwo hclass.2
  cases command with
  | pasv => exact hcreating
  | port => exact hcreating
  | quit => exact ⟨trivial, fun _ hphase => by cases hphase⟩
  | nlst =>
    have hprompting : callback .nlst (newMessage status text) = .prompting := if_neg hclass.1
    rw [hprompting]
    exact received_prompting h
  | retr =>
    have hprompting : callback .retr (newMessage status text) = .prompting := if_neg hclass.1
    rw [hprompting]
    exact received_prompting h
  | _ => exact received_prompting h

private theorem received_transfer {auth : AuthorizationStatus}
    (hstarts : startsTransfer env req server = true) : Received auth threads
      (callback (interpret req.command) (openingReply env req server o)) := by
  rw [openingReply, if_pos hstarts, callback_of_startsTransfer hstarts]
  exact ⟨trivial, fun _ hphase => by cases hphase⟩

private theorem received_served (h : threads ≠ [] → server.authStatus = .modeSelected)
    (served : Served env req server o) : Received o.server.authStatus threads
      (callback (interpret req.command) (openingReply env req server o)) := by
  have hnone {auth : AuthorizationStatus} (hauth : server.authStatus = auth)
      (hother : auth ≠ .modeSelected) : threads = [] := by
    by_contra hthreads
    exact hother (hauth.symm.trans (h hthreads))
  cases served with
  | refused fileName status text reason error =>
    rw [openingReply, not_startsTransfer_of_refused reason]
    exact received_refused h error
  | identified text command auth body =>
    rw [command]
    exact received_prompting fun hthreads => absurd (hnone auth (by simp)) hthreads
  | loggedOn text command auth body =>
    rw [command]
    exact received_prompting fun hthreads => absurd (hnone auth (by simp)) hthreads
  | already text command auth =>
    rw [command]
    exact received_prompting h
  | left text command =>
    rw [command]
    exact ⟨trivial, fun _ hphase => by cases hphase⟩
  | moved relativePath text command auth change =>
    rw [command]
    exact received_prompting h
  | typed asciiMode text command auth =>
    rw [command]
    exact received_prompting h
  | passive text command auth =>
    rw [command]
    exact ⟨fun _ => rfl, fun _ _ _ => hnone auth (by simp)⟩
  | active address text command auth parsed =>
    rw [command]
    exact ⟨fun _ => rfl, fun _ _ _ => hnone auth (by simp)⟩
  | transferred s' status text starts joined success =>
    exact received_transfer (startsTransfer_of_starts starts)
  | failed s' text starts joined => exact received_transfer (startsTransfer_of_starts starts)

end Request

section Steps
variable {writable : CString → Bool} {t t' : Transfer} {s : System} {a : Action}

private theorem sole_between {phase : Phase} (hsteady : Steady t'.control)
    (honly : t'.threads.all = [] ∨ t'.threads.all = [t'.control.client.dataThread])
    (hlinked : t'.link.Busy → t'.threads.active ≠ none ∧ t'.threads.connected = true)
    (hheading : t'.control.heading = phase)
    (hother : (∀ res, phase ≠ .creating res) ∧ phase ≠ .finishing)
    (hsuits : ∀ server, t'.control.server = some server →
      Suits server.authStatus t'.threads.all phase) : Sole t' where
  steady := hsteady
  only := honly
  linked := hlinked
  fresh res hres := absurd (hheading.symm.trans hres) (hother.1 res)
  joined hfinishing := absurd (hheading.symm.trans hfinishing) hother.2
  suits := by
    rw [hheading]
    exact hsuits

private theorem heading_ended (s : System) (requests : List Message) :
    ({ s with serving := .ended, requests := requests } : System).heading = s.heading ∨
      ({ s with serving := .ended, requests := requests } : System).heading = .receiving := by
  rw [System.heading, System.heading, System.owed, System.owed]
  cases hphase : s.client.phase with
  | receiving =>
    cases hreplies : s.replies with
    | nil => exact .inr rfl
    | cons r rest =>
      left
      cases s.serving <;> rfl
  | _ => exact .inl rfl

private theorem Sole.same (h : Sole t) (hsteady : Steady s)
    (hthread : s.client.dataThread = t.control.client.dataThread) {link : Link}
    (hlink : link.Busy → t.link.Busy)
    (hheading : s.heading = t.control.heading) (hserver : s.server = t.control.server)
    {sockets : DataSockets} :
    Sole { t with control := s, sockets := sockets, link := link } := by
  refine ⟨hsteady, ?_, fun hbusy => h.linked (hlink hbusy), ?_, ?_, ?_⟩
  · rw [hthread]
    exact h.only
  · rw [hheading]
    exact h.fresh
  · rw [hheading]
    exact h.joined
  · rw [hheading, hserver]
    exact h.suits

private theorem Sole.ended (h : Sole t) {requests : List Message}
    (hsteady : Steady { t.control with serving := .ended, requests := requests }) {link : Link}
    (hlink : link.Busy → t.link.Busy) {sockets : DataSockets} :
    Sole { t with
      control := { t.control with serving := .ended, requests := requests }
      sockets := sockets
      link := link } := by
  refine ⟨hsteady, h.only, fun hbusy => h.linked (hlink hbusy), ?_, ?_, ?_⟩
  · intro res hres
    rcases heading_ended t.control requests with hsame | hnothing
    · exact h.fresh res (hsame.symm.trans hres)
    · cases hnothing.symm.trans hres
  · intro hfinishing
    rcases heading_ended t.control requests with hsame | hnothing
    · exact h.joined (hsame.symm.trans hfinishing)
    · cases hnothing.symm.trans hfinishing
  · intro server hserver
    cases hserver

private theorem Sole.settled (h : Sole t) (hsteady : Steady s) (hheading : s.heading = .exited ∨
    t.threads.all = [] ∧ ∀ res, s.heading ≠ .creating res)
    (hthread : s.client.dataThread = t.control.client.dataThread) :
    Sole { t with control := s } := by
  refine ⟨hsteady, ?_, h.linked, ?_, ?_, ?_⟩
  · rw [hthread]
    exact h.only
  · intro res hres
    rcases hheading with hexited | ⟨-, hother⟩
    · cases hexited.symm.trans hres
    · exact absurd hres (hother res)
  · intro hfinishing
    rcases hheading with hexited | ⟨hnil, -⟩
    · cases hexited.symm.trans hfinishing
    · exact hnil
  · intro server _
    rcases hheading with hexited | ⟨hnil, hother⟩
    · rw [hexited]
      trivial
    · dsimp only
      cases hphase : s.heading with
      | creating res => exact absurd hphase (hother res)
      | receiving => exact fun hthreads => absurd hnil hthreads
      | prompting => exact fun hthreads => absurd hnil hthreads
      | _ => trivial

private theorem Sole.serve (h : Sole t) {env : Environment} {server : Server} {req : Message}
    {rest : List Message} {o : Outcome} (hserving : t.control.serving = .receiving server)
    (hrequests : t.control.requests = req :: rest) (served : Served env req server o)
    (hsteady : Steady (t.control.serve rest o (startsTransfer env req server)))
    {sockets : DataSockets} {threads : List DataThread} :
    Sole { t with
      control := t.control.serve rest o (startsTransfer env req server)
      sockets := sockets
      link := .waiting threads } := by
  have hreceived : (t.control.serve rest o (startsTransfer env req server)).heading = .exited ∨
      ∃ phase, (t.control.serve rest o (startsTransfer env req server)).heading = phase ∧
        phase ≠ .finishing ∧ Received o.server.authStatus t.threads.all phase := by
    rcases Classical.em (t.control.client.phase = .exited) with hexited | halive
    · exact .inl (heading_of_phase (s := t.control.serve _ _ _) hexited)
    · obtain ⟨rfl, hreplies, hphase, hcommand⟩ := h.steady.asking halive hserving hrequests
      have howed : t.control.owed = [] := by rw [System.owed, hserving, hreplies]
      have hbefore := h.suits server (by rw [System.server, hserving])
      rw [heading_of_nothing howed, hphase] at hbefore
      obtain ⟨r, rest, howed', hr⟩ := owed_head_serve hreplies served
      refine .inr ⟨_, heading_of_owed (s := t.control.serve _ _ _) hphase howed',
        callback_phases.2, ?_⟩
      rw [hr]
      simp only [System.serve, ← hcommand]
      exact received_served hbefore served
  refine ⟨hsteady, h.only, fun hbusy => hbusy.elim, ?_, ?_, ?_⟩
  · intro res hres
    rcases hreceived with hexited | ⟨phase, hphase, -, hreceived⟩
    · cases hexited.symm.trans hres
    · exact hreceived.fresh res (hphase.symm.trans hres)
  · intro hfinishing
    rcases hreceived with hexited | ⟨phase, hphase, hother, -⟩
    · cases hexited.symm.trans hfinishing
    · exact absurd (hphase.symm.trans hfinishing) hother
  · intro server' hserver
    obtain rfl : o.server = server' := Option.some.inj hserver
    rcases hreceived with hexited | ⟨phase, hphase, -, hreceived⟩
    · rw [hexited]
      trivial
    · rw [hphase]
      exact hreceived.suits

private theorem Sole.create (h : Sole t) {createResult : Nat} {createHandle : Thread}
    {res : Message} (hclass : extractClass res.status = 2)
    (hphase : t.control.client.phase = .creating res)
    (hsteady : Steady { t.control with
      client := t.control.client.create createResult createHandle }) :
    Sole { t with
      control := { t.control with client := t.control.client.create createResult createHandle }
      threads := t.threadsAfter (.create createResult createHandle) } := by
  have howed := (h.steady.creating hphase).1
  have hheading : t.control.heading = .creating res := by rw [heading_of_nothing howed, hphase]
  have hprompting : System.heading
      { t.control with client := t.control.client.create createResult createHandle } =
        .prompting := heading_of_phase (create_phase _ _ _)
  have hnil := h.fresh res hheading hclass
  have hactive := ClientThreads.active_of_all_nil hnil
  apply sole_between hsteady
  · simp only [Transfer.threadsAfter, hphase, Client.create]
    split
    · right
      simp only [ClientThreads.all, List.append_eq_nil_iff, List.map_eq_nil_iff,
        Option.toList_eq_nil_iff] at hnil
      simp [ClientThreads.all, hnil]
    · exact .inl hnil
  · intro hbusy
    exact absurd hactive (h.linked hbusy).1
  · exact hprompting
  · simp
  · intro server hserver
    have hsuits := h.suits server hserver
    rw [hheading] at hsuits
    exact fun _ => hsuits (.inl hclass)

private theorem Sole.createFails (h : Sole t) {createResult : Nat} {res : Message}
    (hfails : createResult ≠ 0) (hphase : t.control.client.phase = .creating res)
    (hsteady : Steady { t.control with
      client := t.control.client.create createResult t.control.client.dataThread }) :
    Sole { t with
      control := { t.control with
        client := t.control.client.create createResult t.control.client.dataThread }
      threads := t.threadsAfter (.create createResult t.control.client.dataThread) } := by
  have howed := (h.steady.creating hphase).1
  have hheading : t.control.heading = .creating res := by rw [heading_of_nothing howed, hphase]
  have hprompting : System.heading { t.control with
      client := t.control.client.create createResult t.control.client.dataThread } =
        .prompting := heading_of_phase (create_phase _ _ _)
  have hthreads : t.threadsAfter (.create createResult t.control.client.dataThread) =
      t.threads := by simp only [Transfer.threadsAfter, hphase, if_neg hfails]
  have hthread : (t.control.client.create createResult t.control.client.dataThread).dataThread =
      t.control.client.dataThread := by simp only [Client.create, if_neg hfails]
  rw [hthreads]
  apply sole_between hsteady
  · rw [hthread]
    exact h.only
  · exact h.linked
  · exact hprompting
  · simp
  · intro server hserver
    have hsuits := h.suits server hserver
    rw [hheading] at hsuits
    exact fun hsome => hsuits (.inr hsome)

/-- No step of the mains brings up a second data thread. -/
theorem Sole.control (h : Sole t) (hfree : t.holds a = false)
    (hcalm : Calm t (.control a)) (hs : t.control.step a = some s) : Sole { t with
      control := s
      sockets := t.socketsAfter a
      threads := t.threadsAfter a
      link := t.linkAfter a } := by
  have hsteady : Steady s := steady_step h.steady (stepped hs)
  cases stepped hs with
  | asked userInput command req phase line =>
    have howed := h.steady.unread phase
    have hasked : (t.control.ask command req).heading = .receiving :=
      heading_of_nothing (s := t.control.ask command req) howed
    have hbefore : t.control.heading = .prompting := by rw [heading_of_nothing howed, phase]
    refine sole_between hsteady ?_ ?_ hasked (by simp) ?_
    · exact h.only
    · exact h.linked
    · intro server hserver
      have hsuits := h.suits server hserver
      rw [hbefore] at hsuits
      exact hsuits
  | askedAgain userInput phase => exact h
  | served env joinStatus server req rest o serving requests outcome =>
    rw [Transfer.linkAfter_serve serving requests]
    exact h.serve serving requests outcome hsteady
  | broken env joinStatus server req rest serving requests outcome =>
    rw [Transfer.linkAfter_serve serving requests]
    exact h.ended hsteady (by rintro ⟨⟩)
  | replied o started serving =>
    refine h.same hsteady rfl id ?_ ?_
    · rw [System.heading, System.heading, owed_reply serving]
      rfl
    · rw [System.server, System.server, serving]
      rfl
  | dispatched r rest phase replies =>
    refine h.same hsteady rfl id ?_ rfl
    rw [heading_of_owed phase (owed_of_replies replies rfl rfl rfl :
      t.control.owed = r :: (t.control.dispatch r rest).owed)]
    exact heading_of_phase rfl callback_phases.1
  | finished r rest phase replies =>
    refine h.settled hsteady (.inr ⟨h.joined (heading_of_phase phase), fun res hres => ?_⟩) rfl
    cases (heading_of_phase rfl : (t.control.finish rest).heading = .prompting).symm.trans hres
  | dispatchedZeros phase replies serving =>
    have howed : (t.control.goTo (callback t.control.client.sentCommand {})).owed = [] := by
      simp [System.owed, System.goTo, serving, replies]
    have hheading := heading_of_nothing howed
    refine ⟨hsteady, h.only, h.linked, ?_, ?_, ?_⟩
    · intro res hres hclass
      have hzeros : res = {} := by
        have hcreating : callback t.control.client.sentCommand {} = .creating res :=
          hheading.symm.trans hres
        cases hcommand : t.control.client.sentCommand <;> rw [hcommand] at hcreating <;>
          simp_all [callback, extractClass]
      rw [hzeros] at hclass
      cases hclass
    · intro hfinishing
      exact absurd (hheading.symm.trans hfinishing) callback_phases.2
    · intro server hserver
      simp [System.server, System.goTo, serving] at hserver
  | finishedNothing phase replies serving =>
    refine h.settled hsteady (.inr ⟨h.joined (heading_of_phase phase), fun res hres => ?_⟩) rfl
    cases (heading_of_phase rfl : (t.control.goTo .prompting).heading = .prompting).symm.trans hres
  | created createResult createHandle res phase =>
    rcases hcalm with haccepted | ⟨hfails, rfl⟩
    · rw [phase] at haccepted
      exact h.create haccepted phase hsteady
    · exact h.createFails hfails phase hsteady
  | joined phase =>
    have hnone : t.threads.all = [] := by
      rcases h.only with hnil | hone
      · exact hnil
      · simp [Transfer.holds, hone] at hfree
    refine h.settled hsteady (.inr ⟨hnone, fun res hres => ?_⟩) rfl
    cases (heading_of_phase rfl :
      ({ t.control with client := t.control.client.join } : System).heading =
        .finishing).symm.trans hres
  | serverExited => exact h.ended hsteady id
  | clientExited =>
    exact h.settled hsteady (.inl (heading_of_phase rfl)) rfl

private theorem Sole.prepare (h : Sole t) {i : Nat} {unset : Int} {threads : ClientThreads}
    (hthreads : t.threads.setUp t.control.client.sentCommand i unset = some threads) :
    Sole { t with threads := threads } := by
  rcases h.only with hnil | hone
  · rw [ClientThreads.setUp_nil hnil] at hthreads
    cases hthreads
  · obtain ⟨hactive, hall⟩ := ClientThreads.setUp_sole hone hthreads
    have hne : t.threads.all ≠ [] := by simp [hone]
    refine ⟨h.steady, hall, ?_, ?_, ?_, ?_⟩
    · intro hbusy
      exact absurd hactive (h.linked hbusy).1
    · intro res hres hclass
      exact absurd (h.fresh res hres hclass) hne
    · intro hfinishing
      exact absurd (h.joined hfinishing) hne
    · exact fun server hserver => (h.suits server hserver).mono fun _ => hne

private theorem Sole.connect (h : Sole t) {i : Nat} {threads : ClientThreads}
    (hphase : t.control.client.phase = .joining)
    (hthreads : t.threads.connect i = some threads) :
    Sole { t with threads := threads, link := .connected } := by
  obtain ⟨hall, hactive, hconnected⟩ := ClientThreads.connect_sole h.only hthreads
  refine sole_between h.steady ?_ ?_ (heading_of_phase hphase) (by simp) ?_
  · exact .inr hall
  · exact fun _ => ⟨hactive, hconnected⟩
  · exact fun _ _ => trivial

-- The thread that has returned leaves the others as they were.
private theorem Sole.take (h : Sole t) (retrieved : List Retrieved) : Sole { t with
    link := .done
    threads := { t.threads with active := none }
    retrieved := retrieved } := by
  have hall : t.threads.all = [] ∨ t.threads.all = [t.control.client.dataThread] := h.only
  have hfewer : ({ t.threads with active := none } : ClientThreads).all <+: t.threads.all := by
    simp [ClientThreads.all]
  refine ⟨h.steady, ?_, fun hbusy => hbusy.elim, ?_, ?_, ?_⟩
  · rcases hall with hnil | hone
    · exact .inl (List.prefix_nil.mp (hnil ▸ hfewer))
    · rw [hone] at hfewer
      rcases List.prefix_cons_iff.mp hfewer with hnil | ⟨rest, heq, hrest⟩
      · exact .inl hnil
      · rw [List.prefix_nil.mp hrest] at heq
        exact .inr heq
  · intro res hres hclass
    exact List.prefix_nil.mp (h.fresh res hres hclass ▸ hfewer)
  · intro hfinishing
    exact List.prefix_nil.mp (h.joined hfinishing ▸ hfewer)
  · intro server hserver
    apply (h.suits server hserver).mono
    exact fun hsome hnil => hsome (List.prefix_nil.mp (hnil ▸ hfewer))

/-- Nor does a step of a data thread. -/
theorem Sole.step {e : Transfer.Event} (h : Sole t) (hcalm : Calm t e)
    (hstep : t.step writable e = some t') : Sole t' := by
  cases e with
  | control a =>
    obtain ⟨hfree, s, hs, rfl⟩ := Transfer.step_control hstep
    exact h.control hfree hcalm hs
  | setUp i free =>
    obtain ⟨⟨sockets, ends⟩, -, rfl⟩ := Transfer.step_setUp hstep
    cases ends with
    | false => exact h.same h.steady rfl id rfl rfl
    | true => exact h.ended (steady_step h.steady .serverExited) id
  | prepare i unset =>
    obtain ⟨threads, hthreads, rfl⟩ := Transfer.step_prepare hstep
    exact h.prepare hthreads
  | connect i =>
    obtain ⟨hphase, -, -, threads, hthreads, rfl⟩ := Transfer.step_connect hstep
    exact h.connect hphase hthreads
  | send disk =>
    obtain ⟨hconnected, o, started, body, -, -, rfl⟩ := Transfer.step_send hstep
    exact h.same h.steady rfl (fun _ => hconnected ▸ trivial) rfl rfl
  | take =>
    obtain ⟨-, body, new, -, -, rfl⟩ := Transfer.take_cases hstep
    exact h.take _

/-- There is none at the start. -/
theorem sole_start : Sole {} := by
  have hheading : ({} : Transfer).control.heading = .prompting :=
    heading_of_owed rfl (rfl : ({} : System).owed = [greeting])
  refine sole_between steady_start (.inl rfl) ?_ hheading (by simp) ?_
  · exact fun hbusy => hbusy.elim
  · exact fun server _ hthreads => absurd rfl hthreads

end Steps

end NetworkProtocol.Ftp
