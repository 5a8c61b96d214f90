import NetworkProtocol.Ftp.Retrieval

/-! How a transfer comes to its end. Where both mains have the one data thread they should have,
the threads find each other on one port, and the prompt comes back with what was asked for. -/
namespace NetworkProtocol.Ftp
open CString CMemory

/-- Each main goes on when its data thread is in its wait, and no data thread binds port 0. -/
def Settled (t : Transfer) : Transfer.Event → Prop
  | .control (.ask _) => t.threads.opening = []
  | .control (.serve _ _) => t.sockets.opening = []
  | .setUp i _ => ∀ next ∈ t.sockets.opening[i]?, next.2 = .bind → tcpPort next.1.port ≠ 0
  | _ => True

instance (t : Transfer) : DecidablePred (Settled t)
  | .control (.ask _) => inferInstanceAs (Decidable (t.threads.opening = []))
  | .control (.serve _ _) => inferInstanceAs (Decidable (t.sockets.opening = []))
  | .setUp i _ => inferInstanceAs
      (Decidable (∀ next ∈ t.sockets.opening[i]?, next.2 = .bind → tcpPort next.1.port ≠ 0))
  | .control .reply | .control .receive | .control (.create _ _) | .control .join
  | .control .serverExits | .control .clientExits
  | .prepare _ _ | .connect _ | .send _ | .take => isTrue trivial

/-- pthread_create succeeds where it is due, and no join finds a failed thread. -/
def Succeeds (t : Transfer) : Transfer.Event → Prop
  | .control a => Tallied t.control a ∧ Creates a
  | _ => True

structure Orderly (t : Transfer) (e : Transfer.Event) : Prop where
  calm : Calm t e
  settled : Settled t e
  succeeds : Succeeds t e

/-- The server's data thread sets up its socket, or has it bound to its port. -/
def DataSockets.Keeps (d : DataSockets) (thread : DataThread) : Prop :=
  (∃ stage, d.opening = [(thread, stage)] ∧ (stage ≠ .socket → d.dataServerFd = none) ∧
    (stage = .bind → d.dataServerAddr = tcpPort thread.port)) ∨
  d.opening = [] ∧ d.dataServerFd = some (tcpPort thread.port)

/-- A stage at which the client's data thread has read the port, or will. -/
def ClientStage.LeadsTo (sentCommand : Command) (port : Int) : ClientStage → Prop
  | .parse text => ∀ unset, ClientThreads.portRead sentCommand text unset = some (some port)
  | .socket dataPort | .address dataPort => dataPort = port

/-- The client's data thread is on its way to the wait, or in it, for that port. -/
def ClientThreads.Expects (c : ClientThreads) (sentCommand : Command) (thread : Thread)
    (port : Int) : Prop :=
  (∃ stage, c.opening = [(thread, stage)] ∧ c.waiting = [] ∧ stage.LeadsTo sentCommand port) ∨
  c.opening = [] ∧ c.waiting = [thread] ∧ c.dataServerAddr = tcpPort port

def Coupled (t : Transfer) (server : Server) : Prop :=
  ∃ port, ⟨server.dataThread, port⟩ ∈ server.unjoined ∧
    t.sockets.Keeps ⟨server.dataThread, port⟩ ∧
    t.threads.Expects t.control.client.sentCommand t.control.client.dataThread port

def Offered (t : Transfer) (server : Server) (res : Message) : Prop :=
  ∃ port, ⟨server.dataThread, port⟩ ∈ server.unjoined ∧
    t.sockets.Keeps ⟨server.dataThread, port⟩ ∧
    (ClientStage.parse res.body).LeadsTo t.control.client.sentCommand port

def Prepared (t : Transfer) (server : Server) : Phase → Prop
  | .receiving | .prompting => Coupled t server
  | .creating res =>
    if extractClass res.status = 2 then Offered t server res else Coupled t server
  | _ => True

structure Ready (t : Transfer) : Prop where
  paired : Paired t.control
  sole : Sole t
  prepared : ∀ server, t.control.server = some server → server.authStatus = .modeSelected →
    WithinPorts server → Prepared t server t.control.heading

section Request
variable {env : Environment} {req : Message} {server : Server} {o : Outcome}

private theorem mode_served (served : Served env req server o)
    (hauth : o.server.authStatus = .modeSelected) :
    (server.authStatus = .modeSelected ∧ o.server.unjoined = server.unjoined ∧
      o.server.dataThread = server.dataThread ∧ o.server.portIdx = server.portIdx ∧
      o.server.created = server.created) ∨
    ((interpret req.command = .pasv ∨ interpret req.command = .port) ∧
      extractClass o.status = 2) ∨
    startsTransfer env req server = true ∧ env.joinStatus = some 0 := by
  cases served with
  | refused fileName status text reason error => exact .inl ⟨hauth, rfl, rfl, rfl, rfl⟩
  | already text command auth => exact .inl ⟨hauth, rfl, rfl, rfl, rfl⟩
  | passive text command auth =>
    exact .inr (.inl ⟨.inl command, (by decide : extractClass 227 = 2)⟩)
  | active address text command auth parsed =>
    exact .inr (.inl ⟨.inr command, (by decide : extractClass 200 = 2)⟩)
  | failed s' text starts joined => exact .inr (.inr ⟨startsTransfer_of_starts starts, joined⟩)
  | moved relativePath text command auth change =>
    have hmode : server.authStatus = .modeSelected := hauth
    rw [auth] at hmode
    cases hmode
  | typed asciiMode text command auth =>
    have hmode : server.authStatus = .modeSelected := hauth
    rw [auth] at hmode
    cases hmode
  | _ => cases hauth

end Request

section Threads

private theorem get_sole {α β : Type*} {l : List (α × β)} {a b : α} {x y : β} {i : Nat}
    (h : l = [(a, x)]) (hget : l[i]? = some (b, y)) : i = 0 ∧ b = a ∧ y = x := by
  rw [h, List.getElem?_singleton] at hget
  obtain ⟨rfl, hget⟩ := Option.ite_none_right_eq_some.mp hget
  obtain ⟨rfl, rfl⟩ := Prod.mk.inj (Option.some.inj hget)
  exact ⟨rfl, rfl, rfl⟩

variable {d d' : DataSockets} {thread : DataThread} {i free : Nat} {ends : Bool}

private theorem keeps_setUp (h : d.Keeps thread) (hstep : d.setUp i free = some (d', ends))
    (hport : ∀ next ∈ d.opening[i]?, next.2 = .bind → tcpPort next.1.port ≠ 0) :
    d'.Keeps thread := by
  rcases h with ⟨stage, hopening, hfd, haddr⟩ | ⟨hopening, -⟩
  · obtain ⟨other, ⟨hget, rfl, rfl⟩ | ⟨hget, rfl, rfl⟩ | ⟨hget, hbind⟩⟩ :=
      DataSockets.setUp_cases hstep
    · obtain ⟨rfl, rfl, rfl⟩ := get_sole hopening hget
      exact .inl ⟨.address, by simp [hopening], fun _ => rfl, by rintro ⟨⟩⟩
    · obtain ⟨rfl, rfl, rfl⟩ := get_sole hopening hget
      exact .inl ⟨.bind, by simp [hopening], fun _ => hfd (by simp), fun _ => rfl⟩
    · obtain ⟨rfl, rfl, rfl⟩ := get_sole hopening hget
      have haddr := haddr rfl
      rcases DataSockets.bind_cases hbind with ⟨hbound, -, -⟩ | ⟨port, -, htaken, rfl, rfl⟩
      · exact absurd (hfd (by simp)) hbound
      · obtain rfl : port = tcpPort other.port := by
          rcases htaken with ⟨-, hsame⟩ | ⟨hnone, -⟩
          · exact hsame.trans haddr
          · exact absurd (haddr.symm.trans hnone) (hport _ hget rfl)
        exact .inr ⟨by simp [hopening], rfl⟩
  · simp [DataSockets.setUp, hopening] at hstep

variable {c c' : ClientThreads} {sentCommand : Command} {name : Thread} {port : Int} {unset : Int}

private theorem expects_setUp (h : c.Expects sentCommand name port)
    (hstep : c.setUp sentCommand i unset = some c') : c'.Expects sentCommand name port := by
  rcases h with ⟨stage, hopening, hwaiting, hleads⟩ | ⟨hopening, -⟩
  · obtain ⟨other, hcases⟩ := ClientThreads.setUp_cases hstep
    rcases hcases with ⟨text, hget, hread⟩ | ⟨read, hget, rfl⟩ | ⟨read, hget, rfl⟩
    · obtain ⟨rfl, rfl, rfl⟩ := get_sole hopening hget
      rcases hread with ⟨hnone, -⟩ | ⟨read, hread, rfl⟩
      · cases hnone.symm.trans (hleads unset)
      · obtain rfl : read = port := by simpa using hread.symm.trans (hleads unset)
        exact .inl ⟨.socket read, by simp [hopening], hwaiting, rfl⟩
    · obtain ⟨rfl, rfl, rfl⟩ := get_sole hopening hget
      exact .inl ⟨.address read, by simp [hopening], hwaiting, hleads⟩
    · obtain ⟨rfl, rfl, rfl⟩ := get_sole hopening hget
      have hport : read = port := hleads
      exact .inr ⟨by simp [hopening], by simp [hwaiting], by rw [hport]⟩
  · simp [ClientThreads.setUp, hopening] at hstep

end Threads

section Steps
variable {writable : CString → Bool} {t t' : Transfer} {s : System} {server : Server}

private theorem Coupled.prepared (h : Coupled t server) {phase : Phase}
    (hother : ∀ res, phase = .creating res → extractClass res.status ≠ 2) :
    Prepared t server phase := by
  cases phase with
  | receiving => exact h
  | prompting => exact h
  | creating res => exact (if_neg (hother res rfl)).mpr h
  | _ => trivial

private theorem Coupled.exists_thread (h : Coupled t server) : t.threads.all ≠ [] := by
  obtain ⟨port, -, -, ⟨stage, hopening, -⟩ | ⟨-, hwaiting, -⟩⟩ := h
  · simp [ClientThreads.all, hopening]
  · simp [ClientThreads.all, hwaiting]

private theorem Prepared.mono {phase : Phase} (h : Prepared t server phase)
    (hcommand : t'.control.client.sentCommand = t.control.client.sentCommand)
    (hsockets : ∀ thread, t.sockets.Keeps thread → t'.sockets.Keeps thread)
    (hthreads : ∀ port,
      t.threads.Expects t.control.client.sentCommand t.control.client.dataThread port →
      t'.threads.Expects t.control.client.sentCommand t'.control.client.dataThread port) :
    Prepared t' server phase := by
  have hcoupled (hc : Coupled t server) : Coupled t' server := by
    obtain ⟨port, hmem, hkeeps, hexpects⟩ := hc
    exact ⟨port, hmem, hsockets _ hkeeps, hcommand ▸ hthreads port hexpects⟩
  cases phase with
  | receiving => exact hcoupled h
  | prompting => exact hcoupled h
  | creating res =>
    rw [Prepared] at h ⊢
    split_ifs at h ⊢ with hclass
    · obtain ⟨port, hmem, hkeeps, hleads⟩ := h
      exact ⟨port, hmem, hsockets _ hkeeps, hcommand ▸ hleads⟩
    · exact hcoupled h
  | _ => trivial

private theorem prepared_serve (h : Ready t) {env : Environment} {joinStatus : Int}
    {req : Message} {rest : List Message} {o : Outcome}
    (hok : Orderly t (.control (.serve env joinStatus)))
    (hserving : t.control.serving = .receiving server)
    (hrequests : t.control.requests = req :: rest)
    (hexec : execute { env with joinStatus := some joinStatus } req server = some o)
    (hauth : o.server.authStatus = .modeSelected) (hports : WithinPorts o.server)
    (hfresh : ∀ res, (t.control.serve rest o
      (startsTransfer { env with joinStatus := some joinStatus } req server)).heading =
        .creating res → extractClass res.status = 2 → t.threads.all = []) :
    Prepared { t with sockets := t.socketsAfter (.serve env joinStatus) } o.server
      (t.control.serve rest o
        (startsTransfer { env with joinStatus := some joinStatus } req server)).heading := by
  have hsockets : t.socketsAfter (.serve env joinStatus) =
      { t.sockets with opening := (started server o.server).map (·, .socket) } := by
    have hsettled : t.sockets.opening = [] := hok.settled
    simp only [Transfer.socketsAfter, hserving, hrequests, hexec, hsettled, List.nil_append]
  have hserved := Ftp.served hexec
  rcases Classical.em (t.control.client.phase = .exited) with hexited | halive
  · rw [heading_of_phase (s := t.control.serve _ _ _) hexited]
    trivial
  · obtain ⟨rfl, hreplies, hphase, hcommand⟩ := h.sole.steady.asking halive hserving hrequests
    have howed : t.control.owed = [] := by rw [System.owed, hserving, hreplies]
    rcases mode_served hserved hauth with
      ⟨hbefore, hunjoined, hthread, hidx, hcreated⟩ | ⟨hmode, hclass⟩ | ⟨hstarts, hzero⟩
    · have hcoupled := h.prepared server (by rw [System.server, hserving]) hbefore
        (by rwa [WithinPorts, ← hidx])
      rw [heading_of_nothing howed, hphase] at hcoupled
      have hnone : started server o.server = [] := if_pos hcreated
      have hsettled : t.sockets.opening = [] := hok.settled
      have hsame : t.socketsAfter (.serve env joinStatus) = t.sockets := by
        rw [hsockets, hnone, List.map_nil, ← hsettled]
      rw [hsame]
      apply Coupled.prepared
      · rw [Coupled, hunjoined, hthread]
        exact hcoupled
      · exact fun res hres hclass => hcoupled.exists_thread (hfresh res hres hclass)
    · obtain ⟨r, rest, howed', hr⟩ := owed_head_serve hreplies hserved
      have hquiet : startsTransfer { env with joinStatus := some joinStatus } req server =
          false := by
        rcases hmode with hmode | hmode <;> simp [startsTransfer, hmode]
      obtain ⟨-, port, hstarted, hport⟩ :=
        mode_accepted hexec hmode hclass hok.succeeds.2 hports
      have hoffered : Offered { t with sockets := t.socketsAfter (.serve env joinStatus) }
          o.server (newMessage o.status o.responseMessage) := by
        refine ⟨port, mem_started (by rw [hstarted]; exact List.mem_singleton_self _),
          .inl ⟨.socket, ?_, by simp, by simp⟩, ?_⟩
        · rw [hsockets, hstarted]
          rfl
        · intro unset
          rw [ClientThreads.portRead, ← hcommand, if_pos hmode]
          exact hport
      rw [heading_of_owed (s := t.control.serve _ _ _) hphase howed', hr, openingReply, hquiet]
      simp only [System.serve, ← hcommand]
      have hcallback : callback (interpret req.command) (newMessage o.status o.responseMessage) =
          .creating (newMessage o.status o.responseMessage) := by
        rcases hmode with hmode | hmode <;> rw [hmode, callback]
      rw [if_neg Bool.false_ne_true, hcallback]
      exact (if_pos hclass).mpr hoffered
    · exact absurd (Option.some.inj hzero)
        (hok.succeeds.1 server req [] hserving hrequests hphase hstarts)

private theorem authStatus_of_server (hserver : s.server = some server)
    (hauth : server.authStatus = .modeSelected) : s.authStatus = some .modeSelected := by
  rw [System.server] at hserver
  rw [System.authStatus]
  split at hserver <;> simp_all

private theorem coupled_create (h : Ready t) {createResult : Nat} {createHandle : Thread}
    {res : Message} (hok : Orderly t (.control (.create createResult createHandle)))
    (hphase : t.control.client.phase = .creating res) (hserver : t.control.server = some server)
    (hauth : server.authStatus = .modeSelected) (hports : WithinPorts server) :
    Coupled { t with
      control := { t.control with client := t.control.client.create createResult createHandle }
      threads := t.threadsAfter (.create createResult createHandle) } server := by
  have howed := (h.sole.steady.creating hphase).1
  have hheading : t.control.heading = .creating res := by rw [heading_of_nothing howed, hphase]
  have hstatus := authStatus_of_server hserver hauth
  obtain ⟨server', hserving, -⟩ := serving_of_status howed hstatus
  have hcreate := hok.succeeds.1 server' res hserving hphase
  have hprepared := h.prepared server hserver hauth hports
  rw [hheading, Prepared] at hprepared
  rcases eq_or_ne (extractClass res.status) 2 with hclass | hclass
  · rw [if_pos hclass] at hcreate hprepared
    obtain ⟨port, hmem, hkeeps, hleads⟩ := hprepared
    have hnil := h.sole.fresh res hheading hclass
    simp only [ClientThreads.all, List.append_eq_nil_iff, List.map_eq_nil_iff] at hnil
    refine ⟨port, hmem, hkeeps, .inl ⟨.parse res.body, ?_, ?_, ?_⟩⟩
    · simp [Transfer.threadsAfter, hphase, hcreate, Client.create, hnil]
    · simp [Transfer.threadsAfter, hphase, hcreate, hnil]
    · simpa only [Client.create, hcreate, if_true] using hleads
  · rw [if_neg hclass] at hcreate hprepared
    obtain ⟨port, hmem, hkeeps, hexpects⟩ := hprepared
    have hhandle : createHandle = t.control.client.dataThread := by
      rcases hok.calm with haccepted | ⟨-, hhandle⟩
      · rw [hphase] at haccepted
        exact absurd haccepted hclass
      · exact hhandle
    refine ⟨port, hmem, hkeeps, ?_⟩
    simpa only [Transfer.threadsAfter, hphase, Client.create, if_neg hcreate.1, hhandle]
      using hexpects

private theorem prepared_same (h : Ready t) (hserver : s.server = t.control.server)
    (hheading : s.heading = t.control.heading)
    (hcommand : t'.control.client.sentCommand = t.control.client.sentCommand)
    (hthread : t'.control.client.dataThread = t.control.client.dataThread)
    (hsockets : t'.sockets = t.sockets) (hthreads : t'.threads = t.threads) :
    ∀ server, s.server = some server → server.authStatus = .modeSelected → WithinPorts server →
      Prepared t' server s.heading := by
  rw [hserver, hheading]
  intro server hs hauth hports
  apply (h.prepared server hs hauth hports).mono hcommand
  · rw [hsockets]
    exact fun _ => id
  · rw [hthreads, hthread]
    exact fun _ => id

private theorem Ready.control (h : Ready t) {a : Action} (hok : Orderly t (.control a))
    (hfree : t.holds a = false) (hs : t.control.step a = some s) : Ready { t with
      control := s
      sockets := t.socketsAfter a
      threads := t.threadsAfter a
      link := t.linkAfter a } := by
  have hpaired := paired_step h.paired hok.succeeds.1 (stepped hs)
  have hsole := h.sole.control hfree hok.calm hs
  refine ⟨hpaired, hsole, ?_⟩
  cases stepped hs with
  | asked userInput command req phase line =>
    have howed := h.sole.steady.unread phase
    have hsettled : t.threads.opening = [] := hok.settled
    intro server hserver hauth hports
    have hprepared := h.prepared server hserver hauth hports
    rw [heading_of_nothing howed, phase] at hprepared
    rw [heading_of_nothing (s := t.control.ask command req) howed]
    obtain ⟨port, hmem, hkeeps, ⟨stage, hopening, -⟩ | hwaiting⟩ := hprepared
    · cases hsettled.symm.trans hopening
    · exact ⟨port, hmem, hkeeps, .inr hwaiting⟩
  | askedAgain userInput phase => exact h.prepared
  | served env joinStatus server req rest o serving requests outcome =>
    intro server' hserver hauth hports
    obtain rfl : o.server = server' := Option.some.inj hserver
    exact (prepared_serve h hok serving requests (executed hs serving requests) hauth hports
      hsole.fresh).mono rfl (fun _ => id) (fun _ => id)
  | replied o started serving =>
    refine prepared_same h ?_ ?_ rfl rfl rfl rfl
    · rw [System.server, System.server, serving]
      rfl
    · rw [System.heading, System.heading, owed_reply serving]
      rfl
  | dispatched r rest phase replies =>
    have howed : t.control.owed = r :: (t.control.dispatch r rest).owed :=
      owed_of_replies replies rfl rfl rfl
    refine prepared_same h rfl ?_ rfl rfl rfl rfl
    rw [heading_of_owed phase howed]
    exact heading_of_phase rfl callback_phases.1
  | finished r rest phase replies =>
    intro server hserver hauth hports
    have hstatus : t.control.authStatus = some .modeSelected := authStatus_of_server hserver hauth
    have hdue := h.paired.due .modeSelected hstatus
    rw [heading_of_phase phase] at hdue
    exact absurd rfl hdue.2
  | created createResult createHandle res phase =>
    intro server hserver hauth hports
    have hheading : System.heading
        { t.control with client := t.control.client.create createResult createHandle } =
          .prompting := heading_of_phase (create_phase _ _ _)
    rw [hheading]
    exact coupled_create h hok phase hserver hauth hports
  | joined phase =>
    intro server hserver hauth hports
    have hheading : ({ t.control with client := t.control.client.join } : System).heading =
        .finishing := heading_of_phase rfl
    rw [hheading]
    trivial
  | clientExited =>
    intro server hserver hauth hports
    have hheading : (t.control.goTo .exited).heading = .exited := heading_of_phase rfl
    rw [hheading]
    trivial
  | dispatchedZeros phase replies serving =>
    intro server hserver
    simp [System.server, System.goTo, serving] at hserver
  | finishedNothing phase replies serving =>
    intro server hserver
    simp [System.server, System.goTo, serving] at hserver
  | broken env joinStatus server req rest serving requests outcome =>
    intro server hserver
    cases hserver
  | serverExited =>
    intro server hserver
    cases hserver

private theorem Ready.step {e : Transfer.Event} (h : Ready t) (hok : Orderly t e)
    (hstep : t.step writable e = some t') : Ready t' := by
  have hsole : Sole t' := h.sole.step hok.calm hstep
  cases e with
  | control a =>
    obtain ⟨hfree, s, hs, rfl⟩ := Transfer.step_control hstep
    exact h.control hok hfree hs
  | setUp i free =>
    obtain ⟨⟨sockets, ends⟩, hsockets, rfl⟩ := Transfer.step_setUp hstep
    cases ends with
    | false =>
      refine ⟨h.paired, hsole, fun server hserver hauth hports => ?_⟩
      exact (h.prepared server hserver hauth hports).mono rfl
        (fun _ hkeeps => keeps_setUp hkeeps hsockets hok.settled) (fun _ => id)
    | true =>
      refine ⟨?_, hsole, fun server hserver => by cases hserver⟩
      exact paired_step (a := .serverExits) h.paired trivial .serverExited
  | prepare i unset =>
    obtain ⟨threads, hthreads, rfl⟩ := Transfer.step_prepare hstep
    refine ⟨h.paired, hsole, fun server hserver hauth hports => ?_⟩
    exact (h.prepared server hserver hauth hports).mono rfl (fun _ => id)
      (fun _ hexpects => expects_setUp hexpects hthreads)
  | connect i =>
    obtain ⟨hphase, -, -, threads, hthreads, rfl⟩ := Transfer.step_connect hstep
    refine ⟨h.paired, hsole, fun server hserver hauth hports => ?_⟩
    have hheading : t.control.heading = .joining := heading_of_phase hphase
    rw [hheading]
    trivial
  | send disk =>
    obtain ⟨-, o, started, body, -, -, rfl⟩ := Transfer.step_send hstep
    exact ⟨h.paired, hsole, prepared_same h rfl rfl rfl rfl rfl rfl⟩
  | take =>
    obtain ⟨-, body, new, -, -, rfl⟩ := Transfer.take_cases hstep
    refine ⟨h.paired, hsole, fun server hserver hauth hports => ?_⟩
    exact (h.prepared server hserver hauth hports).mono rfl (fun _ => id) (fun _ => id)

private theorem ready_start : Ready {} := by
  refine ⟨⟨steady_start, fun auth hauth => ?_⟩, sole_start, ?_⟩
  · obtain rfl := Option.some.inj hauth
    exact rfl
  · intro server hserver hauth
    obtain rfl : ({} : Server) = server := Option.some.inj hserver
    cases hauth

end Steps

def throughTransfer (userInput : CString) (env : Environment) (joinStatus : Int) (disk : Disk) :
    List Transfer.Event :=
  [.control (.ask userInput), .control (.serve env joinStatus), .control .receive, .connect 0,
    .send disk, .control .reply, .take, .control .join, .control .receive]

section Completion
variable {writable : CString → Bool} {t : Transfer} {server : Server} {env : Environment}
  {req : Message} {o : Outcome}

private theorem control_step {a : Action} {s : System} (hfree : t.holds a = false)
    (hs : t.control.step a = some s) : t.step writable (.control a) = some { t with
      control := s
      sockets := t.socketsAfter a
      threads := t.threadsAfter a
      link := t.linkAfter a } := by
  rw [Transfer.step, if_neg (by rw [hfree]; simp), hs, Option.map_some]

private theorem served_transferred (served : Served env req server o)
    (hstarts : startsTransfer env req server = true) (hjoined : env.joinStatus ≠ some 0) :
    ∃ s' text, Starts env req server s' ∧
      o = ⟨{ s'.join with authStatus := .loggedIn }, [newMessage 150 []], 226, text⟩ := by
  cases served with
  | transferred s' status text starts joined success => exact ⟨s', text, starts, rfl⟩
  | failed s' text starts joined => exact absurd joined hjoined
  | refused fileName status text reason error =>
    rw [not_startsTransfer_of_refused reason] at hstarts
    cases hstarts
  | _ => simp [startsTransfer, *] at hstarts

private theorem opening_run (writable : CString → Bool) {userInput : CString}
    {command : Command} {joinStatus : Int}
    (hphase : t.control.client.phase = .prompting)
    (hserving : t.control.serving = .receiving server) (hrequests : t.control.requests = [])
    (hreplies : t.control.replies = []) (hline : request userInput = some (command, req))
    (hexec : execute { env with joinStatus := some joinStatus } req server = some o)
    (hstarts : startsTransfer { env with joinStatus := some joinStatus } req server = true)
    (hnone : started server o.server = []) (hsent : o.sent = [newMessage 150 []]) :
    ∃ s : System, Runs.run (Transfer.step writable) t
        [.control (.ask userInput), .control (.serve env joinStatus), .control .receive] =
          some { t with
            control := s
            link :=
              .waiting (awaited { env with joinStatus := some joinStatus } req server) } ∧
      s.client = { t.control.client.ask command req with phase := .joining } ∧
      s.serving = .answering o true ∧ s.replies = [] := by
  have hcommand : interpret req.command = command := interpret_request hline
  have hcallback : callback command (newMessage 150 []) = .joining := by
    rw [← hcommand]
    exact callback_of_startsTransfer hstarts
  have hask : t.step writable (.control (.ask userInput)) =
      some { t with control := t.control.ask command req } := by
    apply control_step rfl
    simp [System.step, hphase, hline]
  have hasked : (t.control.ask command req).requests = [req] := by simp [System.ask, hrequests]
  have hserve : ({ t with control := t.control.ask command req } : Transfer).step writable
      (.control (.serve env joinStatus)) = some { t with
        control := (t.control.ask command req).serve [] o true
        link :=
          .waiting (awaited { env with joinStatus := some joinStatus } req server) } := by
    have hsockets : Transfer.socketsAfter { t with control := t.control.ask command req }
        (.serve env joinStatus) = t.sockets := by
      have hserving' : (t.control.ask command req).serving = .receiving server := hserving
      simp only [Transfer.socketsAfter, hserving', hasked, hexec, hnone, List.map_nil,
        List.append_nil]
    rw [control_step (s := (t.control.ask command req).serve [] o true) rfl]
    · rw [Transfer.linkAfter_serve (t := { t with control := t.control.ask command req })
        hserving hasked, hsockets]
      rfl
    · simp [System.step, System.ask, hserving, hrequests, hexec, hstarts]
  have hreceive : ((t.control.ask command req).serve [] o true).step .receive =
      some (((t.control.ask command req).serve [] o true).dispatch
        ⟨newMessage 150 [], t.control.served + 1, 0⟩ []) := by
    simp [System.step, System.receive, System.serve, System.ask, Client.ask, System.tagged,
      hreplies, hsent]
  refine ⟨((t.control.ask command req).serve [] o true).dispatch
    ⟨newMessage 150 [], t.control.served + 1, 0⟩ [], ?_, ?_, rfl, rfl⟩
  · simp only [Runs.run_cons, Runs.run_nil, hask, hserve, Option.bind_some]
    exact congrArg (Option.bind · some) (control_step rfl hreceive)
  · simp [System.dispatch, System.goTo, System.serve, System.ask, Client.ask, hcallback]

private theorem Coupled.meets (h : Coupled t server) (hsockets : t.sockets.opening = [])
    (hthreads : t.threads.opening = []) (hstarts : startsTransfer env req server = true)
    {s : System} : t.threads.waiting = [t.control.client.dataThread] ∧
      Transfer.meets { t with control := s, link := .waiting (awaited env req server) }
        (awaited env req server) = true := by
  obtain ⟨port, hmem, hkeeps, hexpects⟩ := h
  have hsignalled : ⟨server.dataThread, port⟩ ∈ awaited env req server := by
    rw [awaited, if_pos hstarts]
    exact List.mem_filter.mpr ⟨hmem, by simp⟩
  have hfd : t.sockets.dataServerFd = some (tcpPort port) := by
    rcases hkeeps with ⟨stage, hopening, -⟩ | ⟨-, hfd⟩
    · cases hsockets.symm.trans hopening
    · exact hfd
  obtain ⟨hwaiting, haddr⟩ : t.threads.waiting = [t.control.client.dataThread] ∧
      t.threads.dataServerAddr = tcpPort port := by
    rcases hexpects with ⟨stage, hopening, -⟩ | ⟨-, hwaits⟩
    · cases hthreads.symm.trans hopening
    · exact hwaits
  have hsome := List.ne_nil_of_mem hsignalled
  exact ⟨hwaiting, by simp [Transfer.meets, hsockets, hfd, haddr, hsome]⟩

private theorem closing_run {threads : List DataThread} {disk : Disk} {body : Block}
    {new : List Retrieved} (hphase : t.control.client.phase = .joining)
    (hserving : t.control.serving = .answering o true) (hreplies : t.control.replies = [])
    (hlink : t.link = .waiting threads) (hopening : t.threads.opening = [])
    (hwaiting : t.threads.waiting = [t.control.client.dataThread])
    (hmeets : t.meets threads = true) (hpayload : payload disk o.server = some body)
    (htook : took writable t.control.client.sentCommand t.control.client.fileName body =
      some new) :
    ∃ t', Runs.run (Transfer.step writable) t [.connect 0, .send disk, .control .reply, .take,
        .control .join, .control .receive] = some t' ∧
      t'.control.client.phase = .prompting ∧ t'.control.serving = .receiving o.server ∧
      t'.retrieved = t.retrieved ++ new := by
  let joined : ClientThreads := { t.threads with
    waiting := []
    active := some t.control.client.dataThread
    connected := true }
  let left : ClientThreads := { joined with active := none }
  have hconnect : t.step writable (.connect 0) =
      some { t with threads := joined, link := .connected } := by
    simp [Transfer.step, hphase, hserving, hlink, hmeets, ClientThreads.connect, hwaiting, joined]
  have hsend : ({ t with threads := joined, link := .connected } : Transfer).step writable
      (.send disk) = some { t with threads := joined, link := .sent body } := by
    simp [Transfer.step, hserving, hpayload]
  have hreply : ({ t with threads := joined, link := .sent body } : Transfer).step writable
      (.control .reply) = some { t with
        control := t.control.reply o true
        threads := joined
        link := .sent body } := by
    apply control_step rfl
    simp [System.step, hserving]
  have htake : ({ t with
      control := t.control.reply o true
      threads := joined
      link := .sent body } : Transfer).step writable .take = some { t with
        control := t.control.reply o true
        threads := left
        link := .done
        retrieved := t.retrieved ++ new } := by
    simp [Transfer.step, Transfer.take, Transfer.received, System.reply, hphase, htook, joined,
      left]
  let s : System := { t.control.reply o true with client := t.control.client.join }
  have hjoin : (t.control.reply o true).step .join = some s := by
    simp [System.step, System.reply, hphase, s]
  have hfinish : s.step .receive = some (s.finish []) := by
    simp [System.step, System.receive, System.reply, hreplies, s, Client.join]
  have hleft : Transfer.holds { t with
      control := t.control.reply o true
      threads := left
      link := .done
      retrieved := t.retrieved ++ new } .join = false := by
    simp [Transfer.holds, ClientThreads.all, left, joined, hopening]
  refine ⟨{ t with
    control := s.finish []
    threads := left
    link := .done
    retrieved := t.retrieved ++ new }, ?_, rfl, rfl, rfl⟩
  simp only [Runs.run_cons, Runs.run_nil, hconnect, hsend, hreply, htake, Option.bind_some]
  rw [control_step hleft hjoin, Option.bind_some]
  exact congrArg (Option.bind · some) (control_step rfl hfinish)

end Completion

/-- In every run in which both mains have the data thread they should have: at each prompt in
MODESELECTED that finds both in their waits, an NLST, or a RETR, whose data there is to fetch can
go through to the next prompt, with just that retrieved. -/
theorem transfer_completes (writable : CString → Bool) (events : List Transfer.Event) (t : Transfer)
    (hrun : Runs.run (Transfer.step writable) {} events = some t)
    (htyped : ∀ e ∈ events, e.Typed)
    (horderly : Runs.Along (Transfer.step writable) Orderly {} events) (server : Server)
    (hserving : t.control.serving = .receiving server)
    (hphase : t.control.client.phase = .prompting) (hsockets : t.sockets.opening = [])
    (hthreads : t.threads.opening = []) (hports : WithinPorts server) (userInput : CString)
    (command : Command) (req : Message)
    (hline : request userInput = some (command, req))
    (huser : nul ∉ userInput ∧ userInput.length < maxBufferSize)
    (env : Environment) (joinStatus : Int) (hjoined : joinStatus ≠ 0)
    (hstarts : startsTransfer { env with joinStatus := some joinStatus } req server = true)
    (hroom : command = .retr →
      (server.relativePath ++ req.body).length < maxRelativePathLength)
    (disk : Disk) (new : List Retrieved)
    (hfetched : Service.fetched writable disk server req = some new) :
    ∃ t', Runs.run (Transfer.step writable) t (throughTransfer userInput env joinStatus disk) =
        some t' ∧ t'.control.client.phase = .prompting ∧ t'.retrieved = t.retrieved ++ new ∧
      ∃ server', t'.control.serving = .receiving server' ∧ server'.authStatus = .loggedIn := by
  obtain ⟨-, v, -, -, hrefines⟩ :=
    exists_refined hrun htyped (horderly.mono fun _ _ hok => hok.calm)
  have hready : Ready t :=
    (horderly.visits (fun _ _ _ h hstep hok => h.step hok hstep) ready_start) events t
      List.prefix_rfl hrun
  have hserver : t.control.server = some server := by rw [System.server, hserving]
  have howed := hready.sole.steady.unread hphase
  have hreplies := replies_of_owed howed
  have hrequests : t.control.requests = [] := by
    rcases hready.sole.steady.converses with hexited | ⟨lost, hlost, -⟩ | ⟨_, _, -, -, -, hrec⟩
    · rw [hphase] at hexited
      cases hexited
    · exact (hlost (by rw [hserving]; simp)).2
    · rw [hphase] at hrec
      cases hrec
  have hauth : server.authStatus = .modeSelected := by
    simp only [startsTransfer, Bool.and_eq_true, decide_eq_true_eq] at hstarts
    exact hstarts.1
  have hcommand : interpret req.command = command := interpret_request hline
  have hplain := plainWord_of_request huser hline
  obtain ⟨o, hexec⟩ := Option.ne_none_iff_exists'.mp (executes_of_startsTransfer hstarts rfl)
  obtain ⟨hdata, hfile⟩ := transfer_globals (Ftp.served hexec) hstarts hplain
  obtain ⟨s', text, starts, rfl⟩ :=
    served_transferred (Ftp.served hexec) hstarts (by simpa using hjoined)
  have hnone : started server ({ s'.join with authStatus := .loggedIn } : Server) = [] :=
    if_pos (Starts.created starts)
  obtain ⟨s, hopening, hclient, hanswering, hnil⟩ :=
    opening_run writable hphase hserving hrequests hreplies hline hexec hstarts hnone rfl
  have hpath : s'.relativePath = server.relativePath := starts.relativePath
  have hfree : nul ∉ s'.relativePath := by
    rw [hpath, ← hrefines.server server hserver]
    exact hrefines.path
  have hfetched' : Service.fetched writable disk
      ({ s'.join with authStatus := .loggedIn } : Server) req = some new := by
    rw [← hfetched]
    simp only [Service.fetched, Server.join, hpath]
  obtain ⟨body, hpayload⟩ := payload_of_fetched hfree hplain hdata
    (fun hretr => ⟨hfile hretr, hpath ▸ hroom (hcommand.symm.trans hretr)⟩) hfetched'
  obtain ⟨new', hnew, htook⟩ := took_payload writable hfree hplain hdata hfile hpayload
  obtain rfl := Option.some.inj (hnew.symm.trans hfetched')
  have hcoupled : Coupled t server := by
    have hprepared := hready.prepared server hserver hauth hports
    rwa [heading_of_phase hphase] at hprepared
  have htook' : took writable s.client.sentCommand s.client.fileName body = some new' := by
    rw [hclient]
    change took writable command (if command = .retr then req.body else _) body = some new'
    rw [← hcommand]
    by_cases hretr : interpret req.command = .retr
    · rw [if_pos hretr]
      exact htook
    · rw [took_name hretr]
      exact htook
  obtain ⟨hwaiting, hmeets⟩ := hcoupled.meets hsockets hthreads hstarts (s := s)
  obtain ⟨t', hclosing, hphase', hserving', hretrieved⟩ :=
    closing_run (t := { t with control := s, link := .waiting _ }) (by rw [hclient]) hanswering
      hnil rfl hthreads (by rw [hclient]; exact hwaiting) hmeets hpayload htook'
  exact ⟨t', Runs.run_trans hopening hclosing, hphase', hretrieved, _, hserving', rfl⟩

private def Willing : Transfer.Event → Prop
  | .control (.serve env joinStatus) => joinStatus ≠ 0 ∧ env.createResult = 0
  | .control (.create createResult _) => createResult = 0
  | _ => True

private theorem orderly_of_willing {t : Transfer} {e : Transfer.Event}
    (h : (Calm t e ∧ Settled t e) ∧ Willing e) : Orderly t e := by
  obtain ⟨⟨hcalm, hsettled⟩, hwilling⟩ := h
  refine ⟨hcalm, hsettled, ?_⟩
  rcases e with a | _ | _ | _ | _ | _ <;> try trivial
  cases a with
  | serve env joinStatus => exact ⟨fun _ _ _ _ _ _ _ => hwilling.1, hwilling.2⟩
  | create createResult createHandle =>
    refine ⟨fun server res _ hphase => ?_, trivial⟩
    have haccepted := hcalm.resolve_right fun hfails => hfails.1 hwilling
    rw [hphase] at haccepted
    exact (if_pos haccepted).mpr hwilling
  | _ => exact ⟨trivial, trivial⟩

private theorem passiveStart_orderly :
    Runs.Along (Transfer.step fun _ => true) Orderly {} passiveStart := by
  have hcalm : Runs.Along (Transfer.step fun _ => true) (fun t e => Calm t e ∧ Settled t e) {}
      passiveStart := by decide +kernel
  have hwilling : ∀ e ∈ passiveStart, Willing e := by
    simp [passiveStart, conversed, Willing, smallSystem]
  exact (hcalm.and_kind hwilling).mono fun _ _ => orderly_of_willing

/-- The file a comes back over the first passive port. -/
theorem retrieval_completes : ∃ t t',
    Runs.run (Transfer.step fun _ => true) {} passiveStart = some t ∧
      Runs.run (Transfer.step fun _ => true) t
        (throughTransfer "retr a".toList smallSystem 1 smallDisk) = some t' ∧
      t'.control.client.phase = .prompting ∧
      t'.retrieved = t.retrieved ++ [.copy "afromServer".toList ['x']] := by
  have hopened : (Runs.run (Transfer.step fun _ => true) {} passiveStart).bind (fun t =>
      t.control.server.map fun server =>
        ((t.control.client.phase, t.control.owed, t.sockets.opening.length,
          t.threads.opening.length), server.authStatus, server.portIdx, server.relativePath)) =
        some ((.prompting, [], 0, 0), .modeSelected, 1, "./".toList) := by decide +kernel
  obtain ⟨t, ht, hend⟩ := Option.bind_eq_some_iff.mp hopened
  obtain ⟨server, hserver, hfields⟩ := Option.map_eq_some_iff.mp hend
  simp only [Prod.mk.injEq, List.length_eq_zero_iff] at hfields
  obtain ⟨⟨hphase, howed, hsockets, hthreads⟩, hselected, hidx, hpath⟩ := hfields
  obtain ⟨server', hserving, -⟩ :=
    serving_of_status howed (authStatus_of_server hserver hselected)
  have hsame : t.control.server = some server' := by rw [System.server, hserving]
  obtain rfl := Option.some.inj (hserver.symm.trans hsame)
  have hports : WithinPorts server := by
    rw [WithinPorts, hidx]
    decide
  have hstarts : startsTransfer { smallSystem with joinStatus := some 1 }
      ⟨0, "retr".toList, "a".toList⟩ server = true := by
    simp only [startsTransfer, hselected, hpath]
    decide +kernel
  have hfetched : Service.fetched (fun _ => true) smallDisk server
      ⟨0, "retr".toList, "a".toList⟩ = some [.copy "afromServer".toList ['x']] := by
    simp only [Service.fetched, hpath]
    decide +kernel
  obtain ⟨t', ht', hprompt, hretrieved, -⟩ :=
    transfer_completes (fun _ => true) passiveStart t ht passiveStart_typed passiveStart_orderly
      server hserving hphase hsockets hthreads hports "retr a".toList .retr _
      (by decide +kernel) (by decide) smallSystem 1 (by decide) hstarts
      (fun _ => by rw [hpath]; decide) smallDisk _ hfetched
  exact ⟨t, t', ht, ht', hprompt, hretrieved⟩

end NetworkProtocol.Ftp
