import Mathlib.Data.List.GetD
import NetworkProtocol.Ftp.AddressDecoding
import NetworkProtocol.Ftp.DataPorts
import NetworkProtocol.Ftp.ModeAgreement
import NetworkProtocol.Ftp.PortText
import NetworkProtocol.Ftp.WriteSets

/-! The two ends of a data connection. The server's thread is started on a number, the client's
reads one in the text of the reply, and a whole conversation lies between a number and its use. -/
namespace NetworkProtocol.Ftp
open CString

/-- The globals when the request now served is done with. -/
def System.server (s : System) : Option Server :=
  match s.serving with
  | .receiving server => some server
  | .answering o _ => some o.server
  | .ended => none

/-- The data thread that dataThread names waits on the port the client reads in the reply. -/
def Meets (server : Server) (sentCommand : Command) (res : Message) : Prop :=
  ∃ port, ⟨server.dataThread, port⟩ ∈ server.unjoined ∧
    dataPort sentCommand res.body = some (some port)

/-- The request has started the data thread whose port the client reads in the reply. -/
def Announces (server server' : Server) (sentCommand : Command) (res : Message) : Prop :=
  ∃ port, started server server' = [⟨server'.dataThread, port⟩] ∧
    dataPort sentCommand res.body = some (some port)

def WithinPorts (server : Server) : Prop := server.portIdx ≤ ports.length

def Creates : Action → Prop
  | .serve env _ => env.createResult = 0
  | _ => True

structure Meeting (s : System) : Prop where
  steady : Steady s
  meets : ∀ res server, s.heading = .creating res → extractClass res.status = 2 →
    s.server = some server → WithinPorts server →
    server.authStatus = .modeSelected ∧ Meets server s.client.sentCommand res

section Request
variable {env : Environment} {req : Message} {server : Server} {o : Outcome}

private theorem dataPort_ports {port : Int} (hport : port ∈ ports) :
    dataPort .pasv (passiveText port) = some (some port) := by
  obtain ⟨n, rfl, hlow⟩ : ∃ n : Fin 65536, port = n.val ∧ n.val % 256 ≠ 0 := by
    simp only [ports, List.mem_cons, List.not_mem_nil, or_false] at hport
    refine ⟨⟨port.toNat % 65536, Nat.mod_lt _ (by decide)⟩, ?_⟩
    dsimp only
    omega
  have hdecoded : decoded (n.val / 256) (n.val % 256) = (n.val : Int) := by
    rw [(decoded_iff _ _).mpr (.inr hlow)]
    omega
  rw [dataPort_passive, hdecoded]

private theorem creating_of_callback {command : Command} {r res : Message}
    (h : callback command r = .creating res) : (command = .pasv ∨ command = .port) ∧ r = res := by
  cases command with
  | pasv => exact ⟨.inl rfl, Phase.creating.inj h⟩
  | port => exact ⟨.inr rfl, Phase.creating.inj h⟩
  | nlst => simp only [callback] at h; split at h <;> cases h
  | retr => simp only [callback] at h; split at h <;> cases h
  | _ => cases h

/-- A started thread is not joined yet. -/
theorem mem_started {s s' : Server} {thread : DataThread} (h : thread ∈ started s s') :
    thread ∈ s'.unjoined := by
  rw [started] at h
  split at h
  · cases h
  · exact List.mem_of_getLast? (Option.mem_toList.mp h)

private theorem Announces.meets {server' : Server} {sentCommand : Command} {res : Message}
    (h : Announces server server' sentCommand res) : Meets server' sentCommand res := by
  obtain ⟨port, hstarted, hport⟩ := h
  exact ⟨port, mem_started (by rw [hstarted]; exact List.mem_singleton_self _), hport⟩

private theorem started_dataThread (hcreate : env.createResult = 0) (port : Int)
    (auth : AuthorizationStatus) :
    started server { server.create env port with authStatus := auth } =
      [⟨(server.create env port).dataThread, port⟩] := by
  rw [started_create hcreate, Server.create, if_pos hcreate]

private theorem nextPort_mem (h : server.portIdx < ports.length) :
    server.nextPort env ∈ ports := by
  rw [Server.nextPort, List.getD_eq_getElem _ _ h]
  exact List.getElem_mem h

private theorem refusal_class {status : Int} (h : 400 ≤ status) : extractClass status ≠ 2 := by
  rw [extractClass, Int.tdiv_eq_ediv_of_nonneg (by omega)]
  omega

private theorem pasv_announces (hexec : execute env req server = some o)
    (command : interpret req.command = .pasv) (hclass : extractClass o.status = 2)
    (hcreate : env.createResult = 0) (hports : WithinPorts o.server) :
    o.server.authStatus = .modeSelected ∧ Announces server o.server .pasv
      (newMessage o.status o.responseMessage) := by
  have hpasv : server.pasv env = o := by
    rw [execute, command] at hexec
    exact Option.some.inj hexec
  rcases Classical.em (server.authStatus = .loggedIn) with hauth | hauth
  · have htext : o.responseMessage = passiveText (server.nextPort env) := hpasv ▸ pasv_text hauth
    rw [Server.pasv, if_neg (not_not.mpr hauth)] at hpasv
    dsimp only at hpasv
    rw [selectMode_eq] at hpasv
    have hserver := congrArg Outcome.server hpasv.symm
    rw [hserver, WithinPorts] at hports
    have hnext : server.portIdx < ports.length := by
      have hidx := create_portIdx env { server with portIdx := server.portIdx + 1 }
        (server.nextPort env)
      exact Nat.lt_of_succ_le (hidx.symm.le.trans hports)
    refine ⟨by rw [hserver], server.nextPort env, ?_, ?_⟩
    · rw [hserver]
      exact @started_dataThread env { server with portIdx := server.portIdx + 1 } hcreate _ _
    · rw [newMessage, htext]
      exact dataPort_ports (nextPort_mem hnext)
  · rw [Server.pasv, if_pos hauth] at hpasv
    rw [← hpasv] at hclass
    exact absurd hclass (refusal_class (by norm_num [Server.loginFirst, Server.answer]))

private theorem port_announces (hexec : execute env req server = some o)
    (command : interpret req.command = .port) (hclass : extractClass o.status = 2)
    (hcreate : env.createResult = 0) :
    o.server.authStatus = .modeSelected ∧ Announces server o.server .port
      (newMessage o.status o.responseMessage) := by
  have hport : server.port env req.body = o := by
    rw [execute, command] at hexec
    exact Option.some.inj hexec
  rw [Server.port] at hport
  split at hport
  · rw [← hport] at hclass
    exact absurd hclass (refusal_class (by norm_num [Server.loginFirst, Server.answer]))
  · split at hport
    · rw [← hport] at hclass
      exact absurd hclass (refusal_class (by norm_num [Server.answer]))
    · rename_i address _
      rw [selectMode_eq] at hport
      rw [← hport]
      exact ⟨rfl, address.port, started_dataThread hcreate _ _, dataPort_successful address.port⟩

/-- An accepted mode command selects the mode and announces its port. -/
theorem mode_accepted (hexec : execute env req server = some o)
    (hcommand : interpret req.command = .pasv ∨ interpret req.command = .port)
    (hclass : extractClass o.status = 2) (hcreate : env.createResult = 0)
    (hports : WithinPorts o.server) :
    o.server.authStatus = .modeSelected ∧
      Announces server o.server (interpret req.command)
        (newMessage o.status o.responseMessage) := by
  rcases hcommand with hcommand | hcommand
  · rw [hcommand]
    exact pasv_announces hexec hcommand hclass hcreate hports
  · rw [hcommand]
    exact port_announces hexec hcommand hclass hcreate

end Request

section Steps
variable {s s' : System} {a : Action}

/-- The outcome of a serve step is what execute returns. -/
theorem executed {env : Environment} {joinStatus : Int} {server : Server} {req : Message}
    {rest : List Message} {o : Outcome} {started : Bool}
    (h : s.step (.serve env joinStatus) = some (s.serve rest o started))
    (hserving : s.serving = .receiving server) (hrequests : s.requests = req :: rest) :
    execute { env with joinStatus := some joinStatus } req server = some o := by
  simp only [System.step, hserving, hrequests] at h
  split at h
  · have := congrArg System.serving (Option.some.inj h)
    cases this
  · rename_i o' hexec
    have hserving' := congrArg System.serving (Option.some.inj h)
    obtain ⟨rfl, -⟩ := Serving.answering.inj hserving'
    exact hexec

private theorem meeting_serve {env : Environment} {joinStatus : Int} {server : Server}
    {req : Message} {rest : List Message} {o : Outcome} (h : Meeting s)
    (hserving : s.serving = .receiving server) (hrequests : s.requests = req :: rest)
    (hexec : execute { env with joinStatus := some joinStatus } req server = some o)
    (hcreate : env.createResult = 0) {res : Message} {started : Bool}
    (hheading : (s.serve rest o started).heading = .creating res)
    (hstarted : started = startsTransfer { env with joinStatus := some joinStatus } req server)
    (hclass : extractClass res.status = 2) (hports : WithinPorts o.server) :
    o.server.authStatus = .modeSelected ∧ Meets o.server s.client.sentCommand res := by
  rcases Classical.em (s.client.phase = .exited) with hexited | halive
  · rw [heading_of_phase (s := s.serve _ _ _) hexited] at hheading
    cases hheading
  · obtain ⟨rfl, hreplies, hphase, hcommand⟩ := h.steady.asking halive hserving hrequests
    obtain ⟨r, rest, howed, hr⟩ := owed_head_serve hreplies (Ftp.served hexec)
    rw [← hstarted] at howed
    rw [heading_of_owed (s := s.serve _ _ _) hphase howed, hr] at hheading
    simp only [System.serve, ← hcommand] at hheading
    obtain ⟨hmode, rfl⟩ := creating_of_callback hheading
    have hquiet : startsTransfer { env with joinStatus := some joinStatus } req server = false := by
      rcases hmode with hmode | hmode <;> simp [startsTransfer, hmode]
    rw [openingReply, hquiet] at hclass ⊢
    rw [← hcommand]
    obtain ⟨hselected, hannounces⟩ := mode_accepted hexec hmode hclass hcreate hports
    exact ⟨hselected, hannounces.meets⟩

private theorem Meeting.same (h : Meeting s) (hsteady : Steady s')
    (hheading : s'.heading = s.heading) (hserver : s'.server = s.server)
    (hcommand : s'.client.sentCommand = s.client.sentCommand) : Meeting s' := by
  refine ⟨hsteady, ?_⟩
  rw [hheading, hserver, hcommand]
  exact h.meets

private theorem meeting_elsewhere (hsteady : Steady s')
    (hheading : ∀ res, s'.heading ≠ .creating res) : Meeting s' :=
  ⟨hsteady, fun res _ h => absurd h (hheading res)⟩

private theorem Meeting.step (h : Meeting s) (hok : Creates a) (hstep : s.step a = some s') :
    Meeting s' := by
  have hsteady : Steady s' := steady_step h.steady (stepped hstep)
  cases stepped hstep with
  | asked userInput command req phase line =>
    refine meeting_elsewhere hsteady fun res => ?_
    have howed : (s.ask command req).owed = [] := h.steady.unread phase
    rw [heading_of_nothing howed]
    exact Phase.noConfusion
  | askedAgain userInput phase => exact h
  | served env joinStatus server req rest o serving requests outcome =>
    have hexec := executed hstep serving requests
    refine ⟨hsteady, fun res server' hheading hclass hserver hports => ?_⟩
    obtain rfl : o.server = server' := Option.some.inj hserver
    exact meeting_serve h serving requests hexec hok hheading rfl hclass hports
  | broken env joinStatus server req rest serving requests outcome =>
    exact ⟨hsteady, fun _ _ _ _ hserver => by cases hserver⟩
  | replied o started serving =>
    refine h.same hsteady ?_ ?_ rfl
    · rw [System.heading, System.heading, owed_reply serving]
      rfl
    · rw [System.server, System.server, serving]
      rfl
  | dispatched r rest phase replies =>
    have howed : s.owed = r :: (s.dispatch r rest).owed := owed_of_replies replies rfl rfl rfl
    have hheading : (s.dispatch r rest).heading = callback s.client.sentCommand r.message :=
      heading_of_phase rfl callback_phases.1
    exact h.same hsteady (hheading.trans (heading_of_owed phase howed).symm) rfl rfl
  | finished r rest phase replies =>
    refine meeting_elsewhere hsteady fun res => ?_
    have hheading : (s.finish rest).heading = .prompting := heading_of_phase rfl
    rw [hheading]
    exact Phase.noConfusion
  | dispatchedZeros phase replies serving =>
    refine ⟨hsteady, fun _ _ _ _ hserver => ?_⟩
    simp [System.server, System.goTo, serving] at hserver
  | finishedNothing phase replies serving =>
    refine ⟨hsteady, fun _ _ _ _ hserver => ?_⟩
    simp [System.server, System.goTo, serving] at hserver
  | created createResult createHandle res phase =>
    refine meeting_elsewhere hsteady fun res => ?_
    rw [heading_of_phase (create_phase _ _ _)]
    exact Phase.noConfusion
  | joined phase =>
    refine meeting_elsewhere hsteady fun res => ?_
    have hheading : ({ s with client := s.client.join } : System).heading = .finishing :=
      heading_of_phase rfl
    rw [hheading]
    exact Phase.noConfusion
  | serverExited => exact ⟨hsteady, fun _ _ _ _ hserver => by cases hserver⟩
  | clientExited =>
    refine meeting_elsewhere hsteady fun res => ?_
    have hheading : (s.goTo .exited).heading = .exited := heading_of_phase rfl
    rw [hheading]
    exact Phase.noConfusion

private theorem meeting_start : Meeting {} :=
  meeting_elsewhere steady_start fun res => by
    have howed : ({} : System).owed = [greeting] := rfl
    rw [heading_of_owed rfl howed]
    exact Phase.noConfusion

end Steps

/-- In every run: when the client comes to create its data thread on a 2xx reply, the server is in
MODESELECTED, its data thread has been started, and the client's will connect to that very port,
be it the next of ports[] or the one the user asked for. -/
theorem ports_meet (actions : List Action) (s : System) (server : Server) (res : Message)
    (hrun : Runs.run System.step {} actions = some s) (hcreates : ∀ a ∈ actions, Creates a)
    (hserving : s.serving = .receiving server) (hphase : s.client.phase = .creating res)
    (hclass : extractClass res.status = 2) (hports : WithinPorts server) :
    server.authStatus = .modeSelected ∧ Meets server s.client.sentCommand res := by
  have hkeep : ∀ t a t', Meeting t → System.step t a = some t' → Creates a → Meeting t' :=
    fun t a t' h hstep hok => h.step hok hstep
  have hmeeting : Meeting s :=
    Runs.henceforth_of_invariant hkeep (fun _ h => h) (fun _ _ h => h) meeting_start actions s
      hcreates hrun
  refine hmeeting.meets res server ?_ hclass ?_ hports
  · rw [heading_of_phase hphase]
  · rw [System.server, hserving]

private def willing : Environment := ⟨fun _ => none, fun _ => 0, 0, 0, none⟩

private def spoken (line : String) : List Action :=
  [.ask line.toList, .serve willing 1, .reply, .receive]

private def passiveLogin : List Action :=
  .receive :: (spoken "user auaicn" ++ spoken "pass thislove1!" ++ spoken "pasv")

/-- After a login and a PASV both sides mean port 1025. -/
theorem passiveLogin_meets : ∃ s server res, Runs.run System.step {} passiveLogin = some s ∧
    s.serving = .receiving server ∧ s.client.phase = .creating res ∧
    server.authStatus = .modeSelected ∧ Meets server s.client.sentCommand res := by
  have hrun : (Runs.run System.step {} passiveLogin).map
      (fun s => (s.client.phase, s.owed, s.authStatus, s.server.map Server.portIdx)) =
        some (.creating (newMessage 227 (passiveText 1025)), [], some .modeSelected, some 1) := by
    decide +kernel
  obtain ⟨s, hs, hend⟩ := Option.map_eq_some_iff.mp hrun
  simp only [Prod.mk.injEq] at hend
  obtain ⟨hphase, howed, hauth, hidx⟩ := hend
  obtain ⟨server, hserving, -⟩ := serving_of_status howed hauth
  have hports : WithinPorts server := by
    rw [System.server, hserving] at hidx
    have hone : server.portIdx = 1 := Option.some.inj hidx
    rw [WithinPorts, hone]
    decide
  have hcreates : ∀ a ∈ passiveLogin, Creates a := by
    simp [passiveLogin, spoken, Creates, willing]
  exact ⟨s, server, _, hs, hserving, hphase,
    ports_meet passiveLogin s server _ hs hcreates hserving hphase (by decide) hports⟩

end NetworkProtocol.Ftp
