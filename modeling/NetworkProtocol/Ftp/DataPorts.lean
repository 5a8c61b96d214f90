import Mathlib.Data.List.Perm.Basic
import NetworkProtocol.Ftp.PassivePorts

/-! The ports that the data threads bind, with the globals that all of them set up their sockets
in. No socket of theirs is ever closed, and a port that is in use already ends the whole server, so
its life depends on the ports it was asked for, and on one set-up being over before the next. -/
namespace NetworkProtocol.Ftp
open Server
open scoped List

def serverControlPort : Nat := 21

def tcpPort (port : Int) : Nat := (port % 65536).toNat

inductive Stage where
  | socket
  | address
  | bind
  deriving DecidableEq, Repr

/-- The data threads that are not through with their set-ups, and the globals they share:
data_server_fd as the port that its socket is bound to, and the port of data_server_addr. Bound
are the ports that bind was called with. -/
structure DataSockets where
  opening : List (DataThread × Stage) := []
  dataServerFd : Option Nat := none
  dataServerAddr : Nat := 0
  bound : List Nat := []

namespace DataSockets

/-- bind of the globals, and whether it fails with EADDRINUSE. A socket that has a port already
gives EINVAL, which dataThreadRoutine lets pass; free is the port the system picks for 0. -/
def bind (d : DataSockets) (i free : Nat) : Option (DataSockets × Bool) :=
  let opening := d.opening.eraseIdx i
  let use (port : Nat) : DataSockets × Bool :=
    ({ d with
        opening := opening
        dataServerFd := some port
        bound := d.bound ++ [port] }, port ∈ serverControlPort :: d.bound)
  if d.dataServerFd ≠ none then some ({ d with opening := opening }, false)
  else if d.dataServerAddr ≠ 0 then some (use d.dataServerAddr)
  else if free ≠ 0 ∧ free < 65536 ∧ free ∉ serverControlPort :: d.bound then some (use free)
  else none

/-- The next step of the i-th of these threads, and whether it ends the process. -/
def setUp (d : DataSockets) (i free : Nat) : Option (DataSockets × Bool) :=
  match d.opening[i]? with
  | none => none
  | some (thread, .socket) =>
    some ({ d with opening := d.opening.set i (thread, .address), dataServerFd := none }, false)
  | some (thread, .address) =>
    some ({ d with
      opening := d.opening.set i (thread, .bind)
      dataServerAddr := tcpPort thread.port }, false)
  | some (_, .bind) => d.bind i free

/-- No thread begins its set-up while another is between its socket and its bind. -/
def Apart (d : DataSockets) (i : Nat) : Prop :=
  d.opening[i]?.map Prod.snd = some .socket → ∀ other ∈ d.opening, other.2 = .socket

instance (d : DataSockets) (i : Nat) : Decidable (d.Apart i) :=
  inferInstanceAs (Decidable (_ → _))

end DataSockets

def started (s s' : Server) : List DataThread :=
  if s'.created = s.created then [] else s'.unjoined.getLast?.toList

/-- The server's process: main, and the data threads up to their waits. -/
structure Process where
  main : Main := {}
  sockets : DataSockets := {}
  exited : Bool := false

namespace Process

/-- A step of main, or of one data thread on its way to the wait. -/
inductive Event where
  | serve (e : Ftp.Event)
  | setUp (i : Nat) (free : Nat)

def step (p : Process) : Event → Option Process
  | .serve e =>
    if p.exited then none
    else (Ftp.step p.main e).map fun m =>
      { p with
        main := m
        sockets := { p.sockets with
          opening := p.sockets.opening ++ (started p.main.server m.server).map (·, .socket) } }
  | .setUp i free =>
    if p.exited then none
    else (p.sockets.setUp i free).map fun (sockets, inUse) =>
      { p with sockets := sockets, exited := inUse }

def Event.Creates : Event → Prop
  | .serve (.request env _) => env.createResult = 0
  | _ => True

def Apart (p : Process) : Event → Prop
  | .serve _ => True
  | .setUp i _ => p.sockets.Apart i

instance (p : Process) (e : Event) : Decidable (p.Apart e) :=
  match e with
  | .serve _ => inferInstanceAs (Decidable True)
  | .setUp i _ => inferInstanceAs (Decidable (p.sockets.Apart i))

end Process

def Exchange.isActive (e : Exchange) : Bool := e.command = .port && e.status = 200

/-- The ports of the data threads that the exchanges have led to, the next PASV taking the k-th
of ports[]. -/
def openedPorts : Nat → List Exchange → List Int
  | _, [] => []
  | k, e :: t =>
    if e.isPassive then ports.getD k 0 :: openedPorts (k + 1) t
    else if e.isActive then
      ((requested e.body).map (·.port)).toList ++ openedPorts k t
    else openedPorts k t

section Opened

private theorem openedPorts_append (k : Nat) (t u : List Exchange) :
    openedPorts k (t ++ u) =
      openedPorts k t ++ openedPorts (k + t.countP Exchange.isPassive) u := by
  induction t generalizing k with
  | nil => rfl
  | cons e t ih =>
    rw [List.cons_append, openedPorts, openedPorts]
    by_cases hpassive : e.isPassive = true
    · rw [if_pos hpassive, if_pos hpassive, ih, List.countP_cons_of_pos hpassive]
      simp only [List.cons_append]
      congr 3
      omega
    · rw [if_neg hpassive, if_neg hpassive, List.countP_cons_of_neg hpassive]
      split_ifs
      · rw [ih, List.append_assoc]
      · exact ih k

/-- Without an accepted PORT the threads are given ports[] from the k-th on. -/
theorem openedPorts_passive {k : Nat} {t : List Exchange}
    (hactive : ∀ e ∈ t, e.isActive = false)
    (hinside : k + t.countP Exchange.isPassive ≤ ports.length) :
    openedPorts k t = (ports.drop k).take (t.countP Exchange.isPassive) := by
  induction t generalizing k with
  | nil => rfl
  | cons e t ih =>
    obtain ⟨he, ht⟩ := List.forall_mem_cons.mp hactive
    rw [openedPorts]
    by_cases hpassive : e.isPassive = true
    · rw [List.countP_cons_of_pos hpassive] at hinside ⊢
      have hlt : k < ports.length := by omega
      rw [if_pos hpassive, ih ht (by omega), List.drop_eq_getElem_cons hlt, List.take_succ_cons,
        List.getD, List.getElem?_eq_getElem hlt]
      rfl
    · rw [List.countP_cons_of_neg hpassive] at hinside ⊢
      rw [if_neg hpassive, if_neg (by simp [he])]
      exact ih ht hinside

end Opened

section Started
variable {env : Environment} {req : Message} {s s' : Server} {o : Outcome}

private theorem started_none (h : o.server.created = s.created) {k : Nat}
    (hpassive : (exchange req o).isPassive = false) (hactive : (exchange req o).isActive = false) :
    (started s o.server).map (·.port) = openedPorts k [exchange req o] := by
  rw [started, if_pos h, openedPorts, if_neg (by simp [hpassive]), if_neg (by simp [hactive]),
    openedPorts, List.map_nil]

private theorem started_other (h : o.server.created = s.created) {k : Nat} {command : Command}
    (hcommand : interpret req.command = command)
    (hne : command ≠ .pasv ∧ command ≠ .port := by decide) :
    (started s o.server).map (·.port) = openedPorts k [exchange req o] := by
  apply started_none h
  · simp [Exchange.isPassive, exchange, hcommand, hne.1]
  · simp [Exchange.isActive, exchange, hcommand, hne.2]

/-- pthread_create starts one thread on the port. -/
theorem started_create (hcreate : env.createResult = 0) (port : Int)
    (auth : AuthorizationStatus) :
    started s { s.create env port with authStatus := auth } = [⟨s.created + 1, port⟩] := by
  rw [started, create, if_pos hcreate]
  simp

/-- A transfer starts no thread. -/
theorem Starts.created (starts : Starts env req s s') : s'.created = s.created := by
  obtain ⟨-, ⟨-, rfl⟩ | ⟨-, name, -, -, rfl⟩⟩ := starts
  · rfl
  · rfl

private theorem started_transfer (starts : Starts env req s s')
    (h : o.server.created = s'.created) {k : Nat} :
    (started s o.server).map (·.port) = openedPorts k [exchange req o] := by
  rcases starts.command with command | command
  · exact started_other (h.trans starts.created) command
  · exact started_other (h.trans starts.created) command

/-- The thread that a request has started is the one its exchange speaks of. -/
theorem started_served (served : Served env req s o) (hcreate : env.createResult = 0)
    (hinside : interpret req.command = .pasv → s.authStatus = .loggedIn →
      s.portIdx < ports.length) :
    (started s o.server).map (·.port) = openedPorts s.portIdx [exchange req o] := by
  cases served with
  | refused fileName status text reason error =>
    have hpassive : status ≠ 227 := by
      rintro rfl
      exact absurd error (by decide)
    have hactive : status ≠ 200 := by
      rintro rfl
      exact absurd error (by decide)
    exact started_none rfl (by simp [Exchange.isPassive, exchange, hpassive])
      (by simp [Exchange.isActive, exchange, hactive])
  | identified text command auth body => exact started_other rfl command
  | loggedOn text command auth body => exact started_other rfl command
  | already text command auth => exact started_other rfl command
  | left text command => exact started_other rfl command
  | moved relativePath text command auth change => exact started_other rfl command
  | typed asciiMode text command auth => exact started_other rfl command
  | passive text command auth =>
    have hstarted := started_create (s := { s with portIdx := s.portIdx + 1 }) hcreate
      (s.nextPort env) .modeSelected
    have hlt := hinside command auth
    have hport : s.nextPort env = ports.getD s.portIdx 0 := by
      simp [nextPort, List.getD, List.getElem?_eq_getElem hlt]
    rw [openedPorts, if_pos (by simp [Exchange.isPassive, exchange, command]), openedPorts,
      ← hport]
    exact congrArg (List.map (·.port)) hstarted
  | active address text command auth parsed =>
    rw [openedPorts, if_neg (by simp [Exchange.isPassive, exchange, command]),
      if_pos (by simp [Exchange.isActive, exchange, command])]
    change _ = ((requested req.body).map (·.port)).toList ++ _
    rw [parsed, openedPorts]
    exact congrArg (List.map (·.port)) (started_create hcreate address.port .modeSelected)
  | transferred s' status text starts joined success => exact started_transfer starts rfl
  | failed s' text starts joined => exact started_transfer starts rfl

end Started

namespace DataSockets
variable {d d' : DataSockets} {i free : Nat} {ends : Bool}

/-- What bind does: nothing to a socket that has a port, or it takes one. -/
theorem bind_cases (h : d.bind i free = some (d', ends)) :
    (d.dataServerFd ≠ none ∧ ends = false ∧ d' = { d with opening := d.opening.eraseIdx i }) ∨
    ∃ port, d.dataServerFd = none ∧
      (d.dataServerAddr ≠ 0 ∧ port = d.dataServerAddr ∨
        d.dataServerAddr = 0 ∧ port ∉ serverControlPort :: d.bound) ∧
      ends = decide (port ∈ serverControlPort :: d.bound) ∧
      d' = { d with
        opening := d.opening.eraseIdx i
        dataServerFd := some port
        bound := d.bound ++ [port] } := by
  simp only [bind] at h
  split at h
  · rename_i hfd
    obtain ⟨rfl, rfl⟩ := Prod.mk.inj (Option.some.inj h)
    exact .inl ⟨hfd, rfl, rfl⟩
  · rename_i hfd
    split at h
    · rename_i haddr
      obtain ⟨rfl, rfl⟩ := Prod.mk.inj (Option.some.inj h)
      exact .inr ⟨_, not_not.mp hfd, .inl ⟨haddr, rfl⟩, rfl, rfl⟩
    · rename_i haddr
      obtain ⟨⟨-, -, hfree⟩, heq⟩ := Runs.guarded h
      obtain ⟨rfl, rfl⟩ := Prod.mk.inj heq
      exact .inr ⟨_, not_not.mp hfd, .inr ⟨not_not.mp haddr, hfree⟩, rfl, rfl⟩

/-- What each step of a set-up needs and does. -/
theorem setUp_cases (h : d.setUp i free = some (d', ends)) : ∃ thread,
    (d.opening[i]? = some (thread, .socket) ∧ ends = false ∧
      d' = { d with opening := d.opening.set i (thread, .address), dataServerFd := none }) ∨
    (d.opening[i]? = some (thread, .address) ∧ ends = false ∧
      d' = { d with
        opening := d.opening.set i (thread, .bind)
        dataServerAddr := tcpPort thread.port }) ∨
    d.opening[i]? = some (thread, .bind) ∧ d.bind i free = some (d', ends) := by
  rw [setUp] at h
  split at h
  · cases h
  · rename_i thread hget
    obtain ⟨rfl, rfl⟩ := Prod.mk.inj (Option.some.inj h)
    exact ⟨thread, .inl ⟨hget, rfl, rfl⟩⟩
  · rename_i thread hget
    obtain ⟨rfl, rfl⟩ := Prod.mk.inj (Option.some.inj h)
    exact ⟨thread, .inr (.inl ⟨hget, rfl, rfl⟩)⟩
  · rename_i thread hget
    exact ⟨thread, .inr (.inr ⟨hget, h⟩)⟩

def OthersWait (opening : List (DataThread × Stage)) (i : Nat) : Prop :=
  ∀ (j : Nat) (other : DataThread × Stage), j ≠ i → opening[j]? = some other → other.2 = .socket

/-- A thread between its socket and its bind has the globals for itself. -/
def Alone (d : DataSockets) : Prop :=
  ∀ (i : Nat) (thread : DataThread) (stage : Stage), d.opening[i]? = some (thread, stage) →
    stage ≠ .socket → d.dataServerFd = none ∧
      (stage = .bind → d.dataServerAddr = tcpPort thread.port) ∧ OthersWait d.opening i

private theorem Alone.append (h : d.Alone) (threads : List DataThread) :
    Alone { d with opening := d.opening ++ threads.map (·, .socket) } := by
  have hnew {j : Nat} {other : DataThread × Stage} (hj : d.opening.length ≤ j)
      (hother : (d.opening ++ threads.map (·, Stage.socket))[j]? = some other) :
      other.2 = .socket := by
    rw [List.getElem?_append_right hj] at hother
    obtain ⟨thread, -, rfl⟩ := List.mem_map.mp (List.mem_of_getElem? hother)
    rfl
  intro i thread stage hget hstage
  rcases Nat.lt_or_ge i d.opening.length with hi | hi
  · dsimp only at hget
    rw [List.getElem?_append_left hi] at hget
    obtain ⟨hfd, haddr, hothers⟩ := h i thread stage hget hstage
    refine ⟨hfd, haddr, fun j other hne hother => ?_⟩
    rcases Nat.lt_or_ge j d.opening.length with hj | hj
    · rw [List.getElem?_append_left hj] at hother
      exact hothers j other hne hother
    · exact hnew hj hother
  · exact absurd (hnew hi hget) hstage

private theorem alone_set {d : DataSockets} {thread : DataThread} {stage : Stage} {addr : Nat}
    (hothers : OthersWait d.opening i) (haddr : stage = .bind → addr = tcpPort thread.port) :
    Alone { d with
      opening := d.opening.set i (thread, stage)
      dataServerFd := none
      dataServerAddr := addr } := by
  have hkept {j : Nat} {other : DataThread × Stage} (hne : j ≠ i)
      (hother : (d.opening.set i (thread, stage))[j]? = some other) : other.2 = .socket := by
    rw [List.getElem?_set_ne hne.symm] at hother
    exact hothers j other hne hother
  intro j thread' stage' hget hstage
  by_cases hji : j = i
  · subst hji
    have heq : (thread, stage) = (thread', stage') := by
      obtain ⟨hlt, hget⟩ := List.getElem?_eq_some_iff.mp hget
      rwa [List.getElem_set_self] at hget
    obtain ⟨rfl, rfl⟩ := Prod.mk.inj heq
    exact ⟨rfl, haddr, fun j other hne hother => hkept hne hother⟩
  · exact absurd (hkept hji hget) hstage

private theorem othersWait_of_apart (hapart : d.Apart i) {thread : DataThread}
    (hget : d.opening[i]? = some (thread, .socket)) : OthersWait d.opening i := by
  intro j other _ hother
  refine hapart ?_ other (List.mem_of_getElem? hother)
  rw [hget]
  rfl

private theorem Alone.setUp (h : d.Alone) (hapart : d.Apart i)
    (hstep : d.setUp i free = some (d', ends)) : d'.Alone := by
  obtain ⟨thread, ⟨hget, -, rfl⟩ | ⟨hget, -, rfl⟩ | ⟨hget, hbind⟩⟩ := setUp_cases hstep
  · exact alone_set (d := d) (othersWait_of_apart hapart hget) (by simp)
  · obtain ⟨hfd, -, hothers⟩ := h i thread .address hget (by simp)
    have hset : Alone { d with
        opening := d.opening.set i (thread, .bind)
        dataServerFd := none
        dataServerAddr := tcpPort thread.port } := alone_set hothers fun _ => rfl
    rwa [← hfd] at hset
  · obtain ⟨-, -, hothers⟩ := h i thread .bind hget (by simp)
    have hopening : d'.opening = d.opening.eraseIdx i := by
      obtain ⟨-, -, rfl⟩ | ⟨port, -, -, -, rfl⟩ := bind_cases hbind
      · rfl
      · rfl
    intro j thread' stage' hget' hstage
    rw [hopening, List.getElem?_eraseIdx] at hget'
    split at hget'
    · rename_i hlt
      exact absurd (hothers j _ (by omega) hget') hstage
    · rename_i hge
      exact absurd (hothers (j + 1) _ (by omega) hget') hstage

/-- While no port has been asked for twice, and no bind was for the control port. -/
def Free (d : DataSockets) : Prop := (serverControlPort :: d.bound).Nodup

/-- A set-up ends the process just when it makes the first clash. -/
theorem setUp_ends_iff (hfree : d.Free) (hstep : d.setUp i free = some (d', ends)) :
    ends = true ↔ ¬ d'.Free := by
  obtain ⟨thread, ⟨-, rfl, rfl⟩ | ⟨-, rfl, rfl⟩ | ⟨-, hbind⟩⟩ := setUp_cases hstep
  · exact iff_of_false Bool.false_ne_true (not_not.mpr hfree)
  · exact iff_of_false Bool.false_ne_true (not_not.mpr hfree)
  · obtain ⟨-, rfl, rfl⟩ | ⟨port, -, -, rfl, rfl⟩ := bind_cases hbind
    · exact iff_of_false Bool.false_ne_true (not_not.mpr hfree)
    · rw [Free, decide_eq_true_eq, ← List.cons_append,
        (List.perm_append_singleton port _).nodup_iff, List.nodup_cons, not_and_or, not_not]
      exact ⟨.inl, fun hor => hor.resolve_right (not_not.mpr hfree)⟩

def asked (d : DataSockets) : List Nat := d.opening.map (tcpPort ·.1.port) ++ d.bound

/-- Apart from one another the threads bind the ports they were given. -/
theorem asked_setUp (h : d.Alone) (hstep : d.setUp i free = some (d', ends))
    (hnonzero : ∀ port ∈ d.asked, port ≠ 0) : d'.asked.Perm d.asked := by
  have hset {thread : DataThread} {before after : Stage}
      (hget : d.opening[i]? = some (thread, before)) :
      (d.opening.set i (thread, after)).map (tcpPort ·.1.port) =
        d.opening.map (tcpPort ·.1.port) := by
    refine List.ext_getElem? fun j => ?_
    rw [List.getElem?_map, List.getElem?_map]
    rcases eq_or_ne i j with rfl | hne
    · rw [List.getElem?_set_self (List.getElem?_eq_some_iff.mp hget).1, hget]
      rfl
    · rw [List.getElem?_set_ne hne]
  obtain ⟨thread, ⟨hget, -, rfl⟩ | ⟨hget, -, rfl⟩ | ⟨hget, hbind⟩⟩ := setUp_cases hstep
  · rw [asked, asked, hset hget]
  · rw [asked, asked, hset hget]
  · obtain ⟨hfd, haddr, -⟩ := h i thread .bind hget (by simp)
    obtain ⟨hlt, hthread⟩ := List.getElem?_eq_some_iff.mp hget
    have hmem : tcpPort thread.port ∈ d.asked :=
      List.mem_append_left _ (List.mem_map.mpr ⟨_, List.mem_of_getElem? hget, rfl⟩)
    obtain ⟨hbound, -⟩ | ⟨port, -, hport, -, rfl⟩ := bind_cases hbind
    · exact absurd hfd hbound
    · obtain rfl : port = tcpPort thread.port := by
        rcases hport with ⟨-, rfl⟩ | ⟨hzero, -⟩
        · exact haddr rfl
        · exact absurd ((haddr rfl).symm.trans hzero) (hnonzero _ hmem)
      have hopening : (tcpPort thread.port ::
          (d.opening.eraseIdx i).map (tcpPort ·.1.port)).Perm
            (d.opening.map (tcpPort ·.1.port)) := by
        have hperm := (List.getElem_cons_eraseIdx_perm hlt).map (tcpPort ·.1.port)
        rwa [List.map_cons, hthread] at hperm
      calc (d.opening.eraseIdx i).map (tcpPort ·.1.port) ++ (d.bound ++ [tcpPort thread.port])
          ~ (d.opening.eraseIdx i).map (tcpPort ·.1.port) ++ (tcpPort thread.port :: d.bound) :=
            (List.perm_append_singleton _ _).append_left _
        _ ~ tcpPort thread.port :: (d.opening.eraseIdx i).map (tcpPort ·.1.port) ++ d.bound :=
            List.perm_middle
        _ ~ d.opening.map (tcpPort ·.1.port) ++ d.bound := hopening.append_right _

end DataSockets

namespace Process

section Exit
variable {p p' : Process} {e : Event}

/-- What each event needs and does. -/
theorem step_cases (h : step p e = some p') : p.exited = false ∧
    ((∃ e' m, e = .serve e' ∧ Ftp.step p.main e' = some m ∧ p' = { p with
        main := m
        sockets := { p.sockets with
          opening := p.sockets.opening ++
            (started p.main.server m.server).map (·, .socket) } }) ∨
      ∃ i free d ends, e = .setUp i free ∧ p.sockets.setUp i free = some (d, ends) ∧
        p' = { p with sockets := d, exited := ends }) := by
  cases e with
  | serve e' =>
    obtain ⟨hlive, h⟩ := Option.ite_none_left_eq_some.mp h
    obtain ⟨m, hm, rfl⟩ := Option.map_eq_some_iff.mp h
    exact ⟨Bool.of_not_eq_true hlive, .inl ⟨e', m, rfl, hm, rfl⟩⟩
  | setUp i free =>
    obtain ⟨hlive, h⟩ := Option.ite_none_left_eq_some.mp h
    obtain ⟨⟨d, ends⟩, hd, rfl⟩ := Option.map_eq_some_iff.mp h
    exact ⟨Bool.of_not_eq_true hlive, .inr ⟨i, free, d, ends, rfl, hd, rfl⟩⟩

/-- While the process lives no port has been bound twice, and the one that is ends it. -/
def ExitsOnClash (p : Process) : Prop := p.exited = true ↔ ¬ p.sockets.Free

private theorem ExitsOnClash.step (h : ExitsOnClash p) (hstep : step p e = some p') :
    ExitsOnClash p' := by
  obtain ⟨hlive, ⟨e', m, -, -, rfl⟩ | ⟨i, free, d, ends, -, hd, rfl⟩⟩ := step_cases hstep
  · exact h
  · apply DataSockets.setUp_ends_iff ?_ hd
    by_contra hclash
    rw [h.mpr hclash] at hlive
    cases hlive

private theorem exitsOnClash {events : List Event} (hrun : Runs.run step {} events = some p) :
    ExitsOnClash p :=
  Runs.run_invariant (fun _ _ _ h hstep => h.step hstep)
    (by simp [ExitsOnClash, DataSockets.Free]) hrun

end Exit

/-- The threads there are, bound or not, are those that the exchanges speak of. -/
structure Tracks (p : Process) : Prop where
  portIdx : p.main.server.portIdx = p.main.passives
  alone : p.sockets.Alone
  threads : p.sockets.asked.Perm ((openedPorts 0 p.main.exchanges).map tcpPort)

/-- No more PASVs than entries, and no port 0. -/
structure Usable (m : Main) : Prop where
  inside : m.passives ≤ ports.length
  nonzero : ∀ port ∈ openedPorts 0 m.exchanges, tcpPort port ≠ 0

section Tracking
variable {p p' : Process} {e : Event}

private theorem Usable.before {m m' : Main} {e : Ftp.Event} (h : Usable m')
    (hstep : Ftp.step m e = some m') : Usable m := by
  obtain ⟨n, -, hpassives, -, -⟩ := passives_step hstep
  have hinside := h.inside
  refine ⟨by omega, fun port hport => h.nonzero port ?_⟩
  rcases step_exchanges hstep with ⟨-, -, hexchanges⟩ | ⟨env, req, o, -, -, -, hexchanges⟩
  · rwa [hexchanges]
  · rw [hexchanges, openedPorts_append]
    exact List.mem_append_left _ hport

private theorem Tracks.serve (h : Tracks p) {e' : Ftp.Event} {m : Main}
    (hcreates : (Event.serve e').Creates) (hstep : Ftp.step p.main e' = some m)
    (husable : Usable m) :
    Tracks { p with
      main := m
      sockets := { p.sockets with
        opening := p.sockets.opening ++ (started p.main.server m.server).map (·, .socket) } } := by
  obtain ⟨n, -, hpassives, hportIdx, -⟩ := passives_step hstep
  have hcounted : m.server.portIdx = m.passives := by rw [hportIdx, hpassives, h.portIdx]
  refine ⟨hcounted, h.alone.append _, ?_⟩
  rcases step_exchanges hstep with ⟨-, hserver, hexchanges⟩ |
    ⟨env, req, o, rfl, hexec, hserver, hexchanges⟩
  · have hstarted : started p.main.server m.server = [] := by rw [hserver, started, if_pos rfl]
    rw [hstarted, List.map_nil, List.append_nil, hexchanges]
    exact h.threads
  · have hinside : interpret req.command = .pasv → p.main.server.authStatus = .loggedIn →
        p.main.server.portIdx < ports.length := by
      intro command auth
      obtain ⟨n, -, htakes, haccepted⟩ := portIdx_served (served hexec)
      obtain rfl : n = 1 := haccepted.mpr ⟨command, auth⟩
      have hle := husable.inside
      rw [← hcounted, hserver, htakes] at hle
      omega
    have hstarted := started_served (served hexec) hcreates hinside
    have hasked : DataSockets.asked { p.sockets with
        opening := p.sockets.opening ++ (started p.main.server o.server).map (·, .socket) } =
        p.sockets.opening.map (tcpPort ·.1.port) ++
          ((openedPorts p.main.server.portIdx [exchange req o]).map tcpPort ++
            p.sockets.bound) := by
      rw [← hstarted, DataSockets.asked, List.map_append, List.append_assoc, List.map_map,
        List.map_map]
      rfl
    rw [hserver, hasked, hexchanges, openedPorts_append, h.portIdx, Nat.zero_add, List.map_append]
    refine (List.perm_append_comm.append_left _).trans ?_
    rw [← List.append_assoc]
    exact h.threads.append_right _

private theorem Tracks.setUp (h : Tracks p) (husable : Usable p.main) {i free : Nat}
    {d : DataSockets} {ends : Bool} (hapart : p.sockets.Apart i)
    (hstep : p.sockets.setUp i free = some (d, ends)) :
    Tracks { p with sockets := d, exited := ends } := by
  refine ⟨h.portIdx, h.alone.setUp hapart hstep, ?_⟩
  refine (DataSockets.asked_setUp h.alone hstep fun port hport => ?_).trans h.threads
  obtain ⟨opened, hopened, rfl⟩ := List.mem_map.mp (h.threads.mem_iff.mp hport)
  exact husable.nonzero opened hopened

/-- The ports asked for are those the exchanges have opened. -/
theorem tracks {events : List Event} (hcreates : ∀ e ∈ events, e.Creates)
    (hapart : Runs.Along step Apart {} events) (hrun : Runs.run step {} events = some p)
    (husable : Usable p.main) : Tracks p := by
  induction events using List.reverseRecOn generalizing p with
  | nil =>
    obtain rfl := Option.some.inj hrun
    exact ⟨rfl, fun i thread stage hget => by simp at hget, .refl _⟩
  | append_singleton events e ih =>
    rw [Runs.run_append] at hrun
    obtain ⟨p₀, hrun₀, hrun⟩ := Option.bind_eq_some_iff.mp hrun
    obtain ⟨p₁, hstep, hrun⟩ := Option.bind_eq_some_iff.mp hrun
    obtain rfl := Option.some.inj hrun
    have hbefore := fun e he => hcreates e (List.mem_append_left _ he)
    have hlast : e.Creates := hcreates e (List.mem_append_right _ List.mem_cons_self)
    have hapart₀ : Runs.Along step Apart {} events := fun p a s s' hp hr hs =>
      hapart p a s s' (hp.trans (List.prefix_append _ _)) hr hs
    have hok : Apart p₀ e := hapart events e p₀ p₁ List.prefix_rfl hrun₀ hstep
    obtain ⟨-, ⟨e', m, rfl, hm, rfl⟩ | ⟨i, free, d, ends, rfl, hd, rfl⟩⟩ := step_cases hstep
    · exact (ih hbefore hapart₀ hrun₀ (husable.before hm)).serve hlast hm husable
    · exact (ih hbefore hapart₀ hrun₀ husable).setUp husable hok hd

end Tracking

/-- The set-ups one after the other, in whatever order: once they are over, or the process has
ended, it has ended just when the exchanges have opened a port twice, or the control port. -/
theorem exited_iff {events : List Event} {p : Process} (hcreates : ∀ e ∈ events, e.Creates)
    (hapart : Runs.Along step Apart {} events) (hrun : Runs.run step {} events = some p)
    (husable : Usable p.main) (hdone : p.exited = false → p.sockets.opening = []) :
    p.exited = true ↔
      ¬ (serverControlPort :: (openedPorts 0 p.main.exchanges).map tcpPort).Nodup := by
  have hclash := exitsOnClash hrun
  have hthreads := (tracks hcreates hapart hrun husable).threads
  rw [← (hthreads.cons serverControlPort).nodup_iff]
  constructor
  · intro hexited hnodup
    refine hclash.mp hexited (hnodup.sublist ?_)
    exact (List.sublist_append_right _ _).cons_cons _
  · intro hnodup
    by_contra hlive
    have hlive := Bool.of_not_eq_true hlive
    rw [DataSockets.asked, hdone hlive, List.map_nil, List.nil_append] at hnodup
    rw [hclash.mpr hnodup] at hlive
    cases hlive

private def twice (command body : CString) : List Event :=
  let env : Environment := ⟨fun _ => none, fun _ => 0, 0, 0, some 1⟩
  let serve (command body : CString) : Event := .serve (.request env ⟨0, command, body⟩)
  [.serve .accept, serve "user".toList userId, serve "pass".toList userPassword,
    serve command body, .setUp 0 0, .setUp 0 0, .setUp 0 0, serve "nlst".toList [],
    serve command body, .setUp 0 0, .setUp 0 0, .setUp 0 0]

private theorem twice_creates (command body : CString) : ∀ e ∈ twice command body, e.Creates := by
  simp [twice, Event.Creates]

/-- PORT twice with one port. -/
theorem port_twice_exits : ∃ p,
    Runs.run step {} (twice "port".toList "127,1,1,1,5,6".toList) = some p ∧
      (p.exited = true ↔
        ¬ (serverControlPort :: (openedPorts 0 p.main.exchanges).map tcpPort).Nodup) := by
  obtain ⟨p, hrun, hpassives, hopened, hexited⟩ : ∃ p,
      Runs.run step {} (twice "port".toList "127,1,1,1,5,6".toList) = some p ∧
        p.main.passives = 0 ∧ openedPorts 0 p.main.exchanges = [1286, 1286] ∧ p.exited = true :=
    ⟨_, rfl, by decide +kernel, by decide +kernel, by decide +kernel⟩
  have hapart : Runs.Along step Apart {} (twice "port".toList "127,1,1,1,5,6".toList) := by
    decide +kernel
  refine ⟨p, hrun, exited_iff (twice_creates _ _) hapart hrun ⟨by omega, ?_⟩ ?_⟩
  · rw [hopened]
    decide
  · intro hlive
    rw [hexited] at hlive
    cases hlive

/-- A server that no PORT was accepted by outlives the first eighteen PASVs, whatever the order of
the set-ups: all entries of ports[] can be bound at one time. -/
theorem passive_survives {events : List Event} {p : Process}
    (hcreates : ∀ e ∈ events, e.Creates) (hapart : Runs.Along step Apart {} events)
    (hrun : Runs.run step {} events = some p)
    (hactive : ∀ e ∈ p.main.exchanges, e.isActive = false)
    (hinside : p.main.passives ≤ ports.length) : p.exited = false := by
  have hopened : openedPorts 0 p.main.exchanges = ports.take p.main.passives :=
    openedPorts_passive hactive ((Nat.zero_add _).symm ▸ hinside)
  have hfree : (serverControlPort :: ports.map tcpPort).Nodup := by decide
  have husable : Usable p.main := by
    refine ⟨hinside, fun port hport => ?_⟩
    rw [hopened] at hport
    have hall : ∀ port ∈ ports, tcpPort port ≠ 0 := by decide
    exact hall port (List.mem_of_mem_take hport)
  have hthreads := (tracks hcreates hapart hrun husable).threads
  rw [hopened, List.map_take] at hthreads
  have hbound : p.sockets.Free := by
    have htaken : (serverControlPort :: (ports.map tcpPort).take p.main.passives).Nodup :=
      hfree.sublist ((List.take_sublist _ _).cons_cons _)
    rw [← (hthreads.cons serverControlPort).nodup_iff] at htaken
    exact htaken.sublist ((List.sublist_append_right _ _).cons_cons _)
  by_contra hexited
  exact (exitsOnClash hrun).mp (Bool.of_not_eq_false hexited) hbound

/-- Two PASVs in two sessions are no clash. -/
theorem passive_twice_survives : ∃ p, Runs.run step {} (twice "pasv".toList []) = some p ∧
    p.main.passives = 2 ∧ p.exited = false := by
  obtain ⟨p, hrun, hpassives, hactive⟩ : ∃ p,
      Runs.run step {} (twice "pasv".toList []) = some p ∧ p.main.passives = 2 ∧
        ∀ e ∈ p.main.exchanges, e.isActive = false :=
    ⟨_, rfl, by decide +kernel, by decide +kernel⟩
  have hapart : Runs.Along step Apart {} (twice "pasv".toList []) := by decide +kernel
  refine ⟨p, hrun, hpassives, passive_survives (twice_creates _ _) hapart hrun hactive ?_⟩
  rw [hpassives]
  decide

end Process
end NetworkProtocol.Ftp
