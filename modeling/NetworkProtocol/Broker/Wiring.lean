import NetworkProtocol.Broker.PortAllocation

/-! How the broker's threads and the subscribers find each other. Each subscriber listens on one
port of the two it was sent and connects to the other, and a thread has nothing but a number to
tell it whom it serves. -/
namespace NetworkProtocol.Broker.Spawn

/-- The i-th thread of the broker, the k-th subscriber, or the broker's two listening sockets. -/
inductive Party where
  | thread (i : Nat)
  | subscriber (k : Nat)
  | broker
  deriving DecidableEq, Repr

def Party.sameProcess : Party → Party → Bool
  | .subscriber j, .subscriber k => j = k
  | .subscriber _, _ => false
  | _, .subscriber _ => false
  | _, _ => true

def Role.other : Role → Role
  | .sender => .receiver
  | .receiver => .sender

namespace Acceptor
variable (s : Acceptor)

/-- The port that a thread of the role has copied, and a subscriber's port for a thread of the
other role. -/
def portOf (role : Role) : Party → Option Nat
  | .thread i => s.threads[i]?.bind fun t => if t.role = role then t.port else none
  | .subscriber k => s.given[k]?.map (Port.of · role.other)
  | .broker => none

/-- handle_receiver binds its port, and receiver_routine port.sender. -/
def bindPort : Party → Option Nat := s.portOf .receiver

/-- handle_sender connects to its port, and main_thread_as_topic_sender to port.receiver. -/
def connectPort : Party → Option Nat := s.portOf .sender

end Acceptor

/-- The sockets that listen, by their TCP ports, and the connections made, the connecting end
first. A bind to a port in use and a connect to one where nobody listens end their process. -/
structure Net where
  acceptor : Acceptor := {}
  listening : List (Nat × Party) := [(publisherPort, .broker), (subscriberPort, .broker)]
  links : List (Party × Party) := []
  clashes : List Party := []
  refused : List Party := []

inductive NetAction where
  | acceptor (a : Action)
  | listen (p : Party)
  | connect (p : Party)

namespace Net
open Acceptor (portsOf portCapacity)

def gone (n : Net) (p : Party) : Bool := (n.clashes ++ n.refused).any p.sameProcess

/-- Every party binds once and connects once. -/
def step (n : Net) : NetAction → Option Net
  | .acceptor a =>
    if n.gone .broker then none else (n.acceptor.step a).map fun s => { n with acceptor := s }
  | .listen p =>
    if n.gone p ∨ p ∈ n.listening.map Prod.snd then none
    else (n.acceptor.bindPort p).map fun port =>
      if htons port ∈ n.listening.map Prod.fst then { n with clashes := n.clashes ++ [p] }
      else { n with listening := n.listening ++ [(htons port, p)] }
  | .connect p =>
    if n.gone p ∨ p ∈ n.links.map Prod.fst then none
    else (n.acceptor.connectPort p).map fun port =>
      match n.listening.find? (·.1 = htons port) with
      | some (_, q) => { n with links := n.links ++ [(p, q)] }
      | none => { n with refused := n.refused ++ [p] }

def Timely (n : Net) : NetAction → Prop
  | .acceptor a => n.acceptor.Timely a
  | _ => True

instance (n : Net) : DecidablePred (Timely n)
  | .acceptor .statement | .listen _ | .connect _ => isTrue trivial
  | .acceptor (.copyId i) => inferInstanceAs (Decidable (∀ t ∈ n.acceptor.threads[i]?,
      n.acceptor.executions (.ofId t.role) = t.subscriber + 1))
  | .acceptor (.copyPort i) => inferInstanceAs (Decidable (∀ t ∈ n.acceptor.threads[i]?,
      n.acceptor.executions (.ofPort t.role) = t.subscriber + 1))

def Joins (s : Acceptor) : Party → Party → Prop
  | .thread i, .subscriber k => ∃ t, s.threads[i]? = some t ∧ t.role = .sender ∧ t.id = some k
  | .subscriber k, .thread i => ∃ t, s.threads[i]? = some t ∧ t.role = .receiver ∧ t.id = some k
  | _, _ => False

structure Wired (n : Net) : Prop where
  inv : n.acceptor.Inv
  copied : ∀ t ∈ n.acceptor.threads, t.port ≠ none → t.id ≠ none
  bound : ∀ l ∈ n.listening, l.2 = .broker ∧ (l.1 = publisherPort ∨ l.1 = subscriberPort) ∨
    ∃ port, n.acceptor.bindPort l.2 = some port ∧ l.1 = htons port
  linked : ∀ l ∈ n.links, ∃ port, n.acceptor.connectPort l.1 = some port ∧
    (htons port, l.2) ∈ n.listening
  once : (n.links.map Prod.fst).Nodup
  clean : n.acceptor.given.length ≤ portCapacity → n.clashes = []

section Ports
variable {s s' : Acceptor} {a : Action} {p q : Party} {role : Role} {port other : Nat}

/-- A number tells the role and the subscriber it was made for. -/
theorem portsOf_eq {j k : Nat} {role role' : Role}
    (h : (portsOf j).of role = (portsOf k).of role') : j = k ∧ role = role' := by
  cases role <;> cases role' <;> simp only [portsOf, Port.of] at h <;>
    first | exact ⟨by omega, rfl⟩ | omega

private theorem htons_portsOf {k : Nat} (h : k < portCapacity) (role : Role) :
    htons ((portsOf k).of role) = (portsOf k).of role := by
  rw [portCapacity] at h
  refine Nat.mod_eq_of_lt ?_
  cases role <;> simp only [portsOf, Port.of] <;> omega

private theorem portOf_cases (h : s.Inv) (hport : s.portOf role p = some port) :
    (∃ i t, p = .thread i ∧ s.threads[i]? = some t ∧ t.role = role ∧ t.port = some port ∧
      port = (portsOf t.subscriber).of role ∧ t.subscriber < s.given.length) ∨
    ∃ k, p = .subscriber k ∧ port = (portsOf k).of role.other ∧ k < s.given.length := by
  cases p with
  | thread i =>
    obtain ⟨t, ht, hport⟩ := Option.bind_eq_some_iff.mp hport
    obtain ⟨rfl, hset⟩ := Option.ite_none_right_eq_some.mp hport
    have hmem := List.mem_of_getElem? ht
    obtain ⟨hlt, -⟩ := List.getElem?_eq_some_iff.mp (h.given_at hmem)
    exact .inl ⟨i, t, rfl, ht, rfl, hset, h.port t hmem port hset, hlt⟩
  | subscriber k =>
    obtain ⟨given, hgiven, rfl⟩ := Option.map_eq_some_iff.mp hport
    obtain ⟨hlt, -⟩ := List.getElem?_eq_some_iff.mp hgiven
    rw [h.given, List.getElem?_map, List.getElem?_range (h.length_given ▸ hlt)] at hgiven
    obtain rfl := Option.some.inj hgiven
    exact .inr ⟨k, rfl, rfl, hlt⟩
  | broker => cases hport

/-- Within the capacity a TCP port is the number it was made of, and none of the broker's own. -/
theorem htons_portOf (h : s.Inv) (hport : s.portOf role p = some port)
    (hroom : s.given.length ≤ portCapacity) : htons port = port ∧ 20000 ≤ port := by
  rcases portOf_cases h hport with ⟨i, t, -, -, -, -, rfl, hlt⟩ | ⟨k, -, rfl, hlt⟩
  · refine ⟨htons_portsOf (hlt.trans_le hroom) role, ?_⟩
    cases role <;> simp only [portsOf, Port.of] <;> omega
  · refine ⟨htons_portsOf (hlt.trans_le hroom) role.other, ?_⟩
    cases role <;> simp only [portsOf, Port.of, Role.other] <;> omega

private theorem other_ne (role : Role) : role ≠ role.other := by cases role <;> decide

/-- No two parties bind one port, and no two connect to one. -/
theorem portOf_injective (h : s.Inv) (hp : s.portOf role p = some port)
    (hq : s.portOf role q = some port) : p = q := by
  rcases portOf_cases h hp with ⟨i, t, rfl, ht, hrole, -, hport, -⟩ | ⟨j, rfl, hport, -⟩ <;>
    rcases portOf_cases h hq with ⟨i', t', rfl, ht', hrole', -, hport', -⟩ | ⟨k, rfl, hport', -⟩
  · obtain ⟨hsub, -⟩ := portsOf_eq (hport.symm.trans hport')
    have hkey : (s.threads.map (fun t => (t.role, t.subscriber)))[i]? =
        (s.threads.map (fun t => (t.role, t.subscriber)))[i']? := by
      simp [List.getElem?_map, ht, ht', hrole, hrole', hsub]
    obtain ⟨hlt, -⟩ := List.getElem?_eq_some_iff.mp ht
    rw [(List.getElem?_inj (by simpa using hlt) h.once).mp hkey]
  · exact absurd (portsOf_eq (hport.symm.trans hport')).2 (other_ne role)
  · exact absurd (portsOf_eq (hport.symm.trans hport')).2 (other_ne role).symm
  · rw [(portsOf_eq (hport.symm.trans hport')).1]

/-- A connection to a port that a party has bound is one between a thread and its subscriber. -/
theorem joins_of_ports (h : s.Inv) (hcopied : ∀ t ∈ s.threads, t.port ≠ none → t.id ≠ none)
    (hroom : s.given.length ≤ portCapacity) (hp : s.connectPort p = some port)
    (hq : s.bindPort q = some other) (heq : htons port = htons other) : Joins s p q := by
  rw [(htons_portOf h hp hroom).1, (htons_portOf h hq hroom).1] at heq
  subst heq
  have hid {i : Nat} {t : Started} (ht : s.threads[i]? = some t) (hport : t.port = some port) :
      t.id = some t.subscriber := by
    have hmem := List.mem_of_getElem? ht
    obtain ⟨id, hid⟩ := Option.ne_none_iff_exists'.mp (hcopied t hmem (by simp [hport]))
    rw [hid, h.id t hmem id hid]
  rcases portOf_cases h hp with ⟨i, t, rfl, ht, hrole, htport, hport, -⟩ | ⟨j, rfl, hport, -⟩ <;>
    rcases portOf_cases h hq with ⟨i', t', rfl, ht', hrole', htport', hport', -⟩ |
      ⟨k, rfl, hport', -⟩
  · exact absurd (portsOf_eq (hport.symm.trans hport')).2 (by decide)
  · obtain ⟨rfl, -⟩ := portsOf_eq (hport.symm.trans hport')
    exact ⟨t, ht, hrole, hid ht htport⟩
  · obtain ⟨rfl, -⟩ := portsOf_eq (hport.symm.trans hport')
    exact ⟨t', ht', hrole', hid ht' htport'⟩
  · exact absurd (portsOf_eq (hport.symm.trans hport')).2 (by decide)

end Ports

section Steps
variable {s s' : Acceptor} {a : Action} {n n' : Net} {p q : Party} {role : Role} {port : Nat}

private theorem portOf_set {i : Nat} {t t' : Started} (ht : s.threads[i]? = some t)
    (hrole : t'.role = t.role) (hkeep : ∀ port, t.port = some port → t'.port = some port)
    (h : s.portOf role p = some port) :
    ({ s with threads := s.threads.set i t' } : Acceptor).portOf role p = some port := by
  cases p with
  | thread j =>
    obtain ⟨u, hu, hport⟩ := Option.bind_eq_some_iff.mp h
    rcases eq_or_ne i j with rfl | hne
    · obtain rfl := Option.some.inj (ht.symm.trans hu)
      obtain ⟨hlt, -⟩ := List.getElem?_eq_some_iff.mp ht
      obtain ⟨hown, hset⟩ := Option.ite_none_right_eq_some.mp hport
      refine Option.bind_eq_some_iff.mpr ⟨t', List.getElem?_set_self hlt, ?_⟩
      rw [hrole, if_pos hown, hkeep port hset]
    · exact Option.bind_eq_some_iff.mpr ⟨u, (List.getElem?_set_ne hne).trans hu, hport⟩
  | subscriber k => exact h
  | broker => cases h

/-- What a party has learned it keeps. -/
theorem portOf_step (hstep : s.step a = some s') (h : s.portOf role p = some port) :
    s'.portOf role p = some port := by
  rcases Acceptor.step_cases hstep with ⟨-, rfl⟩ | ⟨i, t, -, ht, -, rfl⟩ | ⟨i, t, -, ht, hnone, rfl⟩
  · cases p with
    | thread i =>
      obtain ⟨t, ht, hport⟩ := Option.bind_eq_some_iff.mp h
      have ht' : s.statement.threads[i]? = some t := by
        rcases Acceptor.statement_threads s with hsame | ⟨role, -, hnew⟩
        · rw [hsame, ht]
        · obtain ⟨hlt, -⟩ := List.getElem?_eq_some_iff.mp ht
          rw [hnew, List.getElem?_append_left hlt, ht]
      exact Option.bind_eq_some_iff.mpr ⟨t, ht', hport⟩
    | subscriber k =>
      obtain ⟨given, hgiven, rfl⟩ := Option.map_eq_some_iff.mp h
      have hgiven' : s.statement.given[k]? = some given := by
        rcases Acceptor.statement_numbers s with ⟨-, hnew, -⟩ | ⟨-, hsame, -⟩
        · obtain ⟨hlt, -⟩ := List.getElem?_eq_some_iff.mp hgiven
          rw [hnew, List.getElem?_append_left hlt, hgiven]
        · rw [hsame, hgiven]
      exact Option.map_eq_some_iff.mpr ⟨given, hgiven', rfl⟩
    | broker => cases h
  · exact portOf_set ht rfl (fun _ hset => hset) h
  · exact portOf_set ht rfl (fun port hset => absurd (hnone.symm.trans hset) (by simp)) h

private theorem given_step (hstep : s.step a = some s') : s.given.length ≤ s'.given.length := by
  rcases Acceptor.step_cases hstep with ⟨-, rfl⟩ | ⟨i, t, -, -, -, rfl⟩ | ⟨i, t, -, -, -, rfl⟩
  · rcases Acceptor.statement_numbers s with ⟨-, hnew, -⟩ | ⟨-, hsame, -⟩
    · have hlength := congrArg List.length hnew
      rw [List.length_append] at hlength
      exact Nat.le_of_add_right_le hlength.ge
    · exact (congrArg List.length hsame).ge
  · exact le_rfl
  · exact le_rfl

private theorem copied_step (hcopied : ∀ t ∈ s.threads, t.port ≠ none → t.id ≠ none)
    (hstep : s.step a = some s') : ∀ t ∈ s'.threads, t.port ≠ none → t.id ≠ none := by
  cases a with
  | statement =>
    obtain rfl := Option.some.inj hstep
    intro t ht hport
    rcases Acceptor.mem_statement_threads ht with ht | ⟨-, -, -, hnone⟩
    · exact hcopied t ht hport
    · exact absurd hnone hport
  | copyId i =>
    obtain ⟨u, hu, hstep⟩ := Option.bind_eq_some_iff.mp hstep
    obtain ⟨-, rfl⟩ := Runs.guarded hstep
    intro t ht hport
    rcases List.mem_or_eq_of_mem_set ht with ht | rfl
    · exact hcopied t ht hport
    · exact Option.some_ne_none _
  | copyPort i =>
    obtain ⟨u, hu, hstep⟩ := Option.bind_eq_some_iff.mp hstep
    obtain ⟨⟨hid, -⟩, rfl⟩ := Runs.guarded hstep
    intro t ht hport
    rcases List.mem_or_eq_of_mem_set ht with ht | rfl
    · exact hcopied t ht hport
    · exact hid

private theorem Wired.acceptor (h : Wired n) (hstep : n.acceptor.step a = some s')
    (htimely : n.acceptor.Timely a) : Wired { n with acceptor := s' } := by
  refine ⟨h.inv.step hstep htimely, copied_step h.copied hstep, ?_, ?_, h.once, ?_⟩
  · intro l hl
    rcases h.bound l hl with hown | ⟨port, hport, heq⟩
    · exact .inl hown
    · exact .inr ⟨port, portOf_step hstep hport, heq⟩
  · intro l hl
    obtain ⟨port, hport, hmem⟩ := h.linked l hl
    exact ⟨port, portOf_step hstep hport, hmem⟩
  · exact fun hroom => h.clean ((given_step hstep).trans hroom)

private theorem Wired.free (h : Wired n) (hroom : n.acceptor.given.length ≤ portCapacity)
    (hport : n.acceptor.bindPort p = some port) (hnew : p ∉ n.listening.map Prod.snd) :
    htons port ∉ n.listening.map Prod.fst := by
  intro hmem
  obtain ⟨l, hl, heq⟩ := List.mem_map.mp hmem
  obtain ⟨hsame, hlow⟩ := htons_portOf h.inv hport hroom
  rcases h.bound l hl with ⟨-, hown⟩ | ⟨q, hq, hlq⟩
  · rw [heq, hsame, publisherPort, subscriberPort] at hown
    omega
  · rw [heq, hsame, (htons_portOf h.inv hq hroom).1] at hlq
    subst hlq
    exact hnew (portOf_injective h.inv hport hq ▸ List.mem_map.mpr ⟨l, hl, rfl⟩)

private theorem Wired.step {a : NetAction} (h : Wired n) (hstep : n.step a = some n')
    (htimely : n.Timely a) : Wired n' := by
  cases a with
  | acceptor a =>
    obtain ⟨-, hstep⟩ := Option.ite_none_left_eq_some.mp hstep
    obtain ⟨s, hs, rfl⟩ := Option.map_eq_some_iff.mp hstep
    exact h.acceptor hs htimely
  | listen p =>
    obtain ⟨hguard, hstep⟩ := Option.ite_none_left_eq_some.mp hstep
    obtain ⟨port, hport, rfl⟩ := Option.map_eq_some_iff.mp hstep
    have hnew := (not_or.mp hguard).2
    split
    · rename_i hclash
      exact ⟨h.inv, h.copied, h.bound, h.linked, h.once,
        fun hroom => absurd hclash (h.free hroom hport hnew)⟩
    · refine ⟨h.inv, h.copied, ?_, ?_, h.once, h.clean⟩
      · intro l hl
        rcases List.mem_append.mp hl with hl | hl
        · exact h.bound l hl
        · obtain rfl := List.mem_singleton.mp hl
          exact .inr ⟨port, hport, rfl⟩
      · intro l hl
        obtain ⟨other, hother, hmem⟩ := h.linked l hl
        exact ⟨other, hother, List.mem_append_left _ hmem⟩
  | connect p =>
    obtain ⟨hguard, hstep⟩ := Option.ite_none_left_eq_some.mp hstep
    obtain ⟨port, hport, rfl⟩ := Option.map_eq_some_iff.mp hstep
    have hnew := (not_or.mp hguard).2
    split
    · rename_i found q hfound
      have hfst : found = htons port := by simpa using List.find?_some hfound
      have hmem := List.mem_of_find?_eq_some hfound
      refine ⟨h.inv, h.copied, h.bound, ?_, ?_, h.clean⟩
      · intro l hl
        rcases List.mem_append.mp hl with hl | hl
        · exact h.linked l hl
        · obtain rfl := List.mem_singleton.mp hl
          exact ⟨port, hport, hfst ▸ hmem⟩
      · simp only [List.map_append, List.map_cons, List.map_nil]
        exact List.nodup_append.mpr ⟨h.once, List.nodup_singleton p, by grind⟩
    · exact ⟨h.inv, h.copied, h.bound, h.linked, h.once, h.clean⟩

private theorem wired_init : Wired {} :=
  ⟨Acceptor.inv_init, by simp, by simp, by simp, List.nodup_nil, fun _ => rfl⟩

private theorem Wired.ends (h : Wired n) (hroom : n.acceptor.given.length ≤ portCapacity)
    {l : Party × Party} (hl : l ∈ n.links) : ∃ port other,
      n.acceptor.connectPort l.1 = some port ∧ n.acceptor.bindPort l.2 = some other ∧
        htons port = htons other := by
  obtain ⟨port, hport, hmem⟩ := h.linked l hl
  rcases h.bound _ hmem with ⟨-, hown⟩ | ⟨other, hother, heq⟩
  · have hsame := htons_portOf h.inv hport hroom
    rw [hsame.1, publisherPort, subscriberPort] at hown
    omega
  · exact ⟨port, other, hport, hother, heq⟩

private theorem Wired.apart (h : Wired n) (hroom : n.acceptor.given.length ≤ portCapacity) :
    (n.links.map Prod.snd).Nodup := by
  refine List.Nodup.map_on ?_ h.once.of_map
  intro l hl l' hl' hsnd
  obtain ⟨port, other, hport, hother, heq⟩ := h.ends hroom hl
  obtain ⟨port', other', hport', hother', heq'⟩ := h.ends hroom hl'
  rw [hsnd, hother'] at hother
  obtain rfl := Option.some.inj hother
  rw [← heq', (htons_portOf h.inv hport hroom).1, (htons_portOf h.inv hport' hroom).1] at heq
  subst heq
  exact Prod.ext (portOf_injective h.inv hport hport') hsnd

end Steps

/-- Where every thread copies its numbers in time and the ports suffice, whoever connects and
listens in whatever order: no bind fails, every connection joins a thread with the id of a
subscriber to that subscriber, and no party has two of one kind. -/
theorem wired (actions : List NetAction) (n : Net) (hrun : Runs.run step {} actions = some n)
    (htimely : Runs.Along step Timely {} actions)
    (hroom : n.acceptor.given.length ≤ 22768) :
    n.clashes = [] ∧ (∀ l ∈ n.links, Joins n.acceptor l.1 l.2) ∧
      (n.links.map Prod.fst).Nodup ∧ (n.links.map Prod.snd).Nodup := by
  have h : Wired n :=
    (htimely.visits (fun _ _ _ h hstep hok => h.step hstep hok) wired_init) actions n
      List.prefix_rfl hrun
  refine ⟨h.clean hroom, fun l hl => ?_, h.once, h.apart hroom⟩
  obtain ⟨port, other, hport, hother, heq⟩ := h.ends hroom hl
  exact joins_of_ports h.inv h.copied hroom hport hother heq

private def acceptedRound (k : Nat) : List NetAction :=
  [.acceptor .statement, .acceptor .statement, .acceptor .statement, .acceptor .statement,
    .acceptor (.copyId (2 * k)), .acceptor (.copyPort (2 * k)), .acceptor .statement,
    .acceptor .statement, .acceptor .statement, .acceptor (.copyId (2 * k + 1)),
    .acceptor (.copyPort (2 * k + 1))]

private def twoSubscribers : List NetAction :=
  acceptedRound 0 ++ acceptedRound 1 ++
    [.listen (.subscriber 1), .listen (.subscriber 0), .connect (.thread 2), .connect (.thread 0),
      .listen (.thread 1), .listen (.thread 3), .connect (.subscriber 1), .connect (.subscriber 0)]

/-- Both subscribers end up with the two threads made for them. -/
theorem twoSubscribers_wired : ∃ n, Runs.run step {} twoSubscribers = some n ∧
    n.links = [(.thread 2, .subscriber 1), (.thread 0, .subscriber 0),
      (.subscriber 1, .thread 3), (.subscriber 0, .thread 1)] ∧
    n.clashes = [] ∧ (∀ l ∈ n.links, Joins n.acceptor l.1 l.2) ∧
      (n.links.map Prod.fst).Nodup ∧ (n.links.map Prod.snd).Nodup := by
  obtain ⟨n, hrun, hlinks, hgiven⟩ : ∃ n, Runs.run step {} twoSubscribers = some n ∧
      n.links = [(.thread 2, .subscriber 1), (.thread 0, .subscriber 0),
        (.subscriber 1, .thread 3), (.subscriber 0, .thread 1)] ∧
      n.acceptor.given.length = 2 := ⟨_, rfl, rfl, rfl⟩
  have htimely : Runs.Along step Timely {} twoSubscribers := by decide +kernel
  exact ⟨n, hrun, hlinks, wired twoSubscribers n hrun htimely (by rw [hgiven]; decide)⟩

end Net
end NetworkProtocol.Broker.Spawn
