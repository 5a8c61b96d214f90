import Mathlib.Data.List.Nodup
import NetworkProtocol.Chat.Ring

/-! Who the receiver threads take a message to be from. main hands every thread the address
of the one local userId, and a thread reads it twice per message, before and after recv. -/
namespace NetworkProtocol.Chat.Attribution

abbrev maxNumClient : Nat := 10

abbrev Socket := Nat

inductive Phase where
  | evaluate
  | recv (socket : Socket)
  | destroyed
  deriving DecidableEq, Repr

/-- userId is the cell all threads share. reads and enqueued are history: the sockets each
thread called recv on, and the socket each message in the ring was read from. -/
structure Server where
  userId : Nat := 0
  socketOfClients : List Socket := []
  receivers : List Phase := []
  log : Log
  reads : List (Nat × Socket) := []
  enqueued : List (Socket × Message) := []

inductive Action where
  | accept (socket : Socket)
  | evaluate (thread : Nat)
  | receive (thread : Nat) (text : CString)
  | close (thread : Nat)
  | dequeue
  deriving DecidableEq, Repr

namespace Server

/-- One turn of main's loop. -/
def accept (s : Server) (socket : Socket) : Server :=
  { s with
    userId := s.socketOfClients.length
    socketOfClients := s.socketOfClients ++ [socket]
    receivers := s.receivers ++ [.evaluate] }

def evaluate (s : Server) (thread : Nat) (socket : Socket) : Server :=
  { s with
    receivers := s.receivers.set thread (.recv socket)
    reads := s.reads ++ [(thread, socket)] }

/-- Data arrives: *tid is read again and the message goes to the ring, unless that is full. -/
def receive (s : Server) (thread : Nat) (socket : Socket) (text : CString) : Server :=
  let mes := ⟨s.userId, text⟩
  { s with
    receivers := s.receivers.set thread .evaluate
    log := call s.log (.enqueue mes)
    enqueued := if isFull s.log.ring then s.enqueued else s.enqueued ++ [(socket, mes)] }

def close (s : Server) (thread : Nat) : Server :=
  { s with receivers := s.receivers.set thread .destroyed }

end Server

/-- accept returns a descriptor that is not open; no socket is ever closed here. -/
def step (s : Server) : Action → Option Server
  | .accept socket =>
    if s.socketOfClients.length < maxNumClient ∧ socket ∉ s.socketOfClients then
      some (s.accept socket)
    else none
  | .evaluate thread =>
    match s.receivers[thread]?, s.socketOfClients[s.userId]? with
    | some .evaluate, some socket => some (s.evaluate thread socket)
    | _, _ => none
  | .receive thread text =>
    match s.receivers[thread]? with
    | some (.recv socket) => some (s.receive thread socket text)
    | _ => none
  | .close thread =>
    match s.receivers[thread]? with
    | some (.recv _) => some (s.close thread)
    | _ => none
  | .dequeue => some { s with log := call s.log .dequeue }

def opened (memory : Int → Message) : Server := { log := start memory }

/-- Every message in the ring names the client it was read from, and the k-th thread reads
the k-th socket only. -/
def Attributed (s : Server) : Prop :=
  (∀ e ∈ s.enqueued, ∃ k : Nat, e.2.userId = k ∧ s.socketOfClients[k]? = some e.1) ∧
  ∀ e ∈ s.reads, s.socketOfClients[e.1]? = some e.2

/-- A thread reads the cell only while it still holds the thread's own index; what it reads
for a message that a full ring refuses does not matter. -/
def OwnIndex (s : Server) : Action → Prop
  | .evaluate thread => s.userId = thread
  | .receive thread _ => isFull s.log.ring = true ∨ s.userId = thread
  | _ => True

structure Inv (s : Server) : Prop where
  distinct : s.socketOfClients.Nodup
  own : ∀ (k : Nat) socket, s.receivers[k]? = some (.recv socket) →
    s.socketOfClients[k]? = some socket
  attributed : Attributed s

section Steps
variable {s : Server} {thread : Nat} {socket : Socket} {text : CString}

/-- Giving a thread a new phase keeps who is in recv on what, if the new phase does. -/
theorem own_set (h : Inv s) {phase : Phase}
    (hphase : ∀ socket, phase = .recv socket → s.socketOfClients[thread]? = some socket) :
    ∀ (k : Nat) socket, (s.receivers.set thread phase)[k]? = some (.recv socket) →
      s.socketOfClients[k]? = some socket := by
  intro k socket hk
  rcases eq_or_ne thread k with rfl | hne
  · obtain ⟨hlt, -⟩ := List.getElem?_eq_some_iff.mp hk
    rw [List.length_set] at hlt
    rw [List.getElem?_set_self hlt] at hk
    exact hphase socket (Option.some.inj hk)
  · rw [List.getElem?_set_ne hne] at hk
    exact h.own k socket hk

/-- A new client gets a number of its own. -/
theorem Inv.accept (h : Inv s) (hnew : socket ∉ s.socketOfClients) :
    Inv (s.accept socket) := by
  have hkeep (k : Nat) (old : Socket) (hk : s.socketOfClients[k]? = some old) :
      (s.socketOfClients ++ [socket])[k]? = some old := by
    obtain ⟨hlt, -⟩ := List.getElem?_eq_some_iff.mp hk
    rw [List.getElem?_append_left hlt, hk]
  refine ⟨?_, ?_, ?_⟩
  · exact List.nodup_append.mpr ⟨h.distinct, List.nodup_singleton socket, by grind⟩
  · intro k old hk
    apply hkeep k old
    apply h.own k old
    simp only [Server.accept, List.getElem?_append, List.getElem?_singleton] at hk
    split at hk
    · exact hk
    · split at hk <;> simp at hk
  · constructor
    · intro e he
      obtain ⟨k, hk, hsocket⟩ := h.attributed.1 e he
      exact ⟨k, hk, hkeep k _ hsocket⟩
    · exact fun e he => hkeep e.1 e.2 (h.attributed.2 e he)

/-- A thread that finds its own number goes on with its own socket. -/
theorem Inv.evaluate (h : Inv s) (hsocket : s.socketOfClients[s.userId]? = some socket)
    (hok : s.userId = thread) : Inv (s.evaluate thread socket) := by
  rw [hok] at hsocket
  refine ⟨?_, ?_, ?_⟩
  · exact h.distinct
  · apply own_set h
    rintro _ ⟨⟩
    exact hsocket
  · refine ⟨h.attributed.1, ?_⟩
    intro e he
    rcases List.mem_append.mp he with he | he
    · exact h.attributed.2 e he
    · rw [List.mem_singleton.mp he]
      exact hsocket

/-- What it receives is stored under that number. -/
theorem Inv.receive (h : Inv s) (hthread : s.receivers[thread]? = some (.recv socket))
    (hok : isFull s.log.ring = true ∨ s.userId = thread) :
    Inv (s.receive thread socket text) := by
  refine ⟨?_, ?_, ?_⟩
  · exact h.distinct
  · exact own_set h nofun
  · refine ⟨?_, h.attributed.2⟩
    intro e he
    rcases Bool.eq_false_or_eq_true (isFull s.log.ring) with hfull | hfull
    · exact h.attributed.1 e (by simpa [Server.receive, hfull] using he)
    · have hold : e ∈ s.enqueued ∨ e = (socket, ⟨s.userId, text⟩) := by
        simpa [Server.receive, hfull] using he
      rcases hold with hold | rfl
      · exact h.attributed.1 e hold
      · refine ⟨s.userId, rfl, ?_⟩
        rw [hok.resolve_left (by simp [hfull])]
        exact h.own thread socket hthread

private theorem Inv.evaluate_wrong (h : Inv s)
    (hsocket : s.socketOfClients[s.userId]? = some socket) (hbad : s.userId ≠ thread) :
    ¬ Attributed (s.evaluate thread socket) := by
  rintro ⟨-, hreads⟩
  have hown : s.socketOfClients[thread]? = some socket :=
    hreads (thread, socket) (List.mem_append_right _ (List.mem_singleton_self _))
  obtain ⟨hlt, -⟩ := List.getElem?_eq_some_iff.mp hsocket
  exact hbad ((List.getElem?_inj hlt h.distinct).mp (hsocket.trans hown.symm))

private theorem Inv.receive_wrong (h : Inv s)
    (hthread : s.receivers[thread]? = some (.recv socket))
    (hbad : ¬ (isFull s.log.ring = true ∨ s.userId = thread)) :
    ¬ Attributed (s.receive thread socket text) := by
  rintro ⟨henqueued, -⟩
  obtain ⟨hfull, hother⟩ := not_or.mp hbad
  obtain ⟨k, hk, hsocket⟩ := henqueued (socket, ⟨s.userId, text⟩)
    (by simp [Server.receive, hfull])
  have hk : k = s.userId := by
    have hcast : (s.userId : Int) = k := hk
    omega
  have hown := h.own thread socket hthread
  obtain ⟨hlt, -⟩ := List.getElem?_eq_some_iff.mp hown
  exact hother (hk ▸ ((List.getElem?_inj hlt h.distinct).mp (hown.trans hsocket.symm)).symm)

/-- What each step needs and does. -/
theorem step_cases {s' : Server} {a : Action} (h : step s a = some s') :
    (∃ socket, a = .accept socket ∧ socket ∉ s.socketOfClients ∧ s' = s.accept socket) ∨
    (∃ thread socket, a = .evaluate thread ∧ s.socketOfClients[s.userId]? = some socket ∧
      s' = s.evaluate thread socket) ∨
    (∃ thread socket text, a = .receive thread text ∧
      s.receivers[thread]? = some (.recv socket) ∧ s' = s.receive thread socket text) ∨
    (∃ thread, a = .close thread ∧ s' = s.close thread) ∨
    (a = .dequeue ∧ s' = { s with log := call s.log .dequeue }) := by
  cases a with
  | accept socket =>
    simp only [step, Option.ite_none_right_eq_some, Option.some.injEq] at h
    exact .inl ⟨socket, rfl, h.1.2, h.2.symm⟩
  | evaluate thread =>
    simp only [step] at h
    split at h
    · rename_i socket _ hsocket
      exact .inr (.inl ⟨thread, socket, rfl, hsocket, (Option.some.inj h).symm⟩)
    · cases h
  | receive thread text =>
    simp only [step] at h
    split at h
    · rename_i socket hthread
      exact .inr (.inr (.inl ⟨thread, socket, text, rfl, hthread, (Option.some.inj h).symm⟩))
    · cases h
  | close thread =>
    simp only [step] at h
    split at h
    · exact .inr (.inr (.inr (.inl ⟨thread, rfl, (Option.some.inj h).symm⟩)))
    · cases h
  | dequeue => exact .inr (.inr (.inr (.inr ⟨rfl, (Option.some.inj h).symm⟩)))

end Steps

/-- Messages and reads are attributed in every state of a run just when each thread reads
the shared cell only while no client after its own has been accepted. -/
theorem attributed_iff (memory : Int → Message) (actions : List Action) :
    Runs.Visits step Attributed (opened memory) actions ↔
      Runs.Along step OwnIndex (opened memory) actions := by
  apply Runs.visits_iff_along (I := Inv)
  · intro s a s' h hstep hok
    obtain ⟨socket, rfl, hnew, rfl⟩ | ⟨thread, socket, rfl, hsocket, rfl⟩ |
      ⟨thread, socket, text, rfl, hthread, rfl⟩ | ⟨thread, rfl, rfl⟩ | ⟨rfl, rfl⟩ :=
      step_cases hstep
    · exact h.accept hnew
    · exact h.evaluate hsocket hok
    · exact h.receive hthread hok
    · exact ⟨h.distinct, own_set h nofun, h.attributed⟩
    · exact ⟨h.distinct, h.own, h.attributed⟩
  · exact fun s h => h.attributed
  · intro s a s' h hstep hbad
    obtain ⟨socket, rfl, -, -⟩ | ⟨thread, socket, rfl, hsocket, rfl⟩ |
      ⟨thread, socket, text, rfl, hthread, rfl⟩ | ⟨thread, rfl, -⟩ | ⟨rfl, -⟩ :=
      step_cases hstep
    · exact absurd trivial hbad
    · exact h.evaluate_wrong hsocket hbad
    · exact h.receive_wrong hthread hbad
    · exact absurd trivial hbad
    · exact absurd trivial hbad
  · exact ⟨List.nodup_nil, by simp [opened], by simp [opened, Attributed]⟩

/-- The second client is accepted while the first thread waits in recv; what the first
client then says is stored as client 1's. -/
theorem second_client_takes_over :
    ¬ ∀ memory actions s, Runs.run step (opened memory) actions = some s → Attributed s := by
  intro h
  let actions : List Action := [.accept 4, .evaluate 0, .accept 5, .receive 0 ['h', 'i']]
  obtain ⟨henqueued, -⟩ := h (fun _ => ⟨0, []⟩) actions _ rfl
  obtain ⟨k, hk, hsocket⟩ := henqueued (4, ⟨1, ['h', 'i']⟩) (by decide)
  obtain rfl : k = 1 := Int.ofNat.inj hk.symm
  exact absurd hsocket (by decide)

end NetworkProtocol.Chat.Attribution
