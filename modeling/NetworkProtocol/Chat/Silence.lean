import Mathlib.Data.List.Nodup
import NetworkProtocol.Chat.Attribution

/-! What becomes of a client once a newer one is in the room. The shared userId only grows, so
the threads already waiting for the older client are the last ones to hear it. -/
namespace NetworkProtocol.Chat.Attribution

def listening (s : Server) (socket : Socket) : Nat := s.receivers.count (Phase.recv socket)

/-- The cell names the newest client, and the threads in recv on a client's socket were there
before any newer client was. -/
structure Cell (s : Server) : Prop where
  newest : s.socketOfClients.length ≤ s.userId + 1
  threads : s.receivers.length = s.socketOfClients.length
  distinct : s.socketOfClients.Nodup
  older : ∀ (thread j : Nat) socket, s.receivers[thread]? = some (Phase.recv socket) →
    s.socketOfClients[j]? = some socket → thread ≤ j

/-- What happened after the base state; budget counts what may still come from the socket. -/
structure Silenced (base : Server) (k : Nat) (socket : Socket) (s : Server) : Prop where
  cell : Cell s
  client : s.socketOfClients[k]? = some socket
  past : k < s.userId
  history : ∃ reads enqueued, s.reads = base.reads ++ reads ∧
    s.enqueued = base.enqueued ++ enqueued ∧ (∀ e ∈ reads, e.2 ≠ socket) ∧
    enqueued.countP (·.1 = socket) + listening s socket ≤ k + 1 ∧
    ∀ e ∈ enqueued, (k : Int) < e.2.userId

section Cells
variable {s : Server} {thread j : Nat} {socket : Socket} {text : CString}

private theorem older_set (h : Cell s) {phase : Phase}
    (hphase : thread < s.receivers.length → ∀ socket (j : Nat), phase = .recv socket →
      s.socketOfClients[j]? = some socket → thread ≤ j) :
    ∀ (t j : Nat) socket, (s.receivers.set thread phase)[t]? = some (.recv socket) →
      s.socketOfClients[j]? = some socket → t ≤ j := by
  intro t j socket ht hj
  rcases eq_or_ne thread t with rfl | hne
  · obtain ⟨hlt, -⟩ := List.getElem?_eq_some_iff.mp ht
    rw [List.length_set] at hlt
    rw [List.getElem?_set_self hlt] at ht
    exact hphase hlt socket j (Option.some.inj ht) hj
  · rw [List.getElem?_set_ne hne] at ht
    exact h.older t j socket ht hj

private theorem Cell.moved (h : Cell s) {phase : Phase}
    (hphase : ∀ socket, phase = .recv socket → s.socketOfClients[s.userId]? = some socket)
    {t : Server} (huser : t.userId = s.userId) (hsockets : t.socketOfClients = s.socketOfClients)
    (hreceivers : t.receivers = s.receivers.set thread phase) : Cell t := by
  refine ⟨?_, ?_, ?_, ?_⟩
  · rw [hsockets, huser]
    exact h.newest
  · rw [hreceivers, hsockets, List.length_set]
    exact h.threads
  · rw [hsockets]
    exact h.distinct
  · rw [hreceivers, hsockets]
    refine older_set h fun hlt socket j heq hj => ?_
    have hsocket := hphase socket heq
    obtain ⟨hin, -⟩ := List.getElem?_eq_some_iff.mp hsocket
    obtain rfl := (List.getElem?_inj hin h.distinct).mp (hsocket.trans hj.symm)
    have hnewest := h.newest
    have hthreads := h.threads
    omega

private theorem Cell.accept (h : Cell s) (hnew : socket ∉ s.socketOfClients) :
    Cell (s.accept socket) := by
  refine ⟨?_, ?_, ?_, ?_⟩
  · simp [Server.accept]
  · simp [Server.accept, h.threads]
  · exact List.nodup_append.mpr ⟨h.distinct, List.nodup_singleton socket, by grind⟩
  · intro thread j old hthread hj
    simp only [Server.accept, List.getElem?_append, List.getElem?_singleton] at hthread hj
    have hlt : thread < s.receivers.length := by
      by_contra hge
      rw [if_neg hge] at hthread
      split at hthread <;> simp at hthread
    rw [if_pos hlt] at hthread
    by_cases hold : j < s.socketOfClients.length
    · rw [if_pos hold] at hj
      exact h.older thread j old hthread hj
    · have := h.threads
      omega

private theorem Cell.listening_le (h : Cell s) {k : Nat}
    (hk : s.socketOfClients[k]? = some socket) : listening s socket ≤ k + 1 := by
  have hlate : (s.receivers.drop (k + 1)).count (.recv socket) = 0 := by
    refine List.count_eq_zero.mpr fun hmem => ?_
    obtain ⟨i, hi⟩ := List.mem_iff_getElem?.mp hmem
    rw [List.getElem?_drop] at hi
    have hle := h.older _ k socket hi hk
    omega
  calc listening s socket
      = (s.receivers.take (k + 1) ++ s.receivers.drop (k + 1)).count (.recv socket) := by
        rw [List.take_append_drop, listening]
    _ = (s.receivers.take (k + 1)).count (.recv socket) := by
        rw [List.count_append, hlate, Nat.add_zero]
    _ ≤ (s.receivers.take (k + 1)).length := List.count_le_length
    _ ≤ k + 1 := List.length_take_le _ _

private theorem listening_set_le {phase : Phase} (hphase : phase ≠ .recv socket) :
    (s.receivers.set thread phase).count (.recv socket) ≤ listening s socket := by
  by_cases hlt : thread < s.receivers.length
  · rw [List.count_set hlt, listening]
    simp [hphase]
  · rw [List.set_eq_of_length_le (not_lt.mp hlt), listening]

private theorem listening_leave (h : s.receivers[thread]? = some (.recv socket)) :
    (s.receivers.set thread .evaluate).count (.recv socket) + 1 = listening s socket := by
  obtain ⟨hlt, hget⟩ := List.getElem?_eq_some_iff.mp h
  have hpos : 0 < s.receivers.count (.recv socket) :=
    List.count_pos_iff.mpr (hget ▸ List.getElem_mem hlt)
  rw [List.count_set hlt, hget, listening]
  simp
  omega

end Cells

section Steps
variable {base s s' : Server} {k : Nat} {socket : Socket}

/-- The one step that can bring a message of the older client in is a receive. -/
theorem Silenced.step (h : Silenced base k socket s) {a : Action} (hstep : step s a = some s') :
    Silenced base k socket s' := by
  obtain ⟨reads, enqueued, hreads, henqueued, hquiet, hbudget, hlabels⟩ := h.history
  obtain ⟨new, rfl, hnew, rfl⟩ | ⟨thread, newest, rfl, hnewest, rfl⟩ |
    ⟨thread, other, text, rfl, hthread, rfl⟩ | ⟨thread, rfl, rfl⟩ | ⟨rfl, rfl⟩ :=
    step_cases hstep
  · obtain ⟨hlt, -⟩ := List.getElem?_eq_some_iff.mp h.client
    refine ⟨?_, ?_, ?_, ?_⟩
    · exact h.cell.accept hnew
    · exact (List.getElem?_append_left hlt).trans h.client
    · exact hlt
    · refine ⟨reads, enqueued, hreads, henqueued, hquiet, ?_, hlabels⟩
      have hsame : listening (s.accept new) socket = listening s socket := by
        simp [listening, Server.accept]
      rw [hsame]
      exact hbudget
  · have hother : newest ≠ socket := by
      rintro rfl
      obtain ⟨hlt, -⟩ := List.getElem?_eq_some_iff.mp hnewest
      have hsame := (List.getElem?_inj hlt h.cell.distinct).mp (hnewest.trans h.client.symm)
      exact h.past.ne hsame.symm
    refine ⟨?_, ?_, ?_, ?_⟩
    · exact h.cell.moved (by rintro _ ⟨⟩; exact hnewest) rfl rfl rfl
    · exact h.client
    · exact h.past
    · refine ⟨reads ++ [(thread, newest)], enqueued, ?_, henqueued, ?_, ?_, hlabels⟩
      · rw [← List.append_assoc, ← hreads]
        rfl
      · intro e he
        rcases List.mem_append.mp he with he | he
        · exact hquiet e he
        · rw [List.mem_singleton.mp he]
          exact hother
      · have hle : listening (s.evaluate thread newest) socket ≤ listening s socket :=
          listening_set_le (by simpa using hother)
        omega
  · refine ⟨?_, ?_, ?_, ?_⟩
    · exact h.cell.moved (by simp) rfl rfl rfl
    · exact h.client
    · exact h.past
    · rcases Bool.eq_false_or_eq_true (isFull s.log.ring) with hfull | hfull
      · refine ⟨reads, enqueued, hreads, ?_, hquiet, ?_, hlabels⟩
        · exact (if_pos hfull).trans henqueued
        · have hle : listening (s.receive thread other text) socket ≤ listening s socket :=
            listening_set_le (by simp)
          omega
      · refine ⟨reads, enqueued ++ [(other, ⟨s.userId, text⟩)], hreads, ?_, hquiet, ?_, ?_⟩
        · rw [← List.append_assoc, ← henqueued]
          exact if_neg (by simp [hfull])
        · rw [List.countP_append, List.countP_singleton]
          rcases eq_or_ne other socket with rfl | hne
          · have hleave : listening (s.receive thread other text) other + 1 =
                listening s other := listening_leave hthread
            simp only [decide_true, if_true]
            omega
          · have hle : listening (s.receive thread other text) socket ≤ listening s socket :=
              listening_set_le (by simp)
            simp only [hne, decide_false, Bool.false_eq_true, if_false]
            omega
        · intro e he
          rcases List.mem_append.mp he with he | he
          · exact hlabels e he
          · rw [List.mem_singleton.mp he]
            exact Int.ofNat_lt.mpr h.past
  · refine ⟨?_, h.client, h.past, reads, enqueued, hreads, henqueued, hquiet, ?_, hlabels⟩
    · exact h.cell.moved (by simp) rfl rfl rfl
    · have hle : listening (s.close thread) socket ≤ listening s socket :=
        listening_set_le (by simp)
      omega
  · exact ⟨⟨h.cell.newest, h.cell.threads, h.cell.distinct, h.cell.older⟩, h.client, h.past,
      h.history⟩

private theorem Cell.step (h : Cell s) {a : Action} (hstep : step s a = some s') : Cell s' := by
  obtain ⟨new, rfl, hnew, rfl⟩ | ⟨thread, newest, rfl, hnewest, rfl⟩ |
    ⟨thread, other, text, rfl, hthread, rfl⟩ | ⟨thread, rfl, rfl⟩ | ⟨rfl, rfl⟩ :=
    step_cases hstep
  · exact h.accept hnew
  · exact h.moved (by rintro _ ⟨⟩; exact hnewest) rfl rfl rfl
  · exact h.moved (by simp) rfl rfl rfl
  · exact h.moved (by simp) rfl rfl rfl
  · exact ⟨h.newest, h.threads, h.distinct, h.older⟩

private theorem cell_run {memory : Int → Message} {actions : List Action}
    (hrun : Runs.run Attribution.step (opened memory) actions = some s) : Cell s :=
  Runs.run_invariant (fun _ _ _ h hstep => h.step hstep)
    ⟨Nat.zero_le _, rfl, List.nodup_nil, by simp [opened]⟩ hrun

end Steps

/-- Once a newer client is in the room, the server never calls recv for the older one again:
at most k + 1 more of client k's messages reach the ring, and no message of anybody's is ever
again stored as client k's. -/
theorem silenced (memory : Int → Message) (before after : List Action) (s s' : Server)
    (k : Nat) (socket : Socket) (hbefore : Runs.run step (opened memory) before = some s)
    (hclient : s.socketOfClients[k]? = some socket) (hnewer : k < s.userId)
    (hafter : Runs.run step s after = some s') :
    ∃ reads enqueued, s'.reads = s.reads ++ reads ∧ s'.enqueued = s.enqueued ++ enqueued ∧
      (∀ e ∈ reads, e.2 ≠ socket) ∧ enqueued.countP (·.1 = socket) ≤ k + 1 ∧
      ∀ e ∈ enqueued, (k : Int) < e.2.userId := by
  have hcell := cell_run hbefore
  have hstart : Silenced s k socket s :=
    ⟨hcell, hclient, hnewer, [], [], by simp, by simp, by simp,
      by simpa using hcell.listening_le hclient, by simp⟩
  have hend : Silenced s k socket s' :=
    Runs.run_invariant (fun _ _ _ h hstep => h.step hstep) hstart hafter
  obtain ⟨reads, enqueued, hreads, henqueued, hquiet, hbudget, hlabels⟩ := hend.history
  exact ⟨reads, enqueued, hreads, henqueued, hquiet, by omega, hlabels⟩

/-- The first client's second message is already lost to a thread that listens to the other. -/
theorem first_client_silenced :
    ∃ s' : Server, Runs.run step (opened fun _ => ⟨0, []⟩)
        ([.accept 4, .evaluate 0, .accept 5] ++ [.receive 0 ['h', 'i'], .evaluate 0]) = some s' ∧
      ∃ reads enqueued, s'.reads = [(0, 4)] ++ reads ∧ s'.enqueued = [] ++ enqueued ∧
        (∀ e ∈ reads, e.2 ≠ 4) ∧ enqueued.countP (·.1 = 4) ≤ 0 + 1 ∧
        ∀ e ∈ enqueued, ((0 : Nat) : Int) < e.2.userId :=
  ⟨_, rfl, silenced (fun _ => ⟨0, []⟩) [.accept 4, .evaluate 0, .accept 5]
    [.receive 0 ['h', 'i'], .evaluate 0] _ _ 0 4 rfl rfl (by decide) rfl⟩

end NetworkProtocol.Chat.Attribution
