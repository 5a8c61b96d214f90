import Mathlib.Data.List.Nodup
import NetworkProtocol.Broker.ThreadIdentity

/-! The TCP ports that handle_subscriber gives out: an int that only grows, of which htons keeps
16 bits. -/
namespace NetworkProtocol.Broker.Spawn

def subscriberPort : Nat := 1000

def publisherPort : Nat := 1001

def htons (port : Nat) : Nat := port % 65536

namespace Acceptor

def tcpPorts (s : Acceptor) : List Nat :=
  s.given.flatMap (fun port => [htons port.receiver, htons port.sender])

/-- No two of the ports are the same, and each can be bound beside the broker's own. -/
structure Apart (s : Acceptor) : Prop where
  distinct : s.tcpPorts.Nodup
  usable : ∀ port ∈ s.tcpPorts, port ≠ 0 ∧ port ≠ subscriberPort ∧ port ≠ publisherPort

/-- How many subscribers can be given ports before the counter passes 65535. -/
def portCapacity : Nat := (65536 - 20000) / 2

section Numbering
variable {s s' : Acceptor} {a : Action}

private theorem numbered_init : Numbered {} := ⟨rfl, rfl⟩

/-- Every accepted subscriber gets the next two numbers. -/
theorem Numbered.step (h : Numbered s) (hstep : step s a = some s') : Numbered s' := by
  rcases step_cases hstep with ⟨-, rfl⟩ | ⟨i, t, -, -, -, rfl⟩ | ⟨i, t, -, -, -, rfl⟩
  · exact ⟨h.statement.given, h.statement.next⟩
  · exact ⟨h.given, h.next⟩
  · exact ⟨h.given, h.next⟩

/-- Whatever the threads do, the ports given are those of the first subscribers. -/
theorem numbered_run {actions : List Action} (h : Runs.run Acceptor.step {} actions = some s) :
    Numbered s :=
  Runs.run_invariant (fun _ _ _ hs hstep => hs.step hstep) numbered_init h

/-- Two consecutive values of the counter for each subscriber. -/
theorem tcpPorts_eq (n : Nat) : ((List.range n).map portsOf).flatMap
    (fun port => [htons port.receiver, htons port.sender]) =
      (List.range (2 * n)).map (fun j => htons (20000 + j)) := by
  induction n with
  | zero => rfl
  | succ n ih =>
    have hsender : 20001 + 2 * n = 20000 + (2 * n + 1) := by omega
    rw [List.range_succ, List.map_append, List.flatMap_append, ih, Nat.mul_succ, List.range_succ,
      List.range_succ, List.map_append, List.map_append]
    simp [portsOf, hsender]

private theorem Numbered.tcpPorts (h : Numbered s) : s.tcpPorts =
    (List.range (2 * s.given.length)).map (fun j => htons (20000 + j)) := by
  have hlength : s.given.length = s.subscriberIdx := by
    rw [h.given, List.length_map, List.length_range]
  rw [Acceptor.tcpPorts, hlength, h.given, tcpPorts_eq]

end Numbering

section Capacity
variable {s : Acceptor}

/-- Below 65536 the 16 bits are the whole counter. -/
theorem Numbered.apart (h : Numbered s) (hroom : s.given.length ≤ portCapacity) : Apart s := by
  have hkept : ∀ j ∈ List.range (2 * s.given.length), htons (20000 + j) = 20000 + j := by
    intro j hj
    have hlt := List.mem_range.mp hj
    rw [portCapacity] at hroom
    exact Nat.mod_eq_of_lt (by omega)
  have hports : s.tcpPorts = (List.range (2 * s.given.length)).map (20000 + ·) :=
    h.tcpPorts.trans (List.map_congr_left hkept)
  constructor
  · rw [hports]
    exact List.nodup_range.map (fun i j hij => Nat.add_left_cancel hij)
  · rw [hports]
    intro port hport
    obtain ⟨j, -, rfl⟩ := List.mem_map.mp hport
    rw [subscriberPort, publisherPort]
    omega

/-- The next subscriber's port is 0. -/
theorem Numbered.zero_mem (h : Numbered s) (hfull : portCapacity < s.given.length) :
    0 ∈ s.tcpPorts := by
  rw [h.tcpPorts]
  refine List.mem_map.mpr ⟨2 * portCapacity, List.mem_range.mpr (by omega), ?_⟩
  rfl

/-- One more subscriber. -/
theorem exists_round (hplace : s.place = .accepting) : ∃ actions s',
    Runs.run step s actions = some s' ∧ s'.place = .accepting ∧
      s'.given.length = s.given.length + 1 := by
  obtain ⟨subscriberIdx, next, place, subscriberId, port, dataSender, dataReceiver, given,
    threads⟩ := s
  obtain rfl : place = .accepting := hplace
  refine ⟨List.replicate 7 .statement, _, rfl, rfl, ?_⟩
  exact List.length_append

/-- Any number of subscribers can come. -/
theorem exists_run (n : Nat) : ∃ actions s, Runs.run step {} actions = some s ∧
    s.place = .accepting ∧ s.given.length = n := by
  induction n with
  | zero => exact ⟨[], {}, rfl, rfl, rfl⟩
  | succ n ih =>
    obtain ⟨before, s, hbefore, hplace, hlength⟩ := ih
    obtain ⟨round, s', hround, hplace', hlength'⟩ := exists_round hplace
    exact ⟨before ++ round, s', Runs.run_trans hbefore hround, hplace', by rw [hlength', hlength]⟩

end Capacity

/-- In whatever order accepts and threads go on, the ports given so far are apart and usable
exactly while there are no more than 22768 subscribers. -/
theorem apart_iff {actions : List Action} {s : Acceptor}
    (hrun : Runs.run step {} actions = some s) : Apart s ↔ s.given.length ≤ 22768 := by
  have h := numbered_run hrun
  constructor
  · intro apart
    by_contra hfull
    exact (apart.usable 0 (h.zero_mem (by rw [portCapacity]; omega))).1 rfl
  · exact h.apart

/-- The ports of the first two subscribers are. -/
theorem apart_second : ∃ s, Runs.run step {} (List.replicate 8 .statement) = some s ∧
    s.given.length = 2 ∧ Apart s := by
  obtain ⟨s, hrun, hlength⟩ : ∃ s, Runs.run step {} (List.replicate 8 .statement) = some s ∧
      s.given.length = 2 := ⟨_, rfl, rfl⟩
  exact ⟨s, hrun, hlength, (apart_iff hrun).mpr (by rw [hlength]; decide)⟩

/-- The subscriber after those is given port 0. -/
theorem port_zero_given :
    ¬ ∀ actions s, Runs.run step {} actions = some s → Apart s := by
  intro h
  obtain ⟨actions, s, hrun, -, hlength⟩ := exists_run 22769
  have hzero := (numbered_run hrun).zero_mem (by rw [hlength, portCapacity]; decide)
  exact ((h actions s hrun).usable 0 hzero).1 rfl

end Acceptor

end NetworkProtocol.Broker.Spawn
