import NetworkProtocol.Ftp.History
import NetworkProtocol.Ftp.WriteSets

/-! The subscript of ports[]: every PASV that is accepted takes the next entry, and nothing gives
one back. -/
namespace NetworkProtocol.Ftp
open Server

def Exchange.isPassive (e : Exchange) : Bool := e.command = .pasv && e.status = 227

def Main.passives (m : Main) : Nat := m.exchanges.countP Exchange.isPassive

/-- A PASV that is going to be accepted reads ports[] at an index inside the array. -/
def ReadsInside (m : Main) : Event → Prop
  | .request _ req => interpret req.command = .pasv → m.server.authStatus = .loggedIn →
    m.server.portIdx < ports.length
  | _ => True

section Request
variable {env : Environment} {req : Message} {s s' : Server} {o : Outcome}

structure Takes (req : Message) (s : Server) (o : Outcome) (n : Nat) : Prop where
  counted : (if (exchange req o).isPassive then 1 else 0) = n
  portIdx : o.server.portIdx = s.portIdx + n
  accepted : n = 1 ↔ interpret req.command = .pasv ∧ s.authStatus = .loggedIn

private theorem takes_none {command : Command} (h : interpret req.command = command)
    (hsame : o.server.portIdx = s.portIdx) (hne : command ≠ .pasv := by decide) :
    Takes req s o 0 := by
  subst h
  refine ⟨?_, hsame, ?_⟩
  · simp [Exchange.isPassive, exchange, hne]
  · simp [hne]

private theorem Starts.takes_none (starts : Starts env req s s')
    (hsame : o.server.portIdx = s'.portIdx) : Takes req s o 0 := by
  rcases starts.command with command | command
  · exact Ftp.takes_none command (hsame.trans starts.portIdx)
  · exact Ftp.takes_none command (hsame.trans starts.portIdx)

/-- portIdx counts the PASVs accepted. -/
theorem portIdx_served (served : Served env req s o) : ∃ n, Takes req s o n := by
  cases served with
  | refused fileName status text reason error =>
    refine ⟨0, ?_, rfl, ?_⟩
    · have hne : status ≠ 227 := by
        rintro rfl
        exact absurd error (by decide)
      simp [Exchange.isPassive, exchange, hne]
    · refine iff_of_false Nat.zero_ne_one (fun hpasv => ?_)
      obtain ⟨command, auth⟩ := hpasv
      simp only [Refused, command] at reason
      exact reason auth
  | identified text command auth body => exact ⟨0, takes_none command rfl⟩
  | loggedOn text command auth body => exact ⟨0, takes_none command rfl⟩
  | already text command auth => exact ⟨0, takes_none command rfl⟩
  | left text command => exact ⟨0, takes_none command rfl⟩
  | moved relativePath text command auth change => exact ⟨0, takes_none command rfl⟩
  | typed asciiMode text command auth => exact ⟨0, takes_none command rfl⟩
  | passive text command auth =>
    refine ⟨1, ?_, create_portIdx env _ _, by simp [command, auth]⟩
    simp [Exchange.isPassive, exchange, command]
  | active address text command auth parsed =>
    exact ⟨0, takes_none command (create_portIdx env s _)⟩
  | transferred s' status text starts joined success => exact ⟨0, starts.takes_none rfl⟩
  | failed s' text starts joined => exact ⟨0, starts.takes_none rfl⟩

end Request

structure Counted (m : Main) : Prop where
  portIdx : m.server.portIdx = m.passives
  inside : m.passives ≤ ports.length

section Steps
variable {m m' : Main} {e : Event}

/-- What one event does to the count and to portIdx. -/
theorem passives_step (h : step m e = some m') : ∃ n ≤ 1, m'.passives = m.passives + n ∧
    m'.server.portIdx = m.server.portIdx + n ∧
      (ReadsInside m e ↔ n = 0 ∨ m.server.portIdx < ports.length) := by
  rcases step_exchanges h with ⟨hother, hserver, hexchanges⟩ |
    ⟨env, req, o, rfl, hexec, hserver, hexchanges⟩
  · refine ⟨0, Nat.zero_le _, ?_, ?_, ?_⟩
    · rw [Main.passives, hexchanges]
      rfl
    · rw [hserver]
      rfl
    · cases e with
      | request env req => exact absurd rfl (hother env req)
      | _ => exact iff_of_true trivial (.inl rfl)
  · obtain ⟨n, counted, portIdx, accepted⟩ := portIdx_served (served hexec)
    have hpassives : m'.passives = m.passives + n := by
      rw [Main.passives, hexchanges, List.countP_append, List.countP_singleton, counted]
      rfl
    have hportIdx : m'.server.portIdx = m.server.portIdx + n := by rw [hserver, portIdx]
    have hn : n = 0 ∨ n = 1 := by
      rw [← counted]
      split
      · exact .inr rfl
      · exact .inl rfl
    rcases hn with rfl | rfl
    · have hreads : ReadsInside m (.request env req) := fun command auth =>
        absurd (accepted.mpr ⟨command, auth⟩) Nat.zero_ne_one
      exact ⟨0, Nat.zero_le _, hpassives, hportIdx, iff_of_true hreads (.inl rfl)⟩
    · obtain ⟨command, auth⟩ := accepted.mp rfl
      exact ⟨1, Nat.le_refl _, hpassives, hportIdx, by simp [ReadsInside, command, auth]⟩

private theorem Counted.step (h : Counted m) (hstep : step m e = some m') (hok : ReadsInside m e) :
    Counted m' := by
  obtain ⟨n, hn, hpassives, hportIdx, hreads⟩ := passives_step hstep
  refine ⟨by rw [hpassives, hportIdx, h.portIdx], ?_⟩
  rcases hreads.mp hok with rfl | hlt
  · rw [hpassives]
    exact h.inside
  · rw [h.portIdx] at hlt
    omega

/-- A PASV that reads outside is one too many. -/
theorem Counted.overrun (h : Counted m) (hstep : Ftp.step m e = some m')
    (hbad : ¬ ReadsInside m e) : ¬ m'.passives ≤ ports.length := by
  obtain ⟨n, hn, hpassives, -, hreads⟩ := passives_step hstep
  rw [hreads, not_or, h.portIdx] at hbad
  omega

end Steps

/-- Over whole runs: every PASV accepted reads inside ports[] exactly when, since the server was
started, no more PASVs have been accepted than there are entries. -/
theorem reads_inside_iff (events : List Event) :
    Runs.Along step ReadsInside {} events ↔
      Runs.Visits step (fun m => m.passives ≤ ports.length) {} events := by
  symm
  apply Runs.visits_iff_along (I := Counted)
  · exact fun m e m' => Counted.step
  · exact fun m h => h.inside
  · exact fun m e m' => Counted.overrun
  · exact ⟨rfl, Nat.zero_le _⟩

/-- After eighteen PASVs, each followed by an NLST that frees the mode, the next reads outside. -/
theorem nineteenth_passive : ¬ ∀ events, Runs.Along step ReadsInside {} events := by
  intro h
  let env : Environment := ⟨fun _ => none, fun _ => 0, 0, 0, some 1⟩
  let round : List Event :=
    [.request env { command := "pasv".toList }, .request env { command := "nlst".toList }]
  let events : List Event :=
    [.accept, .request env { command := "user".toList, body := userId },
      .request env { command := "pass".toList, body := userPassword }] ++
    (List.replicate 19 round).flatten
  have hrun : (Runs.run step {} events).map (·.passives) = some 19 := by decide +kernel
  obtain ⟨m, hm, hpassives⟩ := Option.map_eq_some_iff.mp hrun
  have hcounted : Runs.Visits step Counted {} events :=
    (h events).visits (fun m e m' => Counted.step) ⟨rfl, Nat.zero_le _⟩
  have hinside := (hcounted events m List.prefix_rfl hm).inside
  rw [hpassives] at hinside
  exact absurd hinside (by decide)

end NetworkProtocol.Ftp
