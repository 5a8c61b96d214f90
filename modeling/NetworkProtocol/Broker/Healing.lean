import Mathlib.Algebra.Order.BigOperators.Group.List
import Mathlib.Algebra.Order.Group.Nat
import Mathlib.Algebra.Ring.Nat
import NetworkProtocol.Broker.WakeUp

/-! How a forgotten broadcast is made good. Sender threads that all sleep over something
undelivered stay asleep, but the next update of any kind wakes every one of them. -/
namespace NetworkProtocol.Broker.WakeUp
open Std OrderedMap

/-- The steps a sender thread still takes before it is back in the wait. -/
def owed : Sender → Nat
  | .starting => 1
  | .waiting => 0
  | .woken => 2
  | .passed => 1

def work (m : Machine) : Nat := (m.senders.map owed).sum

/-- What holds of the machine in every run, whether or not a broadcast is missed. -/
structure Formed (m : Machine) : Prop where
  cursor : ∀ id topic e, m.broker.entry id topic = some e →
    e.isReadUpTo ≤ (m.broker.published topic).length
  accepted : ∀ id topic e, m.broker.entry id topic = some e → id < m.senders.length
  stored : ∀ topic, m.registered = some topic → topic ∈ m.broker.topics

section Steps
variable {m m' : Machine} {a : Action}

/-- Without users nothing is out of form. -/
theorem formed_init : Formed {} := ⟨inv_init.cursor, inv_init.accepted, inv_init.stored⟩

private theorem Formed.inv (hm : Formed m) : Inv { m with toggled := insert 0 m.toggled } :=
  ⟨hm.cursor, hm.accepted, hm.stored,
    fun _ => .inr (.inr (.inl (Finset.insert_ne_empty 0 m.toggled)))⟩

private theorem Inv.formed {toggled : Finset UserId} (hm : Inv { m with toggled := toggled }) :
    Formed m := ⟨hm.cursor, hm.accepted, hm.stored⟩

private theorem Formed.broadcast (hm : Formed m) : Formed (broadcast m) := by
  refine ⟨hm.cursor, fun id topic e he => ?_, hm.stored⟩
  rw [WakeUp.broadcast, List.length_map]
  exact hm.accepted id topic e he

/-- Every step keeps the form, heard or not. -/
theorem Formed.step (hm : Formed m) (hstep : step m a = some m') : Formed m' := by
  cases a with
  | accept =>
    obtain rfl := Option.some.inj hstep
    refine ⟨hm.cursor, fun id topic e he => ?_, hm.stored⟩
    rw [List.length_append]
    exact (hm.accepted id topic e he).trans_le (Nat.le_add_right _ _)
  | register message =>
    obtain ⟨-, rfl⟩ := Runs.guarded hstep
    exact (keep_register hm.inv message).formed
  | distribute =>
    obtain ⟨topic, hreg, rfl⟩ := Option.map_eq_some_iff.mp hstep
    rw [distributeMessage, if_pos (hm.stored topic hreg)]
    exact Formed.broadcast ⟨hm.cursor, hm.accepted, by simp⟩
  | toggle id topic =>
    obtain ⟨⟨hlt, -⟩, rfl⟩ := Runs.guarded hstep
    exact (keep_toggle hm.inv topic hlt).formed
  | notify id =>
    obtain ⟨-, rfl⟩ := Runs.guarded hstep
    exact Formed.broadcast ⟨hm.cursor, hm.accepted, hm.stored⟩
  | wait id =>
    obtain ⟨-, rfl⟩ := Runs.guarded hstep
    refine ⟨hm.cursor, fun id' topic e he => ?_, hm.stored⟩
    rw [List.length_set]
    exact hm.accepted id' topic e he
  | pass id =>
    obtain ⟨-, rfl⟩ := Runs.guarded hstep
    exact (keep_pass hm.inv id).formed

/-- A spurious wake-up keeps it too. -/
theorem Formed.rouse {id : UserId} (hm : Formed m) (h : rouse m id = some m') : Formed m' := by
  obtain ⟨-, rfl⟩ := Runs.guarded h
  refine ⟨hm.cursor, fun id' topic e he => ?_, hm.stored⟩
  rw [List.length_set]
  exact hm.accepted id' topic e he

private theorem owed_set {l : List Sender} {id : Nat} {before after : Sender}
    (h : l[id]? = some before) (hone : owed after + 1 = owed before) :
    ((l.set id after).map owed).sum + 1 = (l.map owed).sum := by
  induction l generalizing id with
  | nil => simp at h
  | cons s l ih =>
    cases id with
    | zero =>
      obtain rfl := Option.some.inj h
      simp only [List.set_cons_zero, List.map_cons, List.sum_cons]
      omega
    | succ id =>
      have hrest := ih h
      simp only [List.set_cons_succ, List.map_cons, List.sum_cons]
      omega

/-- A sender's own step is one step of its way back to the wait. -/
theorem work_own (ha : Own a) (hstep : step m a = some m') : work m' + 1 = work m := by
  obtain ⟨id, rfl | rfl⟩ := ha
  · obtain ⟨hphase, rfl⟩ := Runs.guarded hstep
    rcases hphase with h | h
    · exact owed_set h rfl
    · exact owed_set h rfl
  · obtain ⟨hphase, rfl⟩ := Runs.guarded hstep
    exact owed_set hphase rfl

/-- No thread has work left just when all of them wait. -/
theorem work_eq_zero (m : Machine) : work m = 0 ↔ ∀ s ∈ m.senders, s = .waiting := by
  have howed (s : Sender) : owed s = 0 ↔ s = .waiting := by cases s <;> simp [owed]
  simp only [work, List.sum_eq_zero_iff, List.forall_mem_map, howed]

/-- As long as some thread has work left, some thread can do a step of it. -/
theorem own_enabled (h : work m ≠ 0) : ∃ b m', Own b ∧ step m b = some m' := by
  simp only [ne_eq, work_eq_zero, not_forall] at h
  obtain ⟨s, hs, hne⟩ := h
  obtain ⟨id, hid⟩ := List.mem_iff_getElem?.mp hs
  cases s with
  | starting => exact ⟨.wait id, _, ⟨id, .inl rfl⟩, step_wait (.inl hid)⟩
  | waiting => exact absurd rfl hne
  | woken => exact ⟨.pass id, _, ⟨id, .inr rfl⟩, step_pass hid⟩
  | passed => exact ⟨.wait id, _, ⟨id, .inl rfl⟩, step_wait (.inr hid)⟩

private theorem work_broadcast (hall : ∀ s ∈ m.senders, s = .waiting) :
    work (broadcast m) = 2 * m.senders.length := by
  have hmap : (m.senders.map wake).map owed = List.replicate m.senders.length 2 := by
    rw [List.map_map, ← List.map_const']
    exact List.map_congr_left fun s hs => by rw [hall s hs]; rfl
  rw [work, WakeUp.broadcast, hmap, List.sum_replicate]
  exact Nat.mul_comm _ _

/-- A broadcast that finds every thread in its wait leaves nothing behind. -/
theorem broadcast_heard (hm : Formed m) (hall : ∀ s ∈ m.senders, s = .waiting) :
    Inv (broadcast m) := by
  refine inv_broadcast hm.cursor hm.accepted hm.stored fun _ _ id hdeaf => ?_
  rcases hdeaf with h | h
  · exact absurd (hall _ (List.mem_of_getElem? h)) (by decide)
  · exact absurd (hall _ (List.mem_of_getElem? h)) (by decide)

/-- Both updates end in a broadcast. -/
theorem update_broadcasts (hm : Formed m) (ha : a = .distribute ∨ ∃ id, a = .notify id)
    (hstep : step m a = some m') :
    ∃ m₀, Formed m₀ ∧ m₀.senders = m.senders ∧ m' = broadcast m₀ := by
  obtain rfl | ⟨id, rfl⟩ := ha
  · obtain ⟨topic, hreg, rfl⟩ := Option.map_eq_some_iff.mp hstep
    rw [distributeMessage, if_pos (hm.stored topic hreg)]
    exact ⟨{ m with registered := none }, ⟨hm.cursor, hm.accepted, by simp⟩, rfl, rfl⟩
  · obtain ⟨-, rfl⟩ := Runs.guarded hstep
    exact ⟨{ m with toggled := m.toggled.erase id }, ⟨hm.cursor, hm.accepted, hm.stored⟩,
      rfl, rfl⟩

private theorem own_outstanding {w : List Action} (hw : ∀ b ∈ w, Own b)
    (hrun : Runs.run WakeUp.step m w = some m') :
    m'.registered = m.registered ∧ m'.toggled = m.toggled := by
  induction w generalizing m with
  | nil => exact Option.some.inj hrun ▸ ⟨rfl, rfl⟩
  | cons b w ih =>
    obtain ⟨u, hu, hrest⟩ := Option.bind_eq_some_iff.mp hrun
    obtain ⟨⟨id, hb⟩, hw⟩ := List.forall_mem_cons.mp hw
    obtain ⟨hreg, htog⟩ := ih hw hrest
    rcases hb with rfl | rfl
    · obtain ⟨-, rfl⟩ := Runs.guarded hu
      exact ⟨hreg, htog⟩
    · obtain ⟨-, rfl⟩ := Runs.guarded hu
      exact ⟨hreg, htog⟩

private theorem own_heard (ha : Own a) : Heard m a := by
  obtain ⟨id, rfl | rfl⟩ := ha <;> trivial

end Steps

/-- Whatever was forgotten, an update whose broadcast finds all sender threads waiting makes it
good: the threads get stuck nowhere, each takes two steps, and when these are done and no update
is outstanding every subscriber is up to date, as in every later sleep of a run that misses no
last broadcast. -/
theorem next_update_heals (before : List Action) (m m' : Machine) (a : Action)
    (hrun : Runs.run step {} before = some m) (hall : ∀ s ∈ m.senders, s = .waiting)
    (ha : a = .distribute ∨ ∃ id, a = .notify id) (hstep : step m a = some m') :
    (∀ w m'', (∀ b ∈ w, Own b) → Runs.run step m' w = some m'' →
      w.length ≤ 2 * m.senders.length ∧
      (w.length < 2 * m.senders.length → ∃ b m₃, Own b ∧ step m'' b = some m₃) ∧
      (w.length = 2 * m.senders.length → m'.registered = none → m'.toggled = ∅ →
        Asleep m'' ∧ ∀ id, UpToDate m''.broker id)) ∧
    ∀ as, Runs.Along step Heard m' as → Runs.Visits step NothingLeft m' as := by
  have hm : Formed m := Runs.run_invariant (fun _ _ _ h hs => h.step hs) formed_init hrun
  obtain ⟨m₀, hformed, hsenders, rfl⟩ := update_broadcasts hm ha hstep
  rw [← hsenders] at hall ⊢
  have hinv : Inv (broadcast m₀) := broadcast_heard hformed hall
  refine ⟨fun w m'' hw hr => ?_, fun as has => ?_⟩
  · have hlen := Runs.run_work work (fun _ _ _ => work_own) hw hr
    rw [work_broadcast hall] at hlen
    refine ⟨by omega, fun hlt => own_enabled (by omega), fun heq hreg htog => ?_⟩
    obtain ⟨hreg', htog'⟩ := own_outstanding hw hr
    have hasleep : Asleep m'' :=
      ⟨hreg'.trans hreg, htog'.trans htog, (work_eq_zero m'').mp (by omega)⟩
    exact ⟨hasleep, (Runs.henceforth_of_invariant (fun _ _ _ h hs hok => keep h hs hok)
      (fun _ h => h.nothingLeft) (fun _ _ => own_heard) hinv w m'' hw hr) hasleep⟩
  · exact (has.visits (fun _ _ _ h hs hok => keep h hs hok) hinv).mono fun _ h => h.nothingLeft

/-- The reader that slept through both broadcasts has all of both messages after the second
one's. -/
theorem stranded_reader_healed : ∃ m m' m'',
    Runs.run step {} [.accept, .register ⟨['t'], ['x']⟩, .distribute, .toggle 0 ['t'], .notify 0,
      .wait 0, .register ⟨['t'], ['y']⟩] = some m ∧
    step m .distribute = some m' ∧ Runs.run step m' [.pass 0, .wait 0] = some m'' ∧
    Asleep m'' ∧ ∀ id, UpToDate m''.broker id := by
  let as : List Action := [.accept, .register ⟨['t'], ['x']⟩, .distribute, .toggle 0 ['t'],
    .notify 0, .wait 0, .register ⟨['t'], ['y']⟩]
  obtain ⟨m, hr⟩ : ∃ m, Runs.run step {} as = some m := ⟨_, rfl⟩
  have hidle : (Runs.run step {} as).map (fun m => (m.registered, m.toggled, m.senders)) =
      some (some ['t'], ∅, [.waiting]) := by decide +kernel
  have hkey : (Runs.run step {} as).map (fun m => decide (['t'] ∈ m.broker.topics)) =
      some true := by decide +kernel
  simp only [hr, Option.map_some, Option.some.injEq, Prod.mk.injEq, decide_eq_true_eq] at hidle hkey
  obtain ⟨hreg, htog, hsend⟩ := hidle
  have hstep : step m .distribute = some (broadcast { m with registered := none }) := by
    simp [step, distributeMessage, hreg, hkey]
  have hwoken : (broadcast { m with registered := none }).senders = [.woken] := by
    simp [broadcast, hsend, wake]
  obtain ⟨m'', hw⟩ : ∃ m'', Runs.run step (broadcast { m with registered := none })
      [.pass 0, .wait 0] = some m'' := by
    simp [step, hwoken]
  have hheals := next_update_heals as m _ .distribute hr (by simp [hsend]) (.inl rfl) hstep
  have hown : ∀ b ∈ ([.pass 0, .wait 0] : List Action), Own b := by simp [Own]
  exact ⟨m, _, m'', hr, hstep, hw, (hheals.1 _ m'' hown hw).2.2 (by simp [hsend]) rfl htog⟩

end NetworkProtocol.Broker.WakeUp
