import Mathlib.Algebra.Order.BigOperators.Group.Finset
import Mathlib.Data.Prod.Lex
import Mathlib.Order.WellFounded
import NetworkProtocol.Broker.EndToEnd
import NetworkProtocol.Broker.Healing

/-! What the loops do by themselves: they come to rest, and at rest all that was posted is shown,
unless a last broadcast was missed. An update still to come makes good even that. -/
namespace NetworkProtocol.Broker
open Network

def Network.Event.Own : Event → Prop
  | .connect => False
  | .post _ _ => False
  | .ask _ _ => False
  | .rouse _ => False
  | _ => True

/-- A last outstanding broadcast finds no thread that would miss it with something to deliver. -/
def Network.Event.Heard (m : WakeUp.Machine) : Event → Prop
  | .distribute => WakeUp.Heard m .distribute
  | .notify id => WakeUp.Heard m (.notify id)
  | _ => True

/-- Every topic that a subscriber has typed an odd number of times stands on the screen, all that
was posted of it. -/
def Shown (events : List Event) (screen : UserId → List Message) : Prop :=
  ∀ id topic, Odd ((asked id events).count topic) →
    contentsOf topic (posted events) <:+ contentsOf topic (screen id)

namespace Network

def Turns (n n' : Network) : Prop := ∃ e, e.Own ∧ e.Fits ∧ n.step e = some n'

structure AtRest (n : Network) : Prop where
  machine : WakeUp.Asleep n.machine
  posts : n.posts = []
  words : ∀ id, n.words id = []
  mail : ∀ id, n.mail id = []

def Pending (n : Network) : Prop :=
  n.posts ≠ [] ∨ n.machine.registered ≠ none ∨ n.machine.toggled ≠ ∅ ∨ ∃ id, n.words id ≠ []

end Network

section Own
variable {events own : List Event}

private theorem posted_own (h : ∀ e ∈ own, e.Own) : posted (events ++ own) = posted events := by
  have hnil : posted own = [] := by
    rw [posted, List.filterMap_eq_nil_iff]
    intro e he
    cases e with
    | post topic file => exact (h _ he).elim
    | _ => rfl
  rw [posted_append, hnil, List.append_nil]

private theorem asked_own (h : ∀ e ∈ own, e.Own) (id : UserId) :
    asked id (events ++ own) = asked id events := by
  have hnil : asked id own = [] := by
    rw [asked, List.filterMap_eq_nil_iff]
    intro e he
    cases e with
    | ask user topic => exact (h _ he).elim
    | _ => rfl
  rw [asked_append, hnil, List.append_nil]

private theorem Shown.of_own {screen : UserId → List Message} (h : ∀ e ∈ own, e.Own)
    (hshown : Shown (events ++ own) screen) : Shown events screen := by
  intro id topic hodd
  rw [← posted_own h]
  apply hshown
  rwa [asked_own h]

end Own

namespace Desk

def Turns (d d' : Desk) : Prop := ∃ e, e.Own ∧ e.Fits ∧ d.step e = some d'

/-- The updates whose broadcast is still to come, those that are not yet made counted twice. -/
def updates (d : Desk) : Nat :=
  2 * d.posts.length + d.machine.registered.toList.length +
    2 * ∑ id ∈ Finset.range d.machine.senders.length, (d.words id).length +
    d.machine.toggled.card

def unprinted (d : Desk) : Nat :=
  ∑ id ∈ Finset.range d.machine.senders.length, (d.mail id).length

section Measure
variable {d d' : Desk}

private theorem sum_update_lt {α : Type*} {queue : UserId → List α} {new : List α} {id n : Nat}
    (hid : id < n) (hnew : new.length < (queue id).length) :
    ∑ other ∈ Finset.range n, (Function.update queue id new other).length <
      ∑ other ∈ Finset.range n, (queue other).length := by
  apply Finset.sum_lt_sum
  · intro other _
    rcases eq_or_ne other id with rfl | hne
    · rw [Function.update_self]
      exact hnew.le
    · rw [Function.update_of_ne hne]
  · refine ⟨id, Finset.mem_range.mpr hid, ?_⟩
    rwa [Function.update_self]

private theorem updates_accept {k : Nat} (h : d.step (.accept k) = some d') :
    d'.updates < d.updates ∧ d'.updates ≠ 0 := by
  obtain ⟨message, hhead, h⟩ := Option.bind_eq_some_iff.mp h
  obtain ⟨machine, hmachine, h⟩ := Option.bind_eq_some_iff.mp h
  obtain rfl := Option.some.inj h
  obtain ⟨posts, hposts⟩ := List.head?_eq_some_iff.mp hhead
  obtain ⟨hfree, rfl⟩ := Runs.guarded hmachine
  simp only [updates, hposts, hfree, List.tail_cons, List.length_cons, Option.toList_none,
    Option.toList_some, List.length_nil]
  omega

private theorem updates_distribute (h : d.step .distribute = some d') :
    d'.updates < d.updates := by
  obtain ⟨machine, hmachine, rfl⟩ := Option.map_eq_some_iff.mp h
  obtain ⟨topic, hregistered, rfl⟩ := Option.map_eq_some_iff.mp hmachine
  simp only [updates, hregistered, WakeUp.distributeMessage]
  split <;> simp [WakeUp.broadcast]

private theorem updates_receive {id : UserId} {k : Nat} (h : d.step (.receive id k) = some d') :
    d'.updates < d.updates ∧ d'.updates ≠ 0 := by
  obtain ⟨topic, hhead, h⟩ := Option.bind_eq_some_iff.mp h
  obtain ⟨machine, hmachine, h⟩ := Option.bind_eq_some_iff.mp h
  obtain rfl := Option.some.inj h
  obtain ⟨words, hwords⟩ := List.head?_eq_some_iff.mp hhead
  obtain ⟨⟨hid, hnew⟩, rfl⟩ := Runs.guarded hmachine
  have hshorter : (d.words id).tail.length < (d.words id).length := by simp [hwords]
  have hlt := sum_update_lt hid hshorter
  have hcard := Finset.card_insert_of_notMem hnew
  simp only [updates]
  omega

private theorem updates_notify {id : UserId} (h : d.step (.notify id) = some d') :
    d'.updates < d.updates := by
  obtain ⟨machine, hmachine, rfl⟩ := Option.map_eq_some_iff.mp h
  obtain ⟨hmem, rfl⟩ := Runs.guarded hmachine
  have hcard := Finset.card_erase_lt_of_mem hmem
  simp only [updates, WakeUp.broadcast, List.length_map]
  omega

private theorem updates_own {a : WakeUp.Action} (ha : WakeUp.Own a)
    (h : WakeUp.step d.machine a = some d'.machine) (hposts : d'.posts = d.posts)
    (hwords : d'.words = d.words) : d'.updates = d.updates := by
  obtain ⟨hregistered, htoggled, hlength⟩ : d'.machine.registered = d.machine.registered ∧
      d'.machine.toggled = d.machine.toggled ∧
      d'.machine.senders.length = d.machine.senders.length := by
    obtain ⟨id, rfl | rfl⟩ := ha
    · obtain ⟨-, hmachine⟩ := Runs.guarded h
      rw [hmachine]
      exact ⟨rfl, rfl, List.length_set⟩
    · obtain ⟨-, hmachine⟩ := Runs.guarded h
      rw [hmachine]
      exact ⟨rfl, rfl, List.length_set⟩
  rw [updates, updates, hposts, hwords, hregistered, htoggled, hlength]

private theorem updates_print {id : UserId} {k : Nat} (h : d.step (.print id k) = some d') :
    d'.machine = d.machine ∧ d'.updates = d.updates ∧ d'.unprinted < d.unprinted := by
  obtain ⟨_, hseated, h⟩ := Option.bind_eq_some_iff.mp h
  obtain ⟨message, hhead, h⟩ := Option.bind_eq_some_iff.mp h
  have hseated := (Option.guard_eq_some' _).mp hseated
  obtain rfl := Option.some.inj h
  obtain ⟨mail, hmail⟩ := List.head?_eq_some_iff.mp hhead
  exact ⟨rfl, rfl, sum_update_lt hseated (by simp [hmail])⟩

private theorem turns_cases (h : Turns d d') : d'.updates < d.updates ∨
    d'.updates = d.updates ∧ (WakeUp.work d'.machine < WakeUp.work d.machine ∨
      d'.machine = d.machine ∧ d'.unprinted < d.unprinted) := by
  obtain ⟨e, hown, -, h⟩ := h
  cases e with
  | connect => exact hown.elim
  | post topic file => exact hown.elim
  | ask id topic => exact hown.elim
  | rouse id => exact hown.elim
  | accept k => exact .inl (updates_accept h).1
  | distribute => exact .inl (updates_distribute h)
  | receive id k => exact .inl (updates_receive h).1
  | notify id => exact .inl (updates_notify h)
  | wait id =>
    obtain ⟨machine, hmachine, rfl⟩ := Option.map_eq_some_iff.mp h
    have hwork := WakeUp.work_own ⟨id, .inl rfl⟩ hmachine
    exact .inr ⟨updates_own ⟨id, .inl rfl⟩ hmachine rfl rfl, .inl (by dsimp only; omega)⟩
  | pass id =>
    obtain ⟨machine, hmachine, h⟩ := Option.bind_eq_some_iff.mp h
    obtain rfl := Option.some.inj h
    have hwork := WakeUp.work_own ⟨id, .inr rfl⟩ hmachine
    exact .inr ⟨updates_own ⟨id, .inr rfl⟩ hmachine rfl rfl, .inl (by dsimp only; omega)⟩
  | print id k =>
    obtain ⟨hmachine, hupdates, hunprinted⟩ := updates_print h
    exact .inr ⟨hupdates, .inr ⟨hmachine, hunprinted⟩⟩

private def left (d : Desk) : ℕ ×ₗ ℕ ×ₗ ℕ :=
  toLex (d.updates, toLex (WakeUp.work d.machine, d.unprinted))

/-- The loops cannot take turns for ever. -/
theorem turns_wellFounded : WellFounded fun d' d : Desk => Turns d d' := by
  refine Subrelation.wf (r := InvImage (· < ·) left) ?_ (InvImage.wf left wellFounded_lt)
  intro d' d h
  change toLex _ < toLex _
  rw [Prod.Lex.toLex_lt_toLex, Prod.Lex.toLex_lt_toLex]
  rcases turns_cases h with hlt | ⟨heq, hlt | ⟨hmachine, hlt⟩⟩
  · exact .inl hlt
  · exact .inr ⟨heq, .inl hlt⟩
  · exact .inr ⟨heq, .inr ⟨congrArg WakeUp.work hmachine, hlt⟩⟩

end Measure

section Progress
variable {d d' : Desk}

private theorem exists_own_turn {a : WakeUp.Action} {machine : WakeUp.Machine}
    (ha : WakeUp.Own a) (h : WakeUp.step d.machine a = some machine) :
    ∃ d', Turns d d' ∧ d'.machine = machine ∧ d'.updates = d.updates := by
  obtain ⟨id, rfl | rfl⟩ := ha
  · refine ⟨{ d with machine := machine }, ⟨.wait id, trivial, trivial, ?_⟩, rfl, ?_⟩
    · rw [step, turn, h, Option.map_some]
    · exact updates_own ⟨id, .inl rfl⟩ h rfl rfl
  · refine ⟨{ d with
      machine := machine
      mail := Function.update d.mail id (d.mail id ++ passed d.machine.broker id) },
      ⟨.pass id, trivial, trivial, ?_⟩, rfl, ?_⟩
    · rw [step, h]
      rfl
    · exact updates_own ⟨id, .inr rfl⟩ h rfl rfl

private theorem exists_update (h : d.updates ≠ 0) : ∃ d', Turns d d' ∧ d'.updates < d.updates ∧
    (d'.updates ≠ 0 ∨ ∃ a, (a = .distribute ∨ ∃ id, a = .notify id) ∧
      WakeUp.step d.machine a = some d'.machine) := by
  cases hregistered : d.machine.registered with
  | some topic =>
    obtain ⟨machine, hmachine⟩ : ∃ machine, WakeUp.step d.machine .distribute = some machine :=
      ⟨_, by rw [WakeUp.step, hregistered, Option.map_some]⟩
    have hstep : d.step .distribute = some { d with machine := machine } := by
      rw [step, turn, hmachine, Option.map_some]
    exact ⟨_, ⟨.distribute, trivial, trivial, hstep⟩, updates_distribute hstep,
      .inr ⟨_, .inl rfl, hmachine⟩⟩
  | none =>
    rcases d.machine.toggled.eq_empty_or_nonempty with htoggled | ⟨id, hid⟩
    · cases hposts : d.posts with
      | cons message posts =>
        obtain ⟨d', hstep⟩ : ∃ d', d.step (.accept messageSize) = some d' := by
          simp [step, hposts, WakeUp.step, hregistered]
        obtain ⟨hlt, hne⟩ := updates_accept hstep
        exact ⟨d', ⟨.accept messageSize, trivial, rfl, hstep⟩, hlt, .inl hne⟩
      | nil =>
        obtain ⟨id, hid, hne⟩ : ∃ id < d.machine.senders.length, d.words id ≠ [] := by
          by_contra hnone
          simp only [not_exists, not_and, not_not] at hnone
          apply h
          have hsum : ∑ id ∈ Finset.range d.machine.senders.length, (d.words id).length = 0 :=
            Finset.sum_eq_zero fun id hid => by
              rw [hnone id (Finset.mem_range.mp hid), List.length_nil]
          simp [updates, hposts, hregistered, htoggled, hsum]
        obtain ⟨topic, words, hwords⟩ := List.exists_cons_of_ne_nil hne
        obtain ⟨d', hstep⟩ : ∃ d', d.step (.receive id maxTopicLength) = some d' := by
          simp [step, hwords, WakeUp.step, hid, htoggled]
        obtain ⟨hlt, hne⟩ := updates_receive hstep
        exact ⟨d', ⟨.receive id maxTopicLength, trivial, rfl, hstep⟩, hlt, .inl hne⟩
    · obtain ⟨machine, hmachine⟩ : ∃ machine,
          WakeUp.step d.machine (.notify id) = some machine :=
        ⟨_, by rw [WakeUp.step, if_pos hid]⟩
      have hstep : d.step (.notify id) = some { d with machine := machine } := by
        rw [step, turn, hmachine, Option.map_some]
      exact ⟨_, ⟨.notify id, trivial, trivial, hstep⟩, updates_notify hstep,
        .inr ⟨_, .inr ⟨id, rfl⟩, hmachine⟩⟩

private theorem exists_print (h : d.unprinted ≠ 0) :
    ∃ d', Turns d d' ∧ d'.machine = d.machine ∧ d'.updates = d.updates ∧
      d'.unprinted < d.unprinted := by
  obtain ⟨id, hid, hne⟩ : ∃ id < d.machine.senders.length, d.mail id ≠ [] := by
    by_contra hnone
    simp only [not_exists, not_and, not_not] at hnone
    refine h (Finset.sum_eq_zero fun id hid => ?_)
    rw [hnone id (Finset.mem_range.mp hid), List.length_nil]
  obtain ⟨message, mail, hmail⟩ := List.exists_cons_of_ne_nil hne
  obtain ⟨d', hstep⟩ : ∃ d', d.step (.print id messageSize) = some d' := by
    simp [step, hmail, guard, hid]
  obtain ⟨hmachine, hupdates, hlt⟩ := updates_print hstep
  exact ⟨d', ⟨.print id messageSize, trivial, rfl, hstep⟩, hmachine, hupdates, hlt⟩

structure Idle (d : Desk) : Prop where
  updates : d.updates = 0
  work : WakeUp.work d.machine = 0
  unprinted : d.unprinted = 0

private theorem idle_or_turns (d : Desk) : d.Idle ∨ ∃ d', Turns d d' := by
  by_cases hupdates : d.updates = 0
  · by_cases hwork : WakeUp.work d.machine = 0
    · by_cases hunprinted : d.unprinted = 0
      · exact .inl ⟨hupdates, hwork, hunprinted⟩
      · obtain ⟨d', h, -⟩ := exists_print hunprinted
        exact .inr ⟨d', h⟩
    · obtain ⟨a, machine, ha, hstep⟩ := WakeUp.own_enabled hwork
      obtain ⟨d', h, -⟩ := exists_own_turn ha hstep
      exact .inr ⟨d', h⟩
  · obtain ⟨d', h, -⟩ := exists_update hupdates
    exact .inr ⟨d', h⟩

end Progress

section Machine
variable {d d' : Desk}

private theorem turn_machine {a : WakeUp.Action} (h : d.turn a = some d') :
    WakeUp.step d.machine a = some d'.machine := by
  obtain ⟨machine, hmachine, rfl⟩ := Option.map_eq_some_iff.mp h
  exact hmachine

private theorem step_machine {e : Event} (h : d.step e = some d') : d'.machine = d.machine ∨
    (∃ id, WakeUp.rouse d.machine id = some d'.machine) ∨
    ∃ a, WakeUp.step d.machine a = some d'.machine ∧
      (e.Heard d.machine → WakeUp.Heard d.machine a) := by
  cases e with
  | post topic file =>
    obtain rfl := Option.some.inj h
    exact .inl rfl
  | ask id topic =>
    obtain ⟨_, -, h⟩ := Option.bind_eq_some_iff.mp h
    obtain rfl := Option.some.inj h
    exact .inl rfl
  | print id k => exact .inl (updates_print h).1
  | accept k =>
    obtain ⟨message, -, h⟩ := Option.bind_eq_some_iff.mp h
    obtain ⟨machine, hmachine, h⟩ := Option.bind_eq_some_iff.mp h
    obtain rfl := Option.some.inj h
    exact .inr (.inr ⟨_, hmachine, fun _ => trivial⟩)
  | receive id k =>
    obtain ⟨topic, -, h⟩ := Option.bind_eq_some_iff.mp h
    obtain ⟨machine, hmachine, h⟩ := Option.bind_eq_some_iff.mp h
    obtain rfl := Option.some.inj h
    exact .inr (.inr ⟨_, hmachine, fun _ => trivial⟩)
  | pass id =>
    obtain ⟨machine, hmachine, h⟩ := Option.bind_eq_some_iff.mp h
    obtain rfl := Option.some.inj h
    exact .inr (.inr ⟨_, hmachine, fun _ => trivial⟩)
  | connect => exact .inr (.inr ⟨.accept, turn_machine h, fun _ => trivial⟩)
  | distribute => exact .inr (.inr ⟨.distribute, turn_machine h, id⟩)
  | notify user => exact .inr (.inr ⟨.notify user, turn_machine h, id⟩)
  | rouse user =>
    obtain ⟨machine, hmachine, rfl⟩ := Option.map_eq_some_iff.mp h
    exact .inr (.inl ⟨user, hmachine⟩)
  | wait user => exact .inr (.inr ⟨.wait user, turn_machine h, fun _ => trivial⟩)

private theorem formed_step {e : Event} (hm : WakeUp.Formed d.machine)
    (h : d.step e = some d') : WakeUp.Formed d'.machine := by
  rcases step_machine h with hsame | ⟨id, hroused⟩ | ⟨a, hstep, -⟩
  · rwa [hsame]
  · exact hm.rouse hroused
  · exact hm.step hstep

private theorem inv_step {e : Event} (hm : WakeUp.Inv d.machine) (h : d.step e = some d')
    (hheard : e.Heard d.machine) : WakeUp.Inv d'.machine := by
  rcases step_machine h with hsame | ⟨id, hroused⟩ | ⟨a, hstep, hok⟩
  · rwa [hsame]
  · exact hm.rouse hroused
  · exact WakeUp.keep hm hstep (hok hheard)

abbrev RunsOn : Desk → Desk → Prop := Relation.ReflTransGen Turns

private theorem RunsOn.formed (h : RunsOn d d') (hm : WakeUp.Formed d.machine) :
    WakeUp.Formed d'.machine := by
  induction h with
  | refl => exact hm
  | tail _ hturn ih =>
    obtain ⟨e, -, -, hstep⟩ := hturn
    exact formed_step ih hstep

private theorem exists_settled (d : Desk) : ∃ d', RunsOn d d' ∧ WakeUp.work d'.machine = 0 ∧
    d'.updates = d.updates ∧ (WakeUp.Inv d.machine → WakeUp.Inv d'.machine) := by
  induction hn : WakeUp.work d.machine generalizing d with
  | zero => exact ⟨d, .refl, hn, rfl, id⟩
  | succ n ih =>
    obtain ⟨a, machine, ha, hstep⟩ := WakeUp.own_enabled (m := d.machine) (by omega)
    obtain ⟨d₁, hturn, rfl, hupdates⟩ := exists_own_turn ha hstep
    have hwork := WakeUp.work_own ha hstep
    obtain ⟨d', hruns, hzero, hsame, hinv⟩ := ih d₁ (by omega)
    refine ⟨d', .head hturn hruns, hzero, hsame.trans hupdates, fun hm => hinv ?_⟩
    apply WakeUp.keep hm hstep
    obtain ⟨id, rfl | rfl⟩ := ha <;> trivial

private theorem exists_heard (hm : WakeUp.Formed d.machine) (h : d.updates ≠ 0) :
    ∃ d', RunsOn d d' ∧ d'.updates = 0 ∧ WakeUp.Inv d'.machine := by
  induction hn : d.updates using Nat.strong_induction_on generalizing d with
  | h n ih =>
    obtain ⟨d₁, hruns, hwork, hsame, -⟩ := exists_settled d
    obtain ⟨d₂, hturn, hlt, hlast⟩ := exists_update (d := d₁) (by omega)
    have hm₁ := hruns.formed hm
    have hruns₂ : RunsOn d d₂ := hruns.tail hturn
    by_cases hzero : d₂.updates = 0
    · obtain ⟨a, ha, hstep⟩ := hlast.resolve_left (not_not.mpr hzero)
      obtain ⟨m₀, hm₀, hsenders, hbroadcast⟩ := WakeUp.update_broadcasts hm₁ ha hstep
      refine ⟨d₂, hruns₂, hzero, ?_⟩
      rw [hbroadcast]
      apply WakeUp.broadcast_heard hm₀
      rw [hsenders]
      exact (WakeUp.work_eq_zero d₁.machine).mp hwork
    · obtain ⟨d', hrest, hdone⟩ := ih d₂.updates (by omega) (hruns₂.formed hm) hzero rfl
      exact ⟨d', hruns₂.trans hrest, hdone⟩

private theorem exists_printed (d : Desk) : ∃ d', RunsOn d d' ∧ d'.machine = d.machine ∧
    d'.updates = d.updates ∧ d'.unprinted = 0 := by
  induction hn : d.unprinted using Nat.strong_induction_on generalizing d with
  | h n ih =>
    by_cases hzero : d.unprinted = 0
    · exact ⟨d, .refl, rfl, rfl, hzero⟩
    · obtain ⟨d₁, hturn, hmachine, hupdates, hlt⟩ := exists_print hzero
      obtain ⟨d', hruns, hmachine', hupdates', hdone⟩ := ih d₁.unprinted (hn ▸ hlt) d₁ rfl
      exact ⟨d', .head hturn hruns, hmachine'.trans hmachine, hupdates'.trans hupdates, hdone⟩

/-- With an update still to come, the loops can run on until everybody has everything. -/
theorem exists_idle (hm : WakeUp.Formed d.machine) (h : d.updates ≠ 0) :
    ∃ d', RunsOn d d' ∧ d'.Idle ∧ WakeUp.Inv d'.machine := by
  obtain ⟨d₁, hruns₁, hzero, hinv⟩ := exists_heard hm h
  obtain ⟨d₂, hruns₂, hwork, hsame₂, hkeep⟩ := exists_settled d₁
  obtain ⟨d₃, hruns₃, hmachine, hsame₃, hprinted⟩ := exists_printed d₂
  refine ⟨d₃, (hruns₁.trans hruns₂).trans hruns₃, ⟨?_, ?_, hprinted⟩, ?_⟩
  · rw [hsame₃, hsame₂, hzero]
  · rw [hmachine, hwork]
  · rw [hmachine]
    exact hkeep hinv

end Machine

section Idle
variable {events : List Event} {d d' : Desk} {as : List Action}

private theorem sum_eq_nil {α : Type*} {queue : UserId → List α} {id n : Nat} (hid : id < n)
    (h : ∑ other ∈ Finset.range n, (queue other).length = 0) : queue id = [] :=
  List.length_eq_zero_iff.mp (Finset.sum_eq_zero_iff.mp h id (Finset.mem_range.mpr hid))

private theorem Idle.posts (h : d.Idle) : d.posts = [] := by
  have hzero := h.updates
  rw [Desk.updates] at hzero
  exact List.length_eq_zero_iff.mp (by omega)

private theorem Idle.words (h : d.Idle) {id : UserId} (hid : id < d.machine.senders.length) :
    d.words id = [] := by
  have hzero := h.updates
  rw [Desk.updates] at hzero
  exact sum_eq_nil hid (by omega)

private theorem Idle.asleep (h : d.Idle) : WakeUp.Asleep d.machine := by
  have hzero := h.updates
  rw [Desk.updates] at hzero
  refine ⟨?_, Finset.card_eq_zero.mp (by omega), (WakeUp.work_eq_zero d.machine).mp h.work⟩
  exact Option.toList_eq_nil_iff.mp (List.length_eq_zero_iff.mp (by omega))

private theorem History.seated_only (h : History events d as) {id : UserId}
    (hid : d.machine.senders.length ≤ id) :
    asked id events = [] ∧ d.words id = [] ∧ d.mail id = [] := by
  obtain ⟨hasked, hsent⟩ := h.seated id hid
  refine ⟨hasked, ?_, ?_⟩
  · exact (List.append_eq_nil_iff.mp ((h.words id).trans hasked)).2
  · exact (List.append_eq_nil_iff.mp ((h.mail id).trans hsent)).2

private theorem History.rest (h : History events d as) (hidle : d.Idle) (id : UserId) :
    d.words id = [] ∧ d.mail id = [] := by
  rcases Nat.lt_or_ge id d.machine.senders.length with hid | hid
  · exact ⟨hidle.words hid, sum_eq_nil hid hidle.unprinted⟩
  · exact (h.seated_only hid).2

private theorem History.all_shown (h : History events d as) (hinv : WakeUp.Inv d.machine)
    (hasleep : WakeUp.Asleep d.machine) (hposts : d.posts = [])
    (hnothing : ∀ id, d.words id = [] ∧ d.mail id = []) : Shown events d.screen :=
  fun id _ hodd =>
    h.complete hposts (hnothing id).1 (hnothing id).2 (hinv.nothingLeft hasleep id) hodd

/-- Turns are events, of the loops alone. -/
theorem RunsOn.exists_events (h : RunsOn d d') :
    ∃ own, (∀ e ∈ own, Event.Own e) ∧ Runs.run step d own = some d' := by
  induction h with
  | refl => exact ⟨[], List.forall_mem_nil _, rfl⟩
  | tail _ hturn ih =>
    obtain ⟨e, he, -, hstep⟩ := hturn
    obtain ⟨own, hown, hrun⟩ := ih
    refine ⟨own ++ [e], List.forall_mem_append.mpr ⟨hown, List.forall_mem_singleton.mpr he⟩, ?_⟩
    apply Runs.run_trans hrun
    rw [Runs.run_cons, hstep]
    rfl

private theorem updates_of_words (h : History events d as) {id : UserId}
    (hne : d.words id ≠ []) : d.updates ≠ 0 := by
  intro hzero
  rw [updates] at hzero
  apply hne
  rcases Nat.lt_or_ge id d.machine.senders.length with hid | hid
  · exact sum_eq_nil hid (by omega)
  · exact (h.seated_only hid).2.1

end Idle
end Desk

namespace Network
variable {events : List Event} {n n' : Network} {d d' : Desk}

section Carried
variable {α : Type*} {queue : List α} {lay : α → List Char}

private theorem flatten_eq_nil (h : (queue.map lay).flatten = [])
    (hlay : ∀ a ∈ queue, lay a ≠ []) : queue = [] := by
  cases queue with
  | nil => rfl
  | cons a queue =>
    rw [List.map_cons, List.flatten_cons, List.append_eq_nil_iff] at h
    exact absurd h.1 (hlay a List.mem_cons_self)

private theorem Carries.words_nil (h : n.Carries d) (id : UserId) :
    n.words id = [] ↔ d.words id = [] := by
  rw [h.words id]
  refine ⟨fun hnil => flatten_eq_nil hnil fun topic hmem hzero => ?_, fun hnil => by rw [hnil]; rfl⟩
  have hlength := CMemory.length_zeroed (h.wordsFit id topic hmem).2.le
  rw [hzero] at hlength
  cases hlength

private theorem Carries.mail_nil (h : n.Carries d) (id : UserId) :
    n.mail id = [] ↔ d.mail id = [] := by
  rw [h.mail id]
  refine ⟨fun hnil => flatten_eq_nil hnil fun message hmem hzero => ?_,
    fun hnil => by rw [hnil]; rfl⟩
  have hlength := length_laid (h.mailFit id message hmem).inside
  rw [hzero] at hlength
  cases hlength

private theorem Carries.posts_nil (h : n.Carries d) : n.posts = [] ↔ d.posts = [] := by
  rw [h.posts, List.map_eq_nil_iff]

private theorem Carries.turns_right (h : n.Carries d) (hturn : n.Turns n') :
    ∃ d', d.Turns d' ∧ n'.Carries d' := by
  obtain ⟨e, hown, hfits, hstep⟩ := hturn
  have hrelated := h.step hfits
  rw [hstep] at hrelated
  obtain ⟨d', hd', h'⟩ := Runs.related_right hrelated
  exact ⟨d', ⟨e, hown, hfits, hd'⟩, h'⟩

private theorem Carries.turns_left (h : n.Carries d) (hturn : d.Turns d') :
    ∃ n', n.Turns n' ∧ n'.Carries d' := by
  obtain ⟨e, hown, hfits, hstep⟩ := hturn
  have hrelated := h.step hfits
  rw [hstep] at hrelated
  obtain ⟨n', hn', h'⟩ := Runs.related_left hrelated
  exact ⟨n', ⟨e, hown, hfits, hn'⟩, h'⟩

private theorem Carries.acc (h : n.Carries d) : Acc (fun n' n : Network => n.Turns n') n := by
  induction d using Desk.turns_wellFounded.induction generalizing n with
  | h d ih =>
    refine Acc.intro n fun n' hturn => ?_
    obtain ⟨d', hturn', h'⟩ := h.turns_right hturn
    exact ih d' hturn' h'

private theorem Carries.runsOn (h : n.Carries d) (hruns : Desk.RunsOn d d') :
    ∃ n', Relation.ReflTransGen Turns n n' ∧ n'.Carries d' := by
  induction hruns with
  | refl => exact ⟨n, .refl, h⟩
  | tail _ hturn ih =>
    obtain ⟨n₁, hruns₁, h₁⟩ := ih
    obtain ⟨n₂, hturn₂, h₂⟩ := h₁.turns_left hturn
    exact ⟨n₂, hruns₁.tail hturn₂, h₂⟩

private theorem Carries.atRest (h : n.Carries d) (hidle : d.Idle)
    (hnothing : ∀ id, d.words id = [] ∧ d.mail id = []) : n.AtRest where
  machine := h.machine ▸ hidle.asleep
  posts := h.posts_nil.mpr hidle.posts
  words := fun id => (h.words_nil id).mpr (hnothing id).1
  mail := fun id => (h.mail_nil id).mpr (hnothing id).2

private theorem Carries.pending {as : List Action} (h : n.Carries d)
    (history : Desk.History events d as) (hpending : n.Pending) : d.updates ≠ 0 := by
  intro hzero
  have hparts := hzero
  rw [Desk.updates] at hparts
  rcases hpending with hposts | hregistered | htoggled | ⟨id, hwords⟩
  · exact hposts (h.posts_nil.mpr (List.length_eq_zero_iff.mp (by omega)))
  · rw [h.machine] at hregistered
    have hnil : d.machine.registered.toList = [] := List.length_eq_zero_iff.mp (by omega)
    exact hregistered (Option.toList_eq_nil_iff.mp hnil)
  · rw [h.machine] at htoggled
    exact htoggled (Finset.card_eq_zero.mp (by omega))
  · exact Desk.updates_of_words history (fun hnil => hwords ((h.words_nil id).mpr hnil)) hzero

end Carried

private theorem desk_formed (hrun : Runs.run Desk.step {} events = some d) :
    WakeUp.Formed d.machine :=
  Runs.run_invariant (I := fun d : Desk => WakeUp.Formed d.machine)
    (fun _ _ _ hm hstep => Desk.formed_step hm hstep) WakeUp.formed_init hrun

private theorem desk_inv (hrun : Runs.run Desk.step {} events = some d)
    (halong : Runs.Along Desk.step (fun d e => e.Heard d.machine) {} events) :
    WakeUp.Inv d.machine :=
  halong.visits (I := fun d : Desk => WakeUp.Inv d.machine)
    (fun _ _ _ hm hstep hheard => Desk.inv_step hm hstep hheard) WakeUp.inv_init
    events d List.prefix_rfl hrun

/-- Wherever a run has come to, the loops by themselves take only finitely many turns, and stop
only at rest. At rest all is shown if no last broadcast was missed; and where an update is still to
come the loops can run on to a rest at which all is shown, whatever was missed before. -/
theorem everything_shown (hfits : ∀ e ∈ events, e.Fits)
    (hrun : Runs.run step {} events = some n) :
    (¬ ∃ turn : ℕ → Network, turn 0 = n ∧ ∀ i, (turn i).Turns (turn (i + 1))) ∧
    (n.AtRest ∨ ∃ n', n.Turns n') ∧
    (Runs.Along step (fun n e => e.Heard n.machine) {} events → n.AtRest →
      Shown events n.screen) ∧
    (n.Pending → ∃ n', Relation.ReflTransGen Turns n n' ∧ n'.AtRest ∧
      Shown events n'.screen) := by
  obtain ⟨d, hd, h⟩ := exists_desk hfits hrun
  obtain ⟨as, history⟩ := Desk.exists_history hd
  refine ⟨?_, ?_, fun halong hrest => ?_, fun hpending => ?_⟩
  · rintro ⟨turn, rfl, hturn⟩
    exact not_acc_iff_exists_descending_chain.mpr ⟨turn, rfl, hturn⟩ h.acc
  · rcases d.idle_or_turns with hidle | ⟨d', hturn⟩
    · exact .inl (h.atRest hidle (history.rest hidle))
    · obtain ⟨n', hturn', -⟩ := h.turns_left hturn
      exact .inr ⟨n', hturn'⟩
  · have hdesk : Runs.Along Desk.step (fun d e => e.Heard d.machine) {} events :=
      halong.related (fun _ _ _ hc hfit => hc.step hfit)
        (fun _ _ _ hc hheard => hc.machine ▸ hheard) carries_start hfits
    rw [h.screen]
    apply history.all_shown (desk_inv hd hdesk) (h.machine ▸ hrest.machine)
    · exact h.posts_nil.mp hrest.posts
    · exact fun id => ⟨(h.words_nil id).mp (hrest.words id), (h.mail_nil id).mp (hrest.mail id)⟩
  · obtain ⟨d', hruns, hidle, hinv⟩ :=
      Desk.exists_idle (desk_formed hd) (h.pending history hpending)
    obtain ⟨n', hruns', h'⟩ := h.runsOn hruns
    obtain ⟨own, hown, hd'⟩ := hruns.exists_events
    obtain ⟨as', history'⟩ := Desk.exists_history (Runs.run_trans hd hd')
    refine ⟨n', hruns', h'.atRest hidle (history'.rest hidle), ?_⟩
    apply Shown.of_own hown
    rw [h'.screen]
    exact history'.all_shown hinv hidle.asleep hidle.posts (history'.rest hidle)

private def strandedDelivery : List Event :=
  [.connect, .post letterTopic letterFile, .accept messageSize, .ask 0 letterTopic,
    .receive 0 maxTopicLength, .distribute, .notify 0, .wait 0, .post letterTopic letterFile]

private theorem strandedDelivery_fits : ∀ e ∈ strandedDelivery, e.Fits := by
  have hpost : (Event.post letterTopic letterFile).Fits := delivery_fits _ (by simp [delivery])
  have hask : (Event.ask 0 letterTopic).Fits := delivery_fits _ (by simp [delivery])
  simp only [strandedDelivery, List.forall_mem_cons]
  exact ⟨trivial, hpost, rfl, hask, rfl, trivial, trivial, trivial, hpost, List.forall_mem_nil _⟩

/-- A Message stranded by a missed broadcast is shown once the next one is registered. -/
theorem stranded_shown : ∃ n n', Runs.run step {} strandedDelivery = some n ∧
    Relation.ReflTransGen Turns n n' ∧ n'.AtRest ∧
      [['x'], ['x']] <:+ contentsOf ['a'] (n'.screen 0) := by
  obtain ⟨d, hd⟩ : ∃ d, Runs.run Desk.step {} strandedDelivery = some d := ⟨_, rfl⟩
  have hposts : (Runs.run Desk.step {} strandedDelivery).map (·.posts.length) = some 1 := rfl
  have hrelated := carries_start.run strandedDelivery_fits
  rw [hd] at hrelated hposts
  obtain ⟨n, hn, h⟩ := Runs.related_left hrelated
  have hpending : n.Pending := by
    refine .inl fun hnil => ?_
    rw [Option.map_some, h.posts_nil.mp hnil] at hposts
    cases hposts
  obtain ⟨n', hruns, hrest, hshown⟩ :=
    (everything_shown strandedDelivery_fits hn).2.2.2 hpending
  exact ⟨n, n', hn, hruns, hrest, hshown 0 ['a'] (by decide)⟩

end Network
end NetworkProtocol.Broker
