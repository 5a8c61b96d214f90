import Mathlib.Data.Option.Basic
import NetworkProtocol.Broker.Network
import NetworkProtocol.Broker.Replay

/-! From the publisher's terminal to the subscriber's, through whole runs of the network: what a
screen can show. -/
namespace NetworkProtocol.Broker
open Network

def posted (events : List Event) : List Message :=
  events.filterMap fun
    | .post topic file => some (publication topic file)
    | _ => none

def asked (id : UserId) (events : List Event) : List Topic :=
  events.filterMap fun
    | .ask user topic => if user = id then some topic.text else none
    | _ => none

/-- What has been posted adds up over a run. -/
theorem posted_append (events others : List Event) :
    posted (events ++ others) = posted events ++ posted others :=
  List.filterMap_append

/-- So do the words a subscriber has typed. -/
theorem asked_append (id : UserId) (events others : List Event) :
    asked id (events ++ others) = asked id events ++ asked id others :=
  List.filterMap_append

namespace Desk

/-- What is under way, together with what has come through, is what was typed; nothing is for a
subscriber that is not there. -/
structure History (events : List Event) (d : Desk) (as : List Action) : Prop where
  broker : d.machine.broker = exec as
  posts : registered as ++ d.posts = posted events
  words : ∀ id, toggledBy id as ++ d.words id = asked id events
  mail : ∀ id, d.screen id ++ d.mail id = d.machine.broker.sent id
  seated : ∀ id, d.machine.senders.length ≤ id →
    asked id events = [] ∧ d.machine.broker.sent id = []

section Steps
variable {events : List Event} {d d' : Desk} {as : List Action}

private theorem History.post (h : History events d as) (topic : TopicWord) (file : FileContents)
    (hstep : d.step (.post topic file) = some d') :
    History (events ++ [.post topic file]) d' as := by
  obtain rfl := Option.some.inj hstep
  have hsame (id : UserId) : asked id (events ++ [.post topic file]) = asked id events := by
    rw [asked_append]
    exact List.append_nil _
  refine { h with posts := ?_, words := fun id => ?_, seated := fun id hid => ?_ }
  · rw [← List.append_assoc, h.posts, posted_append]
    rfl
  · rw [hsame]
    exact h.words id
  · rw [hsame]
    exact h.seated id hid

private theorem History.ask (h : History events d as) (id : UserId) (topic : TopicWord)
    (hstep : d.step (.ask id topic) = some d') : History (events ++ [.ask id topic]) d' as := by
  obtain ⟨_, hseated, hstep⟩ := Option.bind_eq_some_iff.mp hstep
  have hseated := (Option.guard_eq_some' _).mp hseated
  obtain rfl := Option.some.inj hstep
  refine { h with posts := ?_, words := fun other => ?_, seated := fun other hother => ?_ }
  · rw [h.posts, posted_append]
    exact (List.append_nil _).symm
  · have hold := h.words other
    rw [asked_append, ← hold]
    rcases eq_or_ne id other with rfl | hne
    · simp [asked]
    · simp [asked, Function.update_of_ne hne.symm, hne]
  · have hne : id ≠ other := by
      rintro rfl
      exact absurd hseated (Nat.not_lt.mpr hother)
    obtain ⟨hasked, hsent⟩ := h.seated other hother
    refine ⟨?_, hsent⟩
    rw [asked_append, hasked]
    simp [asked, hne]

private theorem History.unmoved (h : History events d as) {machine : WakeUp.Machine} {e : Event}
    (hbroker : machine.broker = d.machine.broker)
    (hlength : d.machine.senders.length ≤ machine.senders.length)
    (he : posted [e] = [] ∧ ∀ id, asked id [e] = []) :
    History (events ++ [e]) { d with machine := machine } as := by
  refine ⟨hbroker.trans h.broker, ?_, fun id => ?_, fun id => ?_, fun id hid => ?_⟩
  · rw [posted_append, he.1, List.append_nil]
    exact h.posts
  · rw [asked_append, he.2, List.append_nil]
    exact h.words id
  · rw [h.mail id]
    exact congrArg (·.sent id) hbroker.symm
  · rw [asked_append, he.2, List.append_nil]
    obtain ⟨hasked, hsent⟩ := h.seated id (hlength.trans hid)
    exact ⟨hasked, (congrArg (·.sent id) hbroker).trans hsent⟩

private theorem History.turn (h : History events d as) {a : WakeUp.Action} {e : Event}
    (hquiet : WakeUp.performed a = []) (hstep : d.turn a = some d')
    (he : posted [e] = [] ∧ ∀ id, asked id [e] = []) : History (events ++ [e]) d' as := by
  obtain ⟨machine, hmachine, rfl⟩ := Option.map_eq_some_iff.mp hstep
  apply h.unmoved ?_ (WakeUp.length_senders hmachine) he
  have hperformed := WakeUp.step_performed hmachine
  rwa [hquiet] at hperformed

private theorem History.rouse (h : History events d as) (id : UserId)
    (hstep : d.step (.rouse id) = some d') : History (events ++ [.rouse id]) d' as := by
  obtain ⟨machine, hmachine, rfl⟩ := Option.map_eq_some_iff.mp hstep
  obtain ⟨-, rfl⟩ := Runs.guarded hmachine
  exact h.unmoved rfl (by rw [List.length_set]) ⟨rfl, fun _ => rfl⟩

private theorem History.accept (h : History events d as) (k : Nat)
    (hstep : d.step (.accept k) = some d') : ∃ as', History (events ++ [.accept k]) d' as' := by
  obtain ⟨message, hhead, hstep⟩ := Option.bind_eq_some_iff.mp hstep
  obtain ⟨machine, hmachine, hstep⟩ := Option.bind_eq_some_iff.mp hstep
  obtain rfl := Option.some.inj hstep
  obtain ⟨posts, hposts⟩ := List.head?_eq_some_iff.mp hhead
  obtain ⟨-, rfl⟩ := Runs.guarded hmachine
  have hsame (id : UserId) : asked id (events ++ [.accept k]) = asked id events := by
    rw [asked_append]
    exact List.append_nil _
  refine ⟨as ++ [.publish message], ?_, ?_, fun id => ?_, fun id => ?_, fun id hid => ?_⟩
  · rw [exec_append_singleton, step_publish, h.broker]
  · rw [posted_append, ← h.posts, hposts]
    simp [registered, posted]
  · rw [hsame, ← h.words id]
    simp [toggledBy]
  · rw [registerMessage_sent]
    exact h.mail id
  · rw [hsame, registerMessage_sent]
    exact h.seated id hid

private theorem History.receive (h : History events d as) (id : UserId) (k : Nat)
    (hstep : d.step (.receive id k) = some d') :
    ∃ as', History (events ++ [.receive id k]) d' as' := by
  obtain ⟨topic, hhead, hstep⟩ := Option.bind_eq_some_iff.mp hstep
  obtain ⟨machine, hmachine, hstep⟩ := Option.bind_eq_some_iff.mp hstep
  obtain rfl := Option.some.inj hstep
  obtain ⟨words, hwords⟩ := List.head?_eq_some_iff.mp hhead
  obtain ⟨-, rfl⟩ := Runs.guarded hmachine
  have hsame (other : UserId) : asked other (events ++ [.receive id k]) = asked other events := by
    rw [asked_append]
    exact List.append_nil _
  refine ⟨as ++ [.toggle id topic], ?_, ?_, fun other => ?_, h.mail, fun other hother => ?_⟩
  · rw [exec_append_singleton, step_toggle, h.broker]
  · rw [posted_append, ← h.posts]
    simp [registered, posted]
  · rw [hsame, ← h.words other]
    rcases eq_or_ne id other with rfl | hne
    · simp [toggledBy, hwords]
    · simp [toggledBy, Function.update_of_ne hne.symm, hne]
  · rw [hsame]
    exact h.seated other hother

private theorem History.pass (h : History events d as) (id : UserId)
    (hstep : d.step (.pass id) = some d') : ∃ as', History (events ++ [.pass id]) d' as' := by
  obtain ⟨machine, hmachine, hstep⟩ := Option.bind_eq_some_iff.mp hstep
  obtain rfl := Option.some.inj hstep
  obtain ⟨hwoken, rfl⟩ := Runs.guarded hmachine
  have hsame (other : UserId) : asked other (events ++ [.pass id]) = asked other events := by
    rw [asked_append]
    exact List.append_nil _
  refine ⟨as ++ [.pass id], ?_, ?_, fun other => ?_, fun other => ?_, fun other hother => ?_⟩
  · rw [exec_append_singleton, step_pass, h.broker]
  · rw [posted_append, ← h.posts]
    simp [registered, posted]
  · rw [hsame, ← h.words other]
    simp [toggledBy]
  · rcases eq_or_ne id other with rfl | hne
    · simp [handleSender_sent_self, ← h.mail id]
    · rw [handleSender_sent_of_ne id _ hne, ← h.mail other]
      simp [Function.update_of_ne hne.symm]
  · rw [List.length_set] at hother
    have hne : id ≠ other := by
      rintro rfl
      obtain ⟨hlt, -⟩ := List.getElem?_eq_some_iff.mp hwoken
      exact absurd hlt (Nat.not_lt.mpr hother)
    rw [hsame, handleSender_sent_of_ne id _ hne]
    exact h.seated other hother

private theorem History.print (h : History events d as) (id : UserId) (k : Nat)
    (hstep : d.step (.print id k) = some d') : History (events ++ [.print id k]) d' as := by
  obtain ⟨-, -, hstep⟩ := Option.bind_eq_some_iff.mp hstep
  obtain ⟨message, hhead, hstep⟩ := Option.bind_eq_some_iff.mp hstep
  obtain rfl := Option.some.inj hstep
  obtain ⟨mail, hmail⟩ := List.head?_eq_some_iff.mp hhead
  have hsame (other : UserId) : asked other (events ++ [.print id k]) = asked other events := by
    rw [asked_append]
    exact List.append_nil _
  refine ⟨h.broker, ?_, fun other => ?_, fun other => ?_, fun other hother => ?_⟩
  · rw [posted_append, ← h.posts]
    simp [posted]
  · rw [hsame]
    exact h.words other
  · rw [← h.mail other]
    rcases eq_or_ne id other with rfl | hne
    · simp [hmail]
    · simp [Function.update_of_ne hne.symm]
  · rw [hsame]
    exact h.seated other hother

/-- Every run of the desk is one of the broker behind it. -/
theorem exists_history (hrun : Runs.run step {} events = some d) : ∃ as, History events d as := by
  induction events using List.reverseRecOn generalizing d with
  | nil =>
    obtain rfl := Option.some.inj hrun
    exact ⟨[], rfl, rfl, fun _ => rfl, fun _ => rfl, fun _ _ => ⟨rfl, rfl⟩⟩
  | append_singleton events e ih =>
    rw [Runs.run_append] at hrun
    obtain ⟨d₀, hd₀, hrun⟩ := Option.bind_eq_some_iff.mp hrun
    obtain ⟨d₁, hstep, hrun⟩ := Option.bind_eq_some_iff.mp hrun
    obtain rfl := Option.some.inj hrun
    obtain ⟨as, h⟩ := ih hd₀
    cases e with
    | connect => exact ⟨as, h.turn rfl hstep ⟨rfl, fun _ => rfl⟩⟩
    | post topic file => exact ⟨as, h.post topic file hstep⟩
    | accept k => exact h.accept k hstep
    | distribute => exact ⟨as, h.turn rfl hstep ⟨rfl, fun _ => rfl⟩⟩
    | ask id topic => exact ⟨as, h.ask id topic hstep⟩
    | receive id k => exact h.receive id k hstep
    | notify id => exact ⟨as, h.turn rfl hstep ⟨rfl, fun _ => rfl⟩⟩
    | wait id => exact ⟨as, h.turn rfl hstep ⟨rfl, fun _ => rfl⟩⟩
    | rouse id => exact ⟨as, h.rouse id hstep⟩
    | pass id => exact h.pass id hstep
    | print id k => exact ⟨as, h.print id k hstep⟩

end Steps

section Shown
variable {events : List Event} {d : Desk} {as : List Action} {id : UserId} {topic : Topic}

private theorem History.published_prefix (h : History events d as) (topic : Topic) :
    d.machine.broker.published topic <+: contentsOf topic (posted events) := by
  rw [h.broker, exec_published, ← h.posts, contentsOf_append]
  exact List.prefix_append _ _

private theorem History.stream (h : History events d as) (id : UserId) (topic : Topic) :
    ∃ lengths : List Nat, lengths.length ≤ ((asked id events).count topic + 1) / 2 ∧
      contentsOf topic (d.machine.broker.sent id) =
        replay (contentsOf topic (posted events)) lengths := by
  obtain ⟨closed, hlog⟩ := exec_log as id topic
  rw [← h.broker] at hlog
  have within : CursorsWithin d.machine.broker := h.broker ▸ exec_cursorsWithin as
  have htoggles : (toggledBy id as).count topic ≤ (asked id events).count topic := by
    rw [← h.words id, List.count_append]
    exact Nat.le_add_right _ _
  obtain ⟨rest, hrest⟩ := h.published_prefix topic
  have hgrow : ∀ lengths : List Nat,
      (∀ k ∈ lengths, k ≤ (d.machine.broker.published topic).length) →
      replay (d.machine.broker.published topic) lengths =
        replay (contentsOf topic (posted events)) lengths := by
    intro lengths hle
    rw [← hrest, replay_grow hle]
  cases hsub : d.machine.broker.subscribed id topic with
  | true =>
    have hodd := hlog.subscribed.mp hsub
    refine ⟨closed ++ [d.machine.broker.reading id topic], ?_, ?_⟩
    · obtain ⟨m, hm⟩ := hodd
      rw [List.length_append, hlog.periods, List.length_singleton]
      omega
    · rw [hlog.log, hgrow]
      intro k hk
      rcases List.mem_append.mp hk with hk | hk
      · exact hlog.within k hk
      · exact List.mem_singleton.mp hk ▸ reading_le within id topic
  | false =>
    refine ⟨closed, ?_, ?_⟩
    · rw [hlog.periods]
      omega
    · rw [hlog.log, reading_of_not_subscribed hsub, replay_append, replay_singleton,
        List.take_zero, List.append_nil, hgrow closed hlog.within]

private theorem History.shown (h : History events d as) (id : UserId) (topic : Topic) :
    ∃ lengths : List Nat, lengths.length ≤ ((asked id events).count topic + 1) / 2 ∧
      contentsOf topic (d.screen id) = replay (contentsOf topic (posted events)) lengths := by
  obtain ⟨lengths, hlength, hstream⟩ := h.stream id topic
  have hprefix : contentsOf topic (d.screen id) <+:
      replay (contentsOf topic (posted events)) lengths := by
    rw [← hstream, ← h.mail id, contentsOf_append]
    exact List.prefix_append _ _
  obtain ⟨fewer, hfewer, heq⟩ := replay_prefix hprefix
  exact ⟨fewer, hfewer.trans hlength, heq⟩

/-- With nothing under way to the user, and nothing left of a pass to make, all that was posted
of a topic the user is subscribed to stands on the screen. -/
theorem History.complete (h : History events d as) (hposts : d.posts = [])
    (hwords : d.words id = []) (hmail : d.mail id = []) (hup : WakeUp.UpToDate d.machine.broker id)
    (hodd : Odd ((asked id events).count topic)) :
    contentsOf topic (posted events) <:+ contentsOf topic (d.screen id) := by
  obtain ⟨closed, hlog⟩ := exec_log as id topic
  rw [← h.broker] at hlog
  have hasked : toggledBy id as = asked id events := by
    rw [← h.words id, hwords, List.append_nil]
  have hposted : d.machine.broker.published topic = contentsOf topic (posted events) := by
    rw [h.broker, exec_published, ← h.posts, hposts, List.append_nil]
  have hsent : d.screen id = d.machine.broker.sent id := by
    rw [← h.mail id, hmail, List.append_nil]
  have hsub := hlog.subscribed.mpr (hasked ▸ hodd)
  have hreading :
      d.machine.broker.reading id topic = (d.machine.broker.published topic).length := by
    rw [State.subscribed] at hsub
    rw [State.reading]
    cases he : d.machine.broker.entry id topic with
    | none => simp [he] at hsub
    | some e =>
      rw [he, Option.any_some] at hsub
      rw [← hup topic e he hsub]
      exact if_pos hsub
  rw [hsent, hlog.log, replay_append, replay_singleton, hreading, List.take_length, hposted]
  exact List.suffix_append _ _

end Shown

end Desk

namespace Network
variable {events : List Event} {n : Network}

/-- A run of the network is one of the desk. -/
theorem exists_desk (hfits : ∀ e ∈ events, e.Fits)
    (hrun : Runs.run step {} events = some n) :
    ∃ d, Runs.run Desk.step {} events = some d ∧ n.Carries d := by
  have hrelated := carries_start.run hfits
  rw [hrun] at hrelated
  exact Runs.related_right hrelated

end Network
end NetworkProtocol.Broker
