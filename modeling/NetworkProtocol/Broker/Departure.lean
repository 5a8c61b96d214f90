import Mathlib.Data.List.Sort
import NetworkProtocol.Broker.Framing
import NetworkProtocol.Broker.Replay

/-! A subscriber that has gone away toggles the empty topic without end. Nothing is published
under it, and what is toggled of such topics can be taken out of a run without a trace. -/
namespace NetworkProtocol.Broker
open Std OrderedMap ByteStream CMemory

def topicsOf (as : List Action) : List Topic := (registered as).map (·.topic)

/-- All but the toggles of topics that nothing is published under. -/
def audible (as : List Action) : Action → Bool
  | .toggle _ topic => topic ∈ topicsOf as
  | _ => true

/-- The states agree but for entries of topics without a publication. -/
structure SameStreams (topics : Topic → Prop) (s t : State) : Prop where
  published : ∀ topic, s.published topic = t.published topic
  empty : ∀ topic, ¬ topics topic → s.published topic = []
  entry : ∀ id topic, topics topic → s.entry id topic = t.entry id topic
  sent : s.sent = t.sent

section Entries
variable {s t : State} {id : UserId}

private theorem eq_of_ordered {l m : List (Topic × Subscription)}
    (hl : l.Pairwise (fun a b => compare a.1 b.1 = .lt))
    (hm : m.Pairwise (fun a b => compare a.1 b.1 = .lt)) (h : ∀ a, a ∈ l ↔ a ∈ m) : l = m := by
  have hirrefl : Std.Irrefl (fun a b : Topic × Subscription => compare a.1 b.1 = .lt) :=
    ⟨fun a => by simp⟩
  have hantisymm : Std.Antisymm (fun a b : Topic × Subscription => compare a.1 b.1 = .lt) := by
    refine ⟨fun a b hab hba => ?_⟩
    have hswap : compare b.1 a.1 = (compare a.1 b.1).swap := OrientedCmp.eq_swap
    rw [hswap, hab] at hba
    cases hba
  exact hl.eq_of_mem_iff hm h

private theorem flatMap_filter_of_nil {α β : Type*} {f : α → List β} {p : α → Bool} {l : List α}
    (h : ∀ a ∈ l, p a = false → f a = []) : (l.filter p).flatMap f = l.flatMap f := by
  induction l with
  | nil => rfl
  | cons a l ih =>
    obtain ⟨ha, hl⟩ := List.forall_mem_cons.mp h
    rw [List.flatMap_cons]
    cases hp : p a with
    | true => rw [List.filter_cons_of_pos hp, List.flatMap_cons, ih hl]
    | false => rw [List.filter_cons_of_neg (by simp [hp]), ih hl, ha hp, List.nil_append]

end Entries

section Steps
variable {topics : Topic → Prop} {s t : State}

private theorem SameStreams.passed [DecidablePred topics] (h : SameStreams topics s t)
    (id : UserId) : Broker.passed s id = Broker.passed t id := by
  have hordered (u : State) : ((entries u id).filter (fun e => decide (topics e.1))).Pairwise
      (fun a b => compare a.1 b.1 = .lt) :=
    List.Pairwise.filter _ ExtTreeMap.ordered_keys_toList
  have hmem : ∀ e, e ∈ (entries s id).filter (fun e => decide (topics e.1)) ↔
      e ∈ (entries t id).filter (fun e => decide (topics e.1)) := by
    rintro ⟨topic, e⟩
    simp only [List.mem_filter, mem_entries, decide_eq_true_eq]
    exact and_congr_left fun htopic => by rw [h.entry id topic htopic]
  have hnil (u : State) (hu : ∀ topic, ¬ topics topic → u.published topic = []) :
      ∀ e ∈ entries u id, decide (topics e.1) = false → pending s e = [] := by
    intro e _ htopic
    rw [pending, sends_eq, h.empty e.1 (of_decide_eq_false htopic), List.drop_nil, List.map_nil,
      ite_self]
  have hpending : pending s = pending t := by
    funext e
    rw [pending, pending, sends_eq, sends_eq, h.published]
  calc Broker.passed s id
      = ((entries s id).filter (fun e => decide (topics e.1))).flatMap (pending s) :=
        (flatMap_filter_of_nil (hnil s h.empty)).symm
    _ = ((entries t id).filter (fun e => decide (topics e.1))).flatMap (pending s) := by
        rw [eq_of_ordered (hordered s) (hordered t) hmem]
    _ = (entries t id).flatMap (pending s) :=
        flatMap_filter_of_nil (hnil t fun topic htopic => h.published topic ▸ h.empty topic htopic)
    _ = Broker.passed t id := by rw [hpending, Broker.passed]

private theorem SameStreams.register (h : SameStreams topics s t) {message : Message}
    (htopic : topics message.topic) :
    SameStreams topics (registerMessage message s) (registerMessage message t) := by
  refine ⟨fun topic => ?_, fun topic hquiet => ?_, fun id topic hheard => ?_, ?_⟩
  · rcases eq_or_ne message.topic topic with rfl | hne
    · rw [registerMessage_published_self, registerMessage_published_self, h.published]
    · rw [registerMessage_published_of_ne _ _ hne, registerMessage_published_of_ne _ _ hne,
        h.published]
  · have hne : message.topic ≠ topic := fun heq => hquiet (heq ▸ htopic)
    rw [registerMessage_published_of_ne _ _ hne, h.empty topic hquiet]
  · rw [registerMessage_entry, registerMessage_entry, h.entry id topic hheard]
  · rw [registerMessage_sent, registerMessage_sent, h.sent]

private theorem SameStreams.toggle (h : SameStreams topics s t) (id : UserId) (topic : Topic) :
    SameStreams topics (handleReceiver id topic s) (handleReceiver id topic t) := by
  refine ⟨h.published, h.empty, fun id' topic' hheard => ?_, h.sent⟩
  by_cases hpair : id = id' ∧ topic = topic'
  · obtain ⟨rfl, rfl⟩ := hpair
    rw [handleReceiver_entry_self, handleReceiver_entry_self, h.entry id topic hheard]
  · rw [handleReceiver_entry_of_ne _ _ _ (not_and_or.mp hpair),
      handleReceiver_entry_of_ne _ _ _ (not_and_or.mp hpair), h.entry id' topic' hheard]

private theorem SameStreams.toggleQuiet (h : SameStreams topics s t) (id : UserId) {topic : Topic}
    (hquiet : ¬ topics topic) : SameStreams topics (handleReceiver id topic s) t := by
  refine ⟨h.published, h.empty, fun id' topic' hheard => ?_, h.sent⟩
  have hne : topic ≠ topic' := fun heq => hquiet (heq ▸ hheard)
  rw [handleReceiver_entry_of_ne _ _ _ (.inr hne), h.entry id' topic' hheard]

private theorem SameStreams.pass [DecidablePred topics] (h : SameStreams topics s t)
    (id : UserId) : SameStreams topics (handleSender id s) (handleSender id t) := by
  refine ⟨fun topic => ?_, fun topic hquiet => ?_, fun id' topic hheard => ?_, ?_⟩
  · rw [handleSender_published, handleSender_published, h.published]
  · rw [handleSender_published, h.empty topic hquiet]
  · rcases eq_or_ne id id' with rfl | hne
    · have hsettled : settled s topic = settled t topic := by
        funext e
        rw [settled, settled, h.published]
      rw [handleSender_entry_self, handleSender_entry_self, h.entry id topic hheard, hsettled]
    · rw [handleSender_entry_of_ne _ _ hne, handleSender_entry_of_ne _ _ hne,
        h.entry id' topic hheard]
  · funext id'
    rcases eq_or_ne id id' with rfl | hne
    · rw [handleSender_sent_self, handleSender_sent_self, h.sent, h.passed id]
    · rw [handleSender_sent_of_ne _ _ hne, handleSender_sent_of_ne _ _ hne, h.sent]

end Steps

/-- What is toggled of topics without a publication changes nobody's stream, no vector, and no
entry of another topic. -/
theorem inaudible_unseen (as : List Action) :
    (exec (as.filter (audible as))).sent = (exec as).sent ∧
      (∀ topic, (exec (as.filter (audible as))).published topic = (exec as).published topic) ∧
      ∀ id, ∀ topic ∈ topicsOf as,
        (exec (as.filter (audible as))).entry id topic = (exec as).entry id topic := by
  have hsame : SameStreams (· ∈ topicsOf as) (exec as) (exec (as.filter (audible as))) := by
    refine Runs.related_erased step (audible as) as ?_ ?_
      ⟨fun _ => rfl, fun topic _ => published_empty topic, fun _ _ _ => rfl, rfl⟩
    · intro a ha s t h hkept
      cases a with
      | publish message =>
        apply h.register
        exact List.mem_map_of_mem (List.mem_filterMap.mpr ⟨_, ha, rfl⟩)
      | toggle id topic => exact h.toggle id topic
      | pass id => exact h.pass id
    · intro a ha s t h hkept
      cases a with
      | toggle id topic => exact h.toggleQuiet id (by simpa [audible] using hkept)
      | publish message => simp [audible] at hkept
      | pass id => simp [audible] at hkept
  exact ⟨hsame.sent.symm, fun topic => (hsame.published topic).symm,
    fun id topic htopic => (hsame.entry id topic htopic).symm⟩

section Loop
variable {id : UserId} {s s' : TopicLoop} {event : Event Char maxTopicLength}

/-- The subscriber is gone and everything it sent has been received. -/
def Departed (s : TopicLoop) : Prop := s.closed = true ∧ s.received = s.bytes.length

private theorem Departed.turn (h : Departed s) (hstep : topicStep id s event = some s') :
    Departed s' ∧ s'.handled = s.handled ++ [some (.toggle id [])] := by
  cases event with
  | send record =>
    obtain ⟨hopen, -⟩ := Loop.step_send hstep
    rw [h.1] at hopen
    cases hopen
  | close part =>
    obtain ⟨hopen, -⟩ := Loop.step_close hstep
    rw [h.1] at hopen
    cases hopen
  | recv k =>
    obtain ⟨hreturns, rfl⟩ := Loop.step_recv hstep
    have hle := hreturns.le.2
    obtain rfl : k = 0 := by
      rw [h.2] at hle
      omega
    refine ⟨h, congrArg (s.handled ++ [·]) ?_⟩
    rw [List.take_zero, receiveTopic, cString_zeroed_alone List.not_mem_nil (by decide)]
    rfl

/-- The loop has no way out: every further turn of it toggles the empty topic. -/
theorem departed_turns (h : Departed s) {events : List (Event Char maxTopicLength)}
    (hrun : Runs.run (topicStep id) s events = some s') :
    s'.handled = s.handled ++ List.replicate events.length (some (.toggle id [])) := by
  induction events generalizing s with
  | nil =>
    obtain rfl := Option.some.inj hrun
    exact (List.append_nil _).symm
  | cons event events ih =>
    obtain ⟨t, hstep, hrun⟩ := Option.bind_eq_some_iff.mp hrun
    obtain ⟨ht, hhandled⟩ := h.turn hstep
    rw [ih ht hrun, hhandled, List.append_assoc, List.length_cons, List.replicate_succ]
    rfl

end Loop

end NetworkProtocol.Broker
