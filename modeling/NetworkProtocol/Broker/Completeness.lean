import NetworkProtocol.Broker.Pass

/-! One whole pass of handle_sender: what it sends, what it leaves of the two maps, and that
another one right behind it has nothing left to do. -/
namespace NetworkProtocol.Broker
open Std OrderedMap

def CursorsWithin (s : State) : Prop :=
  ∀ id topic e, s.entry id topic = some e → e.isReadUpTo ≤ (s.published topic).length

def unread (s : State) (copied : Topic × Subscription) : List Message :=
  if copied.2.isSubscribed then
    ((s.published copied.1).drop copied.2.isReadUpTo).map (⟨copied.1, ·⟩)
  else []

def caughtUp (s : State) (topic : Topic) (e : Subscription) : Subscription :=
  if e.isSubscribed then { e with isReadUpTo := (s.published topic).length } else e

/-- The demands on a pass for the user that leads from s to s'. -/
structure CompletePass (id : UserId) (s s' : State) : Prop where
  ordered : (entries s id).Pairwise (fun a b => compare a.1 b.1 = .lt)
  sends : s'.sent id = s.sent id ++ (entries s id).flatMap (unread s)
  others : ∀ other, id ≠ other → s'.sent other = s.sent other ∧
    s'.userInformations[other]? = s.userInformations[other]?
  entry : ∀ topic, s'.entry id topic = (s.entry id topic).map (caughtUp s topic)
  known : ∀ (topic : Topic) v, s.topics[topic]? = some v → s'.topics[topic]? = some v
  added : ∀ topic : Topic, s.topics[topic]? = none →
    s'.topics[topic]? = none ∨ s'.topics[topic]? = some []
  again : handleSender id s' = s'

private theorem pending_eq_unread (s : State) (copied : Topic × Subscription) :
    pending s copied = unread s copied := by
  rw [pending, unread, sends_eq]

/-- Within its vector a cursor is moved to the end, or is there already. -/
theorem settled_eq_caughtUp {s : State} {topic : Topic} {e : Subscription}
    (h : e.isReadUpTo ≤ (s.published topic).length) : settled s topic e = caughtUp s topic e := by
  rw [settled, caughtUp]
  by_cases hsub : e.isSubscribed = true
  · rw [if_pos hsub]
    split
    · rfl
    · rename_i hstop
      have hend : e.isReadUpTo = (s.published topic).length :=
        Nat.le_antisymm h (Nat.le_of_not_lt (fun hlt => hstop ⟨hsub, hlt⟩))
      rw [← hend]
  · rw [if_neg hsub, if_neg (fun h => hsub h.1)]

/-- Only a topic that is subscribed to is looked up. -/
theorem scanEntry_topics (id : UserId) (s : State) (copied : Topic × Subscription) :
    (scanEntry id s copied).topics =
      if copied.2.isSubscribed then touch s.topics copied.1 else s.topics := by
  obtain ⟨topic, information⟩ := copied
  rw [scanEntry]
  dsimp only
  split
  · split <;> rfl
  · rfl

section Scan
variable (id : UserId) (copies : List (Topic × Subscription)) (s : State)

private theorem scan_topics (topic : Topic) :
    (copies.foldl (scanEntry id) s).topics[topic]? = s.topics[topic]? ∨
      s.topics[topic]? = none ∧ (copies.foldl (scanEntry id) s).topics[topic]? = some [] := by
  induction copies generalizing s with
  | nil => exact .inl rfl
  | cons e copies ih =>
    rw [List.foldl_cons]
    have hone : (scanEntry id s e).topics[topic]? = s.topics[topic]? ∨
        s.topics[topic]? = none ∧ (scanEntry id s e).topics[topic]? = some [] := by
      rw [scanEntry_topics]
      split
      · exact (getElem?_touch s.topics e.1 topic).imp_right (fun h => h.2)
      · exact .inl rfl
    rcases ih (scanEntry id s e) with hsame | ⟨hnone, hnew⟩
    · rw [hsame]
      exact hone
    · rcases hone with hone | ⟨-, hone⟩
      · exact .inr ⟨hone ▸ hnone, hnew⟩
      · rw [hone] at hnone
        cases hnone

private theorem scan_mem_topics {e : Topic × Subscription} (he : e ∈ copies)
    (hsub : e.2.isSubscribed = true) : e.1 ∈ (copies.foldl (scanEntry id) s).topics := by
  induction copies generalizing s with
  | nil => cases he
  | cons a copies ih =>
    rw [List.foldl_cons]
    rcases List.mem_cons.mp he with rfl | he
    · have hmem : e.1 ∈ (scanEntry id s e).topics := by
        rw [scanEntry_topics, if_pos hsub]
        exact mem_touch_self _ _
      rw [← ExtTreeMap.isSome_getElem?_iff_mem] at hmem ⊢
      rcases scan_topics id copies (scanEntry id s e) e.1 with hsame | ⟨-, hnew⟩
      · rwa [hsame]
      · rw [hnew]
        rfl
    · exact ih _ he

private theorem scanEntry_caughtUp {e : Topic × Subscription}
    (hsub : e.2.isSubscribed = true → e.1 ∈ s.topics ∧
      (s.published e.1).length ≤ e.2.isReadUpTo) : scanEntry id s e = s := by
  obtain ⟨topic, information⟩ := e
  rw [scanEntry]
  dsimp only
  split
  · rename_i h
    obtain ⟨hmem, hend⟩ := hsub h
    rw [touch_of_mem hmem, if_neg (Nat.not_lt.mpr hend)]
  · rfl

private theorem scan_caughtUp (h : ∀ e ∈ copies, e.2.isSubscribed = true → e.1 ∈ s.topics ∧
    (s.published e.1).length ≤ e.2.isReadUpTo) : copies.foldl (scanEntry id) s = s := by
  induction copies with
  | nil => rfl
  | cons e copies ih =>
    rw [List.foldl_cons, scanEntry_caughtUp id s (h e List.mem_cons_self)]
    exact ih (fun other hmem => h other (List.mem_cons_of_mem _ hmem))

end Scan

/-- One pass sends what is unread of the topics subscribed to and nothing else, moves their
cursors to the end and nothing else, and leaves a state that the next pass does not change. -/
theorem handleSender_complete (id : UserId) (s : State) (within : CursorsWithin s) :
    CompletePass id s (handleSender id s) := by
  have hentry (topic : Topic) :
      (handleSender id s).entry id topic = (s.entry id topic).map (caughtUp s topic) := by
    rw [handleSender_entry_self]
    cases he : s.entry id topic with
    | none => rfl
    | some e => rw [Option.map_some, Option.map_some, settled_eq_caughtUp (within id topic e he)]
  have hends : ∀ e ∈ entries (handleSender id s) id, e.2.isSubscribed = true →
      e.1 ∈ (handleSender id s).topics ∧
        ((handleSender id s).published e.1).length ≤ e.2.isReadUpTo := by
    rintro ⟨topic, e⟩ he hsub
    rw [mem_entries, hentry] at he
    obtain ⟨e₀, he₀, rfl⟩ := Option.map_eq_some_iff.mp he
    have hsub₀ : e₀.isSubscribed = true := by
      dsimp only at hsub
      rw [caughtUp] at hsub
      split at hsub <;> assumption
    constructor
    · rw [handleSender_eq]
      exact scan_mem_topics id _ _ (e := (topic, e₀)) ((mem_entries id s topic e₀).mpr he₀) hsub₀
    · rw [handleSender_published, caughtUp, if_pos hsub₀]
  refine ⟨?_, ?_, fun other hne => ⟨handleSender_sent_of_ne id s hne,
    handleSender_userInformations_of_ne id s hne⟩, hentry, fun topic v hv => ?_,
    fun topic hnone => ?_, ?_⟩
  · exact ExtTreeMap.ordered_keys_toList
  · rw [handleSender_sent_self, passed]
    exact congrArg (fun f => s.sent id ++ (entries s id).flatMap f)
      (funext (fun copied => pending_eq_unread s copied))
  · rw [handleSender_eq]
    rcases scan_topics id (entries s id) _ topic with hsame | ⟨hnone, -⟩
    · rw [hsame]
      exact hv
    · exact absurd (hv.symm.trans hnone) (Option.some_ne_none v)
  · rw [handleSender_eq]
    rcases scan_topics id (entries s id) _ topic with hsame | ⟨-, hnew⟩
    · exact .inl (hsame.trans hnone)
    · exact .inr hnew
  · conv_lhs => rw [handleSender_eq, touch_of_mem (handleSender_mem_userInformations id s)]
    exact scan_caughtUp id _ _ hends

section Reachable

/-- A vector only grows. -/
theorem registerMessage_length_le (message : Message) (s : State) (topic : Topic) :
    (s.published topic).length ≤ ((registerMessage message s).published topic).length := by
  rcases eq_or_ne message.topic topic with rfl | hne
  · rw [registerMessage_published_self, List.length_append]
    exact Nat.le_add_right _ _
  · rw [registerMessage_published_of_ne message s hne]

/-- No step moves a cursor past the end of its vector. -/
theorem CursorsWithin.step {s : State} (within : CursorsWithin s) (a : Action) :
    CursorsWithin (step s a) := by
  intro id topic e he
  cases a with
  | publish message =>
    rw [step_publish, registerMessage_entry] at he
    exact (within id topic e he).trans (registerMessage_length_le message s topic)
  | toggle user topic' =>
    rw [step_toggle] at he ⊢
    rw [handleReceiver_published]
    rcases handleReceiver_entry_cases user topic' s he with ⟨rfl, rfl, rfl⟩ | ⟨-, he⟩
    · exact toggled_isReadUpTo_le (fun e₀ he₀ => within user topic' e₀ he₀)
    · exact within id topic e he
  | pass user =>
    rw [step_pass] at he ⊢
    rw [handleSender_published]
    rcases handleSender_entry_cases user s he with ⟨rfl, e₀, he₀, rfl⟩ | ⟨-, he⟩
    · exact settled_isReadUpTo_le s e₀ (within user topic e₀ he₀)
    · exact within id topic e he

/-- Every state the broker reaches is one in which a pass is complete. -/
theorem exec_cursorsWithin (as : List Action) : CursorsWithin (exec as) := by
  have hrun (s : State) (within : CursorsWithin s) : CursorsWithin (as.foldl Broker.step s) := by
    induction as generalizing s with
    | nil => exact within
    | cons a as ih => exact ih _ (within.step a)
  refine hrun {} (fun id topic e he => ?_)
  rw [entry_empty] at he
  cases he

end Reachable

private def busy : State :=
  exec [.toggle 0 "a".toList, .publish ⟨"a".toList, "x".toList⟩, .pass 0, .toggle 0 "b".toList,
    .toggle 1 "a".toList, .publish ⟨"a".toList, "y".toList⟩]

/-- The pass over three topics of a busy user is complete. -/
theorem busy_complete : CompletePass 0 busy (handleSender 0 busy) :=
  handleSender_complete 0 busy (exec_cursorsWithin _)

end NetworkProtocol.Broker
