import Mathlib.Algebra.Ring.Parity
import Mathlib.Data.List.Induction
import NetworkProtocol.Broker.Completeness

/-! What a user's stream holds of one topic, over any run: one prefix of the topic's vector for
each time the user has subscribed to it, the last of them still growing. -/
namespace NetworkProtocol.Broker

def registered (as : List Action) : List Message :=
  as.filterMap fun
    | .publish message => some message
    | _ => none

def toggledBy (id : UserId) (as : List Action) : List Topic :=
  as.filterMap fun
    | .toggle user topic => if user = id then some topic else none
    | _ => none

def replay {γ : Type*} (v : List γ) (lengths : List Nat) : List γ := lengths.flatMap (v.take ·)

namespace State

def subscribed (s : State) (id : UserId) (topic : Topic) : Bool :=
  (s.entry id topic).any (·.isSubscribed)

def reading (s : State) (id : UserId) (topic : Topic) : Nat :=
  match s.entry id topic with
  | some e => if e.isSubscribed then e.isReadUpTo else 0
  | none => 0

end State

section Replay
variable {γ : Type*} {v w l : List γ} {lengths : List Nat}

@[simp] theorem replay_nil (v : List γ) : replay v [] = [] := rfl

private theorem replay_cons (v : List γ) (k : Nat) (lengths : List Nat) :
    replay v (k :: lengths) = v.take k ++ replay v lengths := rfl

/-- Replays of two lists of lengths follow each other. -/
theorem replay_append (v : List γ) (a b : List Nat) :
    replay v (a ++ b) = replay v a ++ replay v b :=
  List.flatMap_append

/-- One replay is a prefix. -/
theorem replay_singleton (v : List γ) (k : Nat) : replay v [k] = v.take k := by
  rw [replay_cons, replay_nil, List.append_nil]

/-- A vector that grows keeps its prefixes. -/
theorem replay_grow (h : ∀ k ∈ lengths, k ≤ v.length) :
    replay (v ++ w) lengths = replay v lengths := by
  apply List.flatMap_congr
  intro k hk
  exact List.take_append_of_le_length (h k hk)

/-- A part of the prefixes from the start on is prefixes again. -/
theorem replay_prefix (h : l <+: replay v lengths) :
    ∃ fewer : List Nat, fewer.length ≤ lengths.length ∧ l = replay v fewer := by
  induction lengths generalizing l with
  | nil =>
    obtain rfl := List.prefix_nil.mp h
    exact ⟨[], le_rfl, rfl⟩
  | cons k lengths ih =>
    rw [replay_cons] at h
    rcases List.prefix_or_prefix_of_prefix h (List.prefix_append _ _) with hshort | ⟨rest, rfl⟩
    · refine ⟨[l.length], Nat.succ_le_succ (Nat.zero_le _), ?_⟩
      rw [replay_singleton]
      exact List.prefix_iff_eq_take.mp (hshort.trans (List.take_prefix k v))
    · obtain ⟨fewer, hlength, rfl⟩ := ih ((List.prefix_append_right_inj _).mp h)
      exact ⟨k :: fewer, Nat.succ_le_succ hlength, rfl⟩

end Replay

section Histories
variable {id : UserId} {topic : Topic}

@[simp] theorem registered_append (as bs : List Action) :
    registered (as ++ bs) = registered as ++ registered bs :=
  List.filterMap_append

@[simp] theorem toggledBy_append (id : UserId) (as bs : List Action) :
    toggledBy id (as ++ bs) = toggledBy id as ++ toggledBy id bs :=
  List.filterMap_append

/-- The last step comes last. -/
theorem exec_append_singleton (as : List Action) (a : Action) :
    exec (as ++ [a]) = step (exec as) a := by
  simp [exec]

/-- The vectors hold what has been registered, topic by topic. -/
theorem exec_published (as : List Action) (topic : Topic) :
    (exec as).published topic = contentsOf topic (registered as) := by
  induction as using List.reverseRecOn with
  | nil => exact published_empty topic
  | append_singleton as a ih =>
    rw [exec_append_singleton, registered_append, contentsOf_append, ← ih]
    cases a with
    | publish message =>
      rcases eq_or_ne message.topic topic with rfl | hne
      · simp [registered, contentsOf]
      · simp [registered, contentsOf, hne, registerMessage_published_of_ne message _ hne]
    | toggle user topic' => simp [registered]
    | pass user => simp [registered]

end Histories

/-- A user's stream of one topic: the prefixes read in the subscriptions that are over, one for
each of them, and the one that is being read. -/
structure Log (id : UserId) (topic : Topic) (s : State) (toggles : Nat) (closed : List Nat) :
    Prop where
  within : ∀ k ∈ closed, k ≤ (s.published topic).length
  periods : closed.length = toggles / 2
  subscribed : s.subscribed id topic = true ↔ Odd toggles
  log : contentsOf topic (s.sent id) = replay (s.published topic) (closed ++ [s.reading id topic])

section Steps
variable {id : UserId} {topic : Topic} {s : State} {toggles : Nat} {closed : List Nat}

/-- A user who is not subscribed is reading nothing. -/
theorem reading_of_not_subscribed (h : s.subscribed id topic = false) :
    s.reading id topic = 0 := by
  rw [State.subscribed] at h
  rw [State.reading]
  cases he : s.entry id topic with
  | none => rfl
  | some e =>
    rw [he, Option.any_some] at h
    simp [h]

/-- A reading stands inside its vector. -/
theorem reading_le (h : CursorsWithin s) (id : UserId) (topic : Topic) :
    s.reading id topic ≤ (s.published topic).length := by
  rw [State.reading]
  split
  · rename_i e he
    split
    · exact h id topic e he
    · exact Nat.zero_le _
  · exact Nat.zero_le _

private theorem Log.frame (h : Log id topic s toggles closed) (within : CursorsWithin s)
    {s' : State} (hentry : s'.entry id topic = s.entry id topic) (hsent : s'.sent id = s.sent id)
    {new : List Contents} (hpublished : s'.published topic = s.published topic ++ new) :
    Log id topic s' toggles closed := by
  have hreading : s'.reading id topic = s.reading id topic := by
    rw [State.reading, State.reading, hentry]
  refine ⟨?_, h.periods, ?_, ?_⟩
  · intro k hk
    rw [hpublished, List.length_append]
    exact (h.within k hk).trans (Nat.le_add_right _ _)
  · rw [← h.subscribed, State.subscribed, State.subscribed, hentry]
  · rw [hsent, hpublished, hreading, h.log, replay_grow]
    intro k hk
    rcases List.mem_append.mp hk with hk | hk
    · exact h.within k hk
    · exact List.mem_singleton.mp hk ▸ reading_le within id topic

private theorem Log.toggle (h : Log id topic s toggles closed) (within : CursorsWithin s) :
    ∃ closed', Log id topic (handleReceiver id topic s) (toggles + 1) closed' := by
  have hself := handleReceiver_entry_self id topic s
  cases hsub : s.subscribed id topic with
  | true =>
    have hodd := h.subscribed.mp hsub
    have hclosed : (handleReceiver id topic s).subscribed id topic = false := by
      rw [State.subscribed] at hsub ⊢
      rw [hself]
      cases he : s.entry id topic with
      | none => simp [he] at hsub
      | some e => simp_all [toggled]
    refine ⟨closed ++ [s.reading id topic], ?_, ?_, ?_, ?_⟩
    · intro k hk
      rcases List.mem_append.mp hk with hk | hk
      · exact h.within k hk
      · exact List.mem_singleton.mp hk ▸ reading_le within id topic
    · obtain ⟨m, rfl⟩ := hodd
      rw [List.length_append, h.periods, List.length_singleton]
      omega
    · rw [hclosed, Nat.odd_add_one]
      simp [hodd]
    · rw [reading_of_not_subscribed hclosed, replay_append, replay_singleton, List.take_zero,
        List.append_nil]
      exact h.log
  | false =>
    have heven : ¬ Odd toggles := fun hodd => by simp [h.subscribed.mpr hodd] at hsub
    have hopen : (handleReceiver id topic s).subscribed id topic = true := by
      rw [State.subscribed] at hsub ⊢
      rw [hself]
      cases he : s.entry id topic with
      | none => rfl
      | some e => simp_all [toggled]
    have hzero : (handleReceiver id topic s).reading id topic = 0 := by
      rw [State.reading, hself]
      dsimp only
      split
      · rename_i hflag
        exact toggled_isReadUpTo hflag
      · rfl
    refine ⟨closed, h.within, ?_, ?_, ?_⟩
    · obtain ⟨m, rfl⟩ := Nat.not_odd_iff_even.mp heven
      rw [h.periods]
      omega
    · rw [hopen, Nat.odd_add_one]
      simp [heven]
    · have hlog := h.log
      rwa [reading_of_not_subscribed hsub, ← hzero] at hlog

private theorem Log.pass (h : Log id topic s toggles closed) (within : CursorsWithin s) :
    Log id topic (handleSender id s) toggles closed := by
  have hentry := handleSender_entry_self id s topic
  refine ⟨?_, h.periods, ?_, ?_⟩
  · rw [handleSender_published]
    exact h.within
  · rw [← h.subscribed, State.subscribed, State.subscribed, hentry, Option.any_map]
    simp
  · rw [handleSender_sent_self, contentsOf_append, h.log, handleSender_published, replay_append,
      replay_append, List.append_assoc, replay_singleton, replay_singleton, State.reading,
      State.reading, hentry]
    congr 1
    cases he : s.entry id topic with
    | none => rw [contentsOf_passed_of_none id s he]; rfl
    | some e =>
      rw [contentsOf_passed id s he]
      cases hsub : e.isSubscribed with
      | true =>
        have hend := settled_isReadUpTo s e hsub (within id topic e he)
        simp [hsub, hend, List.take_append_drop]
      | false => simp [hsub]

end Steps

/-- Every reachable state has such a log for every user and topic. -/
theorem exec_log (as : List Action) (id : UserId) (topic : Topic) :
    ∃ closed, Log id topic (exec as) ((toggledBy id as).count topic) closed := by
  induction as using List.reverseRecOn with
  | nil =>
    refine ⟨[], by simp, by simp [toggledBy], ?_, ?_⟩
    · simp [exec, State.subscribed, toggledBy]
    · simp [exec, State.reading, replay]
  | append_singleton as a ih =>
    obtain ⟨closed, h⟩ := ih
    have within := exec_cursorsWithin as
    rw [exec_append_singleton, toggledBy_append]
    cases a with
    | publish message =>
      have htoggles : toggledBy id as ++ toggledBy id [.publish message] = toggledBy id as :=
        List.append_nil _
      rw [htoggles, step_publish]
      refine ⟨closed, ?_⟩
      rcases eq_or_ne message.topic topic with rfl | hne
      · exact h.frame within (by simp) (by simp) (registerMessage_published_self message (exec as))
      · exact h.frame within (by simp) (by simp)
          ((registerMessage_published_of_ne message _ hne).trans (List.append_nil _).symm)
    | toggle user topic' =>
      by_cases hpair : user = id ∧ topic' = topic
      · obtain ⟨rfl, rfl⟩ := hpair
        have hcount : (toggledBy user as ++ toggledBy user [.toggle user topic']).count topic' =
            (toggledBy user as).count topic' + 1 := by
          simp [toggledBy]
        rw [hcount]
        exact h.toggle within
      · have hcount : (toggledBy id as ++ toggledBy id [.toggle user topic']).count topic =
            (toggledBy id as).count topic := by
          rw [List.count_append]
          by_cases huser : user = id
          · have htopic : topic' ≠ topic := fun heq => hpair ⟨huser, heq⟩
            simp [toggledBy, huser, htopic]
          · simp [toggledBy, huser]
        rw [hcount]
        refine ⟨closed, h.frame within ?_ rfl (List.append_nil _).symm⟩
        exact handleReceiver_entry_of_ne user topic' _ (not_and_or.mp hpair)
    | pass user =>
      have htoggles : toggledBy id as ++ toggledBy id [.pass user] = toggledBy id as :=
        List.append_nil _
      rw [htoggles, step_pass]
      refine ⟨closed, ?_⟩
      rcases eq_or_ne user id with rfl | hne
      · exact h.pass within
      · exact h.frame within (handleSender_entry_of_ne user _ hne topic)
          (handleSender_sent_of_ne user _ hne)
          ((handleSender_published user _ topic).trans (List.append_nil _).symm)

end NetworkProtocol.Broker
