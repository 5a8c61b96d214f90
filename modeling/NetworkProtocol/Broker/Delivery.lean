import Mathlib.Algebra.Ring.Parity
import Mathlib.Data.List.DropRight
import NetworkProtocol.Broker.Pass

/-! Delivery over whole runs. Within one subscription period a user receives a prefix
of what was ever published under the topic, and the stored cursor is its length. -/
namespace NetworkProtocol.Broker

def publishedIn (topic : Topic) (as : List Action) : List Contents :=
  as.filterMap fun
    | .publish message => if message.topic = topic then some message.contents else none
    | _ => none

/-- The run up to its latest toggle of the given pair, and empty when there is none. -/
def uptoToggle (id : UserId) (topic : Topic) (as : List Action) : List Action :=
  as.rdropWhile (fun a => a ≠ .toggle id topic)

/-- What was appended to the user's log since the latest toggle of the pair, or ever. -/
def sentSinceToggle (id : UserId) (topic : Topic) (as : List Action) : List Message :=
  ((exec as).sent id).drop ((exec (uptoToggle id topic as)).sent id).length

private theorem exec_concat (as : List Action) (a : Action) :
    exec (as ++ [a]) = step (exec as) a := by
  simp [exec]

private structure Period (id : UserId) (topic : Topic) (as : List Action) : Prop where
  vector : (exec as).published topic = publishedIn topic as
  mark : ((exec (uptoToggle id topic as)).sent id).length ≤ ((exec as).sent id).length
  absent : (exec as).entry id topic = none →
    as.count (.toggle id topic) = 0 ∧ contentsOf topic (sentSinceToggle id topic as) = []
  parity : ∀ e, (exec as).entry id topic = some e →
    (e.isSubscribed ↔ Odd (as.count (.toggle id topic)))
  reading : ∀ e, (exec as).entry id topic = some e → e.isSubscribed →
    e.isReadUpTo ≤ (publishedIn topic as).length ∧
    contentsOf topic (sentSinceToggle id topic as) = (publishedIn topic as).take e.isReadUpTo
  silent : ∀ e, (exec as).entry id topic = some e → ¬ e.isSubscribed →
    contentsOf topic (sentSinceToggle id topic as) = []

section Step
variable {id : UserId} {topic : Topic} {as : List Action}

private theorem publishedIn_concat (a : Action) :
    publishedIn topic (as ++ [a]) = publishedIn topic as ++ publishedIn topic [a] := by
  simp only [publishedIn, List.filterMap_append]

private theorem uptoToggle_concat {a : Action} (h : a ≠ .toggle id topic) :
    uptoToggle id topic (as ++ [a]) = uptoToggle id topic as := by
  simp [uptoToggle, h]

private theorem count_concat {a : Action} (h : a ≠ .toggle id topic) :
    (as ++ [a]).count (.toggle id topic) = as.count (.toggle id topic) := by
  simp [List.count_append, h]

private theorem Period.extend (h : Period id topic as) {a : Action} (ha : a ≠ .toggle id topic)
    (new : List Message) (move : Subscription → Subscription)
    (hs : (exec (as ++ [a])).sent id = (exec as).sent id ++ new)
    (hv : (exec (as ++ [a])).published topic = publishedIn topic (as ++ [a]))
    (he : (exec (as ++ [a])).entry id topic = ((exec as).entry id topic).map move)
    (hflag : ∀ e, (move e).isSubscribed = e.isSubscribed)
    (hnone : (exec as).entry id topic = none → contentsOf topic new = [])
    (hread : ∀ e, (exec as).entry id topic = some e → e.isSubscribed →
      e.isReadUpTo ≤ (publishedIn topic as).length →
      (move e).isReadUpTo ≤ (publishedIn topic (as ++ [a])).length ∧
      (publishedIn topic as).take e.isReadUpTo ++ contentsOf topic new =
        (publishedIn topic (as ++ [a])).take (move e).isReadUpTo)
    (hsilent : ∀ e, (exec as).entry id topic = some e → ¬ e.isSubscribed →
      contentsOf topic new = []) : Period id topic (as ++ [a]) := by
  have hsince : contentsOf topic (sentSinceToggle id topic (as ++ [a])) =
      contentsOf topic (sentSinceToggle id topic as) ++ contentsOf topic new := by
    rw [sentSinceToggle, uptoToggle_concat ha, hs, List.drop_append_of_le_length h.mark,
      contentsOf_append]
    rfl
  have hold : ∀ e, (exec (as ++ [a])).entry id topic = some e →
      ∃ e₀, (exec as).entry id topic = some e₀ ∧ move e₀ = e := by
    intro e hent
    exact Option.map_eq_some_iff.mp (he.symm.trans hent)
  refine ⟨?_, ?_, ?_, ?_, ?_, ?_⟩
  · exact hv
  · rw [uptoToggle_concat ha, hs, List.length_append]
    exact h.mark.trans (Nat.le_add_right _ _)
  · intro hent
    rw [he, Option.map_eq_none_iff] at hent
    obtain ⟨hzero, hnil⟩ := h.absent hent
    rw [count_concat ha, hsince, hnil, hnone hent]
    exact ⟨hzero, rfl⟩
  · intro e hent
    obtain ⟨e₀, hent₀, rfl⟩ := hold e hent
    rw [count_concat ha, hflag]
    exact h.parity e₀ hent₀
  · intro e hent hsub
    obtain ⟨e₀, hent₀, rfl⟩ := hold e hent
    rw [hflag] at hsub
    obtain ⟨hle, htake⟩ := h.reading e₀ hent₀ hsub
    rw [hsince, htake]
    exact hread e₀ hent₀ hsub hle
  · intro e hent hsub
    obtain ⟨e₀, hent₀, rfl⟩ := hold e hent
    rw [hflag] at hsub
    rw [hsince, h.silent e₀ hent₀ hsub, hsilent e₀ hent₀ hsub]
    rfl

private theorem Period.frame (h : Period id topic as) {a : Action} (ha : a ≠ .toggle id topic)
    (hs : (exec (as ++ [a])).sent id = (exec as).sent id)
    (hv : (exec (as ++ [a])).published topic = publishedIn topic (as ++ [a]))
    (he : (exec (as ++ [a])).entry id topic = (exec as).entry id topic) :
    Period id topic (as ++ [a]) := by
  apply h.extend ha [] (fun e => e)
  · simpa using hs
  · exact hv
  · simpa using he
  · exact fun _ => rfl
  · exact fun _ => rfl
  · intro e _ _ hle
    rw [publishedIn_concat]
    refine ⟨by rw [List.length_append]; exact hle.trans (Nat.le_add_right _ _), ?_⟩
    simp [List.take_append_of_le_length hle]
  · exact fun _ _ _ => rfl

private theorem Period.publish (h : Period id topic as) (message : Message) :
    Period id topic (as ++ [.publish message]) := by
  apply h.frame (a := .publish message) (by simp)
  · rw [exec_concat]
    exact congrFun (registerMessage_sent message (exec as)) id
  · rw [exec_concat, publishedIn_concat, ← h.vector]
    rcases eq_or_ne message.topic topic with rfl | ht
    · simp [publishedIn]
    · simp [publishedIn, ht, registerMessage_published_of_ne message (exec as) ht]
  · rw [exec_concat]
    exact registerMessage_entry message (exec as) id topic

private theorem Period.toggle (h : Period id topic as) :
    Period id topic (as ++ [.toggle id topic]) := by
  have hp : publishedIn topic (as ++ [.toggle id topic]) = publishedIn topic as := by
    simp [publishedIn]
  have he : (exec (as ++ [.toggle id topic])).entry id topic =
      some (toggled ((exec as).entry id topic)) := by
    simp [exec_concat, step]
  have hupto : uptoToggle id topic (as ++ [.toggle id topic]) = as ++ [.toggle id topic] := by
    simp [uptoToggle]
  have hsince : contentsOf topic (sentSinceToggle id topic (as ++ [.toggle id topic])) = [] := by
    simp [sentSinceToggle, hupto]
  refine ⟨?_, ?_, ?_, ?_, ?_, ?_⟩
  · rw [hp, exec_concat]
    exact h.vector
  · rw [hupto]
  · intro hnone
    rw [he] at hnone
    cases hnone
  · intro e hent
    obtain rfl := Option.some.inj (he.symm.trans hent)
    rw [List.count_append, List.count_singleton_self, Nat.odd_add_one]
    cases hold : (exec as).entry id topic with
    | none => simp [toggled, (h.absent hold).1]
    | some e =>
      rw [← h.parity e hold]
      cases hb : e.isSubscribed <;> simp [toggled, hb]
  · intro e hent hsub
    obtain rfl := Option.some.inj (he.symm.trans hent)
    rw [toggled_isReadUpTo hsub, hsince]
    exact ⟨Nat.zero_le _, rfl⟩
  · intro e hent hsub
    exact hsince

private theorem Period.pass (h : Period id topic as) : Period id topic (as ++ [.pass id]) := by
  have hp : publishedIn topic (as ++ [.pass id]) = publishedIn topic as := by
    simp [publishedIn]
  apply h.extend (a := .pass id) (by simp) (passed (exec as) id) (settled (exec as) topic)
  · rw [exec_concat]
    exact handleSender_sent_self id (exec as)
  · rw [exec_concat, hp, ← h.vector]
    exact handleSender_published id (exec as) topic
  · rw [exec_concat]
    exact handleSender_entry_self id (exec as) topic
  · exact settled_isSubscribed (exec as)
  · exact contentsOf_passed_of_none id (exec as)
  · intro e hent hsub hle
    rw [← h.vector] at hle
    have hend := settled_isReadUpTo (exec as) e hsub hle
    rw [hp, hend, contentsOf_passed id _ hent, if_pos hsub, h.vector, List.take_append_drop,
      List.take_length]
    exact ⟨le_rfl, rfl⟩
  · intro e hent hsub
    rw [contentsOf_passed id _ hent, if_neg hsub]

end Step

private theorem period (id : UserId) (topic : Topic) (as : List Action) : Period id topic as := by
  induction as using List.reverseRecOn with
  | nil => constructor <;> simp [exec, publishedIn, uptoToggle, sentSinceToggle]
  | append_singleton as a ih =>
    cases a with
    | publish message => exact ih.publish message
    | toggle id' topic' =>
      by_cases hpair : id' = id ∧ topic' = topic
      · obtain ⟨rfl, rfl⟩ := hpair
        exact ih.toggle
      · apply ih.frame (a := .toggle id' topic')
        · rintro ⟨⟩
          exact hpair ⟨rfl, rfl⟩
        · rw [exec_concat]
          rfl
        · rw [exec_concat]
          simpa [publishedIn] using ih.vector
        · rw [exec_concat]
          exact handleReceiver_entry_of_ne id' topic' _ (not_and_or.mp hpair)
    | pass id' =>
      rcases eq_or_ne id' id with rfl | hid
      · exact ih.pass
      · apply ih.frame (a := .pass id') (by simp)
        · rw [exec_concat]
          exact handleSender_sent_of_ne id' _ hid
        · rw [exec_concat]
          simpa [publishedIn] using ih.vector
        · rw [exec_concat]
          exact handleSender_entry_of_ne id' _ hid topic

/-- While subscribed, a user has been sent exactly the first k contents ever published,
k being the stored cursor; while not, nothing. Every new subscription replays from the start. -/
theorem delivered_since_toggle (as : List Action) (id : UserId) (topic : Topic) :
    (Odd (as.count (.toggle id topic)) →
      ∃ k, (exec as).entry id topic = some ⟨true, k⟩ ∧ k ≤ (publishedIn topic as).length ∧
        contentsOf topic (sentSinceToggle id topic as) = (publishedIn topic as).take k) ∧
    (Even (as.count (.toggle id topic)) →
      contentsOf topic (sentSinceToggle id topic as) = []) := by
  have h := period id topic as
  constructor
  · intro hodd
    cases he : (exec as).entry id topic with
    | none => simp [(h.absent he).1] at hodd
    | some e =>
      have hsub : e.isSubscribed = true := (h.parity e he).mpr hodd
      refine ⟨e.isReadUpTo, ?_, h.reading e he hsub⟩
      rw [← hsub]
  · intro heven
    cases he : (exec as).entry id topic with
    | none => exact (h.absent he).2
    | some e =>
      apply h.silent e he
      rw [h.parity e he]
      exact Nat.not_odd_iff_even.mpr heven

/-- Two publications, a subscription with a pass, and a second subscription that replays. -/
example : let t : Topic := ['a']
    let as := [.publish ⟨t, ['x']⟩, .toggle 0 t, .pass 0, .publish ⟨t, ['y']⟩, .pass 0,
      .toggle 0 t, .toggle 0 t, .pass 0]
    contentsOf t ((exec as).sent 0) = [['x'], ['y'], ['x'], ['y']] := by
  decide +kernel

end NetworkProtocol.Broker
