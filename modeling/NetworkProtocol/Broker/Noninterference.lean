import NetworkProtocol.Library.Runs
import NetworkProtocol.Broker.Pass

/-! No user sees another. What the other users do, and what is published under topics a user
never toggles, can be taken out of a run without a trace in the user's stream and map. -/
namespace NetworkProtocol.Broker
open Std OrderedMap

/-- The user's own toggles and passes, and what is published under a topic the user toggles
somewhere in the run. -/
def concerns (id : UserId) (as : List Action) : Action → Bool
  | .publish message => .toggle id message.topic ∈ as
  | .toggle id' _ => id' = id
  | .pass id' => id' = id

def erase (id : UserId) (as : List Action) : List Action := as.filter (concerns id as)

/-- The two states agree on all that the user can come to see, as long as the user toggles
nothing but the given topics. -/
structure Alike (id : UserId) (topics : Topic → Prop) (s t : State) : Prop where
  published : ∀ topic, topics topic → s.published topic = t.published topic
  mine : s.userInformations[id]? = t.userInformations[id]?
  sent : s.sent id = t.sent id
  within : ∀ topic e, s.entry id topic = some e → topics topic

section Maps
variable {id : UserId} {s t : State}

private theorem value_of_getElem? (h : s.userInformations[id]? = t.userInformations[id]?) :
    value s.userInformations id = value t.userInformations id := by
  rw [value_eq_getD, value_eq_getD, h]

private theorem entry_of_getElem? (h : s.userInformations[id]? = t.userInformations[id]?)
    (topic : Topic) : s.entry id topic = t.entry id topic := by
  rw [State.entry, State.entry, value_of_getElem? h]

/-- A pass leaves its user with a map. -/
theorem handleSender_userInformations_self :
    (handleSender id s).userInformations[id]? =
      some (value (handleSender id s).userInformations id) := by
  obtain ⟨mine, hmine⟩ := Option.isSome_iff_exists.mp
    (ExtTreeMap.isSome_getElem?_iff_mem.mpr (handleSender_mem_userInformations id s))
  rw [value_eq_getD, hmine]
  rfl

end Maps

section Steps
variable {id : UserId} {topics : Topic → Prop} {s t : State}

private theorem Alike.entry (h : Alike id topics s t) (topic : Topic) :
    s.entry id topic = t.entry id topic := entry_of_getElem? h.mine topic

private theorem Alike.register (h : Alike id topics s t) (message : Message) :
    Alike id topics (registerMessage message s) (registerMessage message t) where
  published := by
    intro topic htopic
    rcases eq_or_ne message.topic topic with rfl | hne
    · rw [registerMessage_published_self, registerMessage_published_self, h.published _ htopic]
    · rw [registerMessage_published_of_ne _ _ hne, registerMessage_published_of_ne _ _ hne,
        h.published topic htopic]
  mine := by
    rw [registerMessage_userInformations, registerMessage_userInformations]
    exact h.mine
  sent := by
    rw [registerMessage_sent, registerMessage_sent]
    exact h.sent
  within := by
    intro topic e he
    rw [registerMessage_entry] at he
    exact h.within topic e he

private theorem Alike.registerElsewhere (h : Alike id topics s t) (message : Message)
    (hout : ¬ topics message.topic) : Alike id topics (registerMessage message s) t where
  published := by
    intro topic htopic
    have hne : message.topic ≠ topic := fun heq => hout (heq ▸ htopic)
    rw [registerMessage_published_of_ne _ _ hne, h.published topic htopic]
  mine := by
    rw [registerMessage_userInformations]
    exact h.mine
  sent := by
    rw [registerMessage_sent]
    exact h.sent
  within := by
    intro topic e he
    rw [registerMessage_entry] at he
    exact h.within topic e he

private theorem Alike.toggle (h : Alike id topics s t) {topic : Topic} (htopic : topics topic) :
    Alike id topics (handleReceiver id topic s) (handleReceiver id topic t) where
  published := h.published
  mine := by simp [handleReceiver, value_of_getElem? h.mine]
  sent := h.sent
  within := by
    intro topic' e he
    rcases handleReceiver_entry_cases id topic s he with ⟨-, rfl, -⟩ | ⟨-, he⟩
    · exact htopic
    · exact h.within topic' e he

private theorem Alike.toggleOther (h : Alike id topics s t) {other : UserId} (hne : other ≠ id)
    (topic : Topic) : Alike id topics (handleReceiver other topic s) t where
  published := h.published
  mine := by simpa [handleReceiver, ExtTreeMap.getElem?_insert, hne] using h.mine
  sent := h.sent
  within := by
    intro topic' e he
    rw [handleReceiver_entry_of_ne _ _ _ (.inl hne)] at he
    exact h.within topic' e he

private theorem Alike.passed (h : Alike id topics s t) : passed s id = passed t id := by
  have hentries : entries s id = entries t id := by
    rw [entries, entries, value_of_getElem? h.mine]
  rw [Broker.passed, Broker.passed, ← hentries]
  apply List.flatMap_congr
  rintro ⟨topic, e⟩ he
  have htopic := h.within topic e ((mem_entries id s topic e).mp he)
  simp only [pending, sends_eq, h.published topic htopic]

private theorem Alike.pass (h : Alike id topics s t) :
    Alike id topics (handleSender id s) (handleSender id t) where
  published := by
    intro topic htopic
    rw [handleSender_published, handleSender_published, h.published topic htopic]
  mine := by
    rw [handleSender_userInformations_self, handleSender_userInformations_self]
    congr 1
    apply ExtTreeMap.ext_getElem?
    intro topic
    have hs := handleSender_entry_self id s topic
    have ht := handleSender_entry_self id t topic
    rw [State.entry] at hs ht
    rw [hs, ht, ← h.entry topic]
    cases he : s.entry id topic with
    | none => rfl
    | some e => simp only [Option.map_some, settled, h.published topic (h.within topic e he)]
  sent := by rw [handleSender_sent_self, handleSender_sent_self, h.sent, h.passed]
  within := by
    intro topic e he
    rw [handleSender_entry_self] at he
    obtain ⟨e₀, he₀, -⟩ := Option.map_eq_some_iff.mp he
    exact h.within topic e₀ he₀

private theorem Alike.passOther (h : Alike id topics s t) {other : UserId} (hne : other ≠ id) :
    Alike id topics (handleSender other s) t where
  published := by
    intro topic htopic
    rw [handleSender_published, h.published topic htopic]
  mine := by
    rw [handleSender_userInformations_of_ne _ _ hne]
    exact h.mine
  sent := by
    rw [handleSender_sent_of_ne other s hne]
    exact h.sent
  within := by
    intro topic e he
    rw [handleSender_entry_of_ne other s hne] at he
    exact h.within topic e he

end Steps

/-- Every user sees of a run what is left of it when the others are erased. -/
theorem unseen_by_others (id : UserId) (as : List Action) :
    (exec (erase id as)).sent id = (exec as).sent id ∧
      (exec (erase id as)).userInformations[id]? = (exec as).userInformations[id]? := by
  have halike : Alike id (fun topic => .toggle id topic ∈ as) (exec as) (exec (erase id as)) := by
    refine Runs.related_erased step (concerns id as) as ?_ ?_
      ⟨fun _ _ => rfl, rfl, rfl, fun topic e he => by simp at he⟩
    · intro a ha s t h hkept
      cases a with
      | publish message => exact h.register message
      | toggle other topic =>
        obtain rfl : other = id := by simpa [concerns] using hkept
        exact h.toggle ha
      | pass other =>
        obtain rfl : other = id := by simpa [concerns] using hkept
        exact h.pass
    · intro a ha s t h hkept
      cases a with
      | publish message => exact h.registerElsewhere message (by simpa [concerns] using hkept)
      | toggle other topic => exact h.toggleOther (by simpa [concerns] using hkept) topic
      | pass other => exact h.passOther (by simpa [concerns] using hkept)
  exact ⟨halike.sent.symm, halike.mine.symm⟩

end NetworkProtocol.Broker
