import NetworkProtocol.Broker.Model

/-! What one locked scan of handle_sender does, topic by topic: the inner loop is a
suffix of the topic's vector, and no entry is written but the one being read. -/
namespace NetworkProtocol.Broker
open Std OrderedMap

def contentsOf (topic : Topic) (stream : List Message) : List Contents :=
  (stream.filter (·.topic = topic)).map (·.contents)

@[simp] theorem contentsOf_nil (topic : Topic) : contentsOf topic [] = [] := rfl

@[simp] theorem contentsOf_append (topic : Topic) (a b : List Message) :
    contentsOf topic (a ++ b) = contentsOf topic a ++ contentsOf topic b := by
  simp [contentsOf]

def pending (s : State) (copied : Topic × Subscription) : List Message :=
  if copied.2.isSubscribed then sends s copied.1 copied.2.isReadUpTo else []

def settled (s : State) (topic : Topic) (e : Subscription) : Subscription :=
  if e.isSubscribed ∧ e.isReadUpTo < (s.published topic).length then
    { e with isReadUpTo := (s.published topic).length }
  else e

section Settled
variable (s : State) {topic : Topic} (e : Subscription)

@[simp] theorem settled_isSubscribed :
    (settled s topic e).isSubscribed = e.isSubscribed := by
  unfold settled
  split <;> rfl

/-- A subscribed entry ends at the size of its topic. -/
theorem settled_isReadUpTo (hsub : e.isSubscribed)
    (hle : e.isReadUpTo ≤ (s.published topic).length) :
    (settled s topic e).isReadUpTo = (s.published topic).length := by
  unfold settled
  split
  · rfl
  · rename_i hstop
    exact Nat.le_antisymm hle (Nat.le_of_not_lt fun hlt => hstop ⟨hsub, hlt⟩)

/-- A settled cursor stands inside its vector. -/
theorem settled_isReadUpTo_le (hle : e.isReadUpTo ≤ (s.published topic).length) :
    (settled s topic e).isReadUpTo ≤ (s.published topic).length := by
  unfold settled
  split
  · exact le_rfl
  · exact hle

end Settled

/-- The loop over i is the suffix of the vector from the cursor on. -/
theorem sends_eq (s : State) (topic : Topic) (cursor : Nat) :
    sends s topic cursor = ((s.published topic).drop cursor).map (⟨topic, ·⟩) := by
  apply List.ext_getElem
  · simp [sends]
  · intro i hi hi'
    have hlt : cursor + i < (s.published topic).length := by
      simp [sends] at hi
      omega
    simp [sends, List.getElem?_eq_getElem hlt]

private theorem contentsOf_sends_self (s : State) (topic : Topic) (cursor : Nat) :
    contentsOf topic (sends s topic cursor) = (s.published topic).drop cursor := by
  rw [sends_eq, contentsOf, List.filter_map, List.map_map]
  simp [Function.comp_def]

private theorem contentsOf_sends_of_ne (s : State) {topic other : Topic} (cursor : Nat)
    (h : topic ≠ other) : contentsOf other (sends s topic cursor) = [] := by
  rw [sends_eq, contentsOf, List.filter_map]
  simp [Function.comp_def, h]

section ScanEntry
variable (id : UserId) (s : State) (copied : Topic × Subscription)

/-- One turn of the loop body, split on whether anything is left to send. -/
theorem scanEntry_cases :
    ((copied.2.isSubscribed ∧ copied.2.isReadUpTo < (s.published copied.1).length) ∧
      scanEntry id s copied = setReadUpTo id copied.1 (s.published copied.1).length
        { s with
          topics := touch s.topics copied.1
          sent := Function.update s.sent id (s.sent id ++ pending s copied) }) ∨
    (¬ (copied.2.isSubscribed ∧ copied.2.isReadUpTo < (s.published copied.1).length) ∧
      pending s copied = [] ∧ (scanEntry id s copied).userInformations = s.userInformations ∧
      (scanEntry id s copied).sent = s.sent ∧
      ∀ topic, (scanEntry id s copied).published topic = s.published topic) := by
  obtain ⟨topic, information⟩ := copied
  have hpub : ({ s with topics := touch s.topics topic } : State).published topic =
      s.published topic := value_touch _ _ _
  by_cases hsub : information.isSubscribed = true
  · by_cases hlt : information.isReadUpTo < (s.published topic).length
    · refine .inl ⟨⟨hsub, hlt⟩, ?_⟩
      simp [scanEntry, pending, sends, hsub, hpub, hlt]
    · refine .inr ⟨fun h => hlt h.2, ?_, ?_, ?_, ?_⟩
      · simp only [pending, hsub, if_true, sends_eq]
        simp [List.drop_eq_nil_of_le (Nat.le_of_not_lt hlt)]
      · simp [scanEntry, hsub, hpub, hlt]
      · simp [scanEntry, hsub, hpub, hlt]
      · intro t
        have he : scanEntry id s (topic, information) =
            { s with topics := touch s.topics topic } := by
          simp [scanEntry, hsub, hpub, hlt]
        rw [he]
        exact value_touch _ _ _
  · refine .inr ⟨fun h => hsub h.1, ?_, ?_, ?_, ?_⟩ <;> simp [scanEntry, pending, hsub]

@[simp] theorem scanEntry_published (topic : Topic) :
    (scanEntry id s copied).published topic = s.published topic := by
  obtain ⟨-, he⟩ | ⟨-, -, -, -, he⟩ := scanEntry_cases id s copied
  · simp [he, setReadUpTo, State.published]
  · exact he topic

private theorem scanEntry_sent_self :
    (scanEntry id s copied).sent id = s.sent id ++ pending s copied := by
  obtain ⟨-, he⟩ | ⟨-, hp, -, he, -⟩ := scanEntry_cases id s copied
  · simp [he, setReadUpTo]
  · simp [he, hp]

private theorem scanEntry_sent_of_ne {other : UserId} (h : id ≠ other) :
    (scanEntry id s copied).sent other = s.sent other := by
  obtain ⟨-, he⟩ | ⟨-, -, -, he, -⟩ := scanEntry_cases id s copied
  · simp [he, setReadUpTo, Function.update_of_ne (Ne.symm h)]
  · rw [he]

private theorem scanEntry_entry_of_ne {other : UserId} {topic : Topic}
    (h : id ≠ other ∨ copied.1 ≠ topic) :
    (scanEntry id s copied).entry other topic = s.entry other topic := by
  obtain ⟨-, he⟩ | ⟨-, -, he, -, -⟩ := scanEntry_cases id s copied
  · rw [he, setReadUpTo_entry_of_ne _ _ _ _ h]
    rfl
  · simp [State.entry, he]

private theorem scanEntry_entry_self (h : s.entry id copied.1 = some copied.2) :
    (scanEntry id s copied).entry id copied.1 = some (settled s copied.1 copied.2) := by
  obtain ⟨hlt, he⟩ | ⟨hlt, -, he, -, -⟩ := scanEntry_cases id s copied
  · rw [he, setReadUpTo_entry_self, settled, if_pos hlt]
    exact congrArg (fun found : Option Subscription =>
      some { found.getD default with isReadUpTo := (s.published copied.1).length }) h
  · simpa only [State.entry, he, settled, if_neg hlt] using h

private theorem scanEntry_userInformations_of_ne {other : UserId} (h : id ≠ other) :
    (scanEntry id s copied).userInformations[other]? = s.userInformations[other]? := by
  obtain ⟨-, he⟩ | ⟨-, -, he, -, -⟩ := scanEntry_cases id s copied
  · rw [he]
    exact getElem?_modify_of_ne _ _ h
  · rw [he]

private theorem scanEntry_mem_userInformations (h : id ∈ s.userInformations) :
    id ∈ (scanEntry id s copied).userInformations := by
  obtain ⟨-, he⟩ | ⟨-, -, he, -, -⟩ := scanEntry_cases id s copied
  · rw [he]
    exact ExtTreeMap.mem_insert_self
  · rwa [he]

end ScanEntry

section Scan
variable (id : UserId) (entries : List (Topic × Subscription)) (s : State)

private theorem scan_published (topic : Topic) :
    (entries.foldl (scanEntry id) s).published topic = s.published topic := by
  induction entries generalizing s with
  | nil => rfl
  | cons e entries ih => simp [ih]

private theorem scan_sent_self :
    (entries.foldl (scanEntry id) s).sent id = s.sent id ++ entries.flatMap (pending s) := by
  induction entries generalizing s with
  | nil => simp
  | cons e entries ih =>
    have hp : pending (scanEntry id s e) = pending s := by
      funext x
      simp [pending, sends]
    rw [List.foldl_cons, ih, hp, scanEntry_sent_self, List.flatMap_cons, List.append_assoc]

private theorem scan_sent_of_ne {other : UserId} (h : id ≠ other) :
    (entries.foldl (scanEntry id) s).sent other = s.sent other := by
  induction entries generalizing s with
  | nil => rfl
  | cons e entries ih => rw [List.foldl_cons, ih, scanEntry_sent_of_ne id s e h]

private theorem scan_entry_of_ne {other : UserId} {topic : Topic}
    (h : id ≠ other ∨ ∀ e ∈ entries, e.1 ≠ topic) :
    (entries.foldl (scanEntry id) s).entry other topic = s.entry other topic := by
  induction entries generalizing s with
  | nil => rfl
  | cons e entries ih =>
    have hhead : id ≠ other ∨ e.1 ≠ topic := h.imp_right (fun h => h e List.mem_cons_self)
    have htail : id ≠ other ∨ ∀ e' ∈ entries, e'.1 ≠ topic :=
      h.imp_right (fun h e' he' => h e' (List.mem_cons_of_mem e he'))
    rw [List.foldl_cons, ih _ htail, scanEntry_entry_of_ne id s e hhead]

private theorem scan_entry_self (hd : entries.Pairwise (fun a b => a.1 ≠ b.1))
    {e : Topic × Subscription} (he : e ∈ entries) (h : s.entry id e.1 = some e.2) :
    (entries.foldl (scanEntry id) s).entry id e.1 = some (settled s e.1 e.2) := by
  induction entries generalizing s with
  | nil => simp at he
  | cons a entries ih =>
    obtain ⟨ha, hd⟩ := List.pairwise_cons.mp hd
    rw [List.foldl_cons]
    rcases List.mem_cons.mp he with rfl | he
    · rw [scan_entry_of_ne id entries _ (.inr fun b hb => (ha b hb).symm)]
      exact scanEntry_entry_self id s e h
    · have hkeep : (scanEntry id s a).entry id e.1 = some e.2 := by
        rw [scanEntry_entry_of_ne id s a (.inr (ha e he)), h]
      have hs : settled (scanEntry id s a) e.1 e.2 = settled s e.1 e.2 := by simp [settled]
      rw [ih _ hd he hkeep, hs]

private theorem scan_userInformations_of_ne {other : UserId} (h : id ≠ other) :
    (entries.foldl (scanEntry id) s).userInformations[other]? = s.userInformations[other]? := by
  induction entries generalizing s with
  | nil => rfl
  | cons e entries ih => rw [List.foldl_cons, ih, scanEntry_userInformations_of_ne id s e h]

private theorem scan_mem_userInformations (h : id ∈ s.userInformations) :
    id ∈ (entries.foldl (scanEntry id) s).userInformations := by
  induction entries generalizing s with
  | nil => exact h
  | cons e entries ih => exact ih _ (scanEntry_mem_userInformations id s e h)

end Scan

section Sender
variable (id : UserId) (s : State)

def entries (s : State) (id : UserId) : List (Topic × Subscription) :=
  (value s.userInformations id).toList

private theorem entries_distinct : (entries s id).Pairwise (fun a b => a.1 ≠ b.1) := by
  have h := (value s.userInformations id).distinct_keys_toList
  simpa [entries] using h

/-- The entries are what the map has under the user. -/
theorem mem_entries (topic : Topic) (e : Subscription) :
    (topic, e) ∈ entries s id ↔ s.entry id topic = some e :=
  ExtTreeMap.mem_toList_iff_getElem?_eq_some

/-- The pass is a fold over the entries. -/
theorem handleSender_eq : handleSender id s = (entries s id).foldl (scanEntry id)
    { s with userInformations := touch s.userInformations id } := by
  simp [handleSender, entries]

private theorem touched_entry (other : UserId) (topic : Topic) :
    ({ s with userInformations := touch s.userInformations id } : State).entry other topic =
      s.entry other topic := by
  simp [State.entry]

@[simp] theorem handleSender_published (topic : Topic) :
    (handleSender id s).published topic = s.published topic := by
  rw [handleSender_eq, scan_published]
  rfl

/-- Everything one pass for the user sends, entry by entry in key order. -/
def passed (s : State) (id : UserId) : List Message := (entries s id).flatMap (pending s)

/-- The user is sent what the pass has copied. -/
theorem handleSender_sent_self : (handleSender id s).sent id = s.sent id ++ passed s id := by
  rw [handleSender_eq, scan_sent_self]
  rfl

/-- Nobody else is sent anything. -/
theorem handleSender_sent_of_ne {other : UserId} (h : id ≠ other) :
    (handleSender id s).sent other = s.sent other := by
  rw [handleSender_eq, scan_sent_of_ne id _ _ h]

/-- Nobody else's cursors move. -/
theorem handleSender_entry_of_ne {other : UserId} (h : id ≠ other) (topic : Topic) :
    (handleSender id s).entry other topic = s.entry other topic := by
  rw [handleSender_eq, scan_entry_of_ne id _ _ (.inl h), touched_entry]

/-- A pass leaves the other users' maps alone. -/
theorem handleSender_userInformations_of_ne {other : UserId} (h : id ≠ other) :
    (handleSender id s).userInformations[other]? = s.userInformations[other]? := by
  rw [handleSender_eq, scan_userInformations_of_ne id _ _ h]
  exact (getElem?_touch s.userInformations id other).resolve_right (fun hnew => h hnew.1)

/-- A pass leaves its user with a map. -/
theorem handleSender_mem_userInformations : id ∈ (handleSender id s).userInformations := by
  rw [handleSender_eq]
  exact scan_mem_userInformations id _ _ (mem_touch_self _ _)

/-- A pass settles every entry of its user and touches no flag. -/
theorem handleSender_entry_self (topic : Topic) :
    (handleSender id s).entry id topic = (s.entry id topic).map (settled s topic) := by
  rw [handleSender_eq]
  cases h : s.entry id topic with
  | none =>
    have hnot : ∀ e ∈ entries s id, e.1 ≠ topic := by
      rintro ⟨t, e⟩ he rfl
      rw [mem_entries, h] at he
      cases he
    rw [scan_entry_of_ne id _ _ (.inr hnot), touched_entry, h]
    rfl
  | some e =>
    exact scan_entry_self id _ _ (entries_distinct id s) ((mem_entries id s topic e).mpr h)
      ((touched_entry id s id topic).trans h)

/-- An entry found after a pass is a settled one of its user or another user's. -/
theorem handleSender_entry_cases {other : UserId} {topic : Topic} {e : Subscription}
    (h : (handleSender id s).entry other topic = some e) :
    (id = other ∧ ∃ e₀, s.entry id topic = some e₀ ∧ e = settled s topic e₀) ∨
      (id ≠ other ∧ s.entry other topic = some e) := by
  rcases eq_or_ne id other with rfl | hne
  · rw [handleSender_entry_self] at h
    obtain ⟨e₀, he₀, rfl⟩ := Option.map_eq_some_iff.mp h
    exact .inl ⟨rfl, e₀, he₀, rfl⟩
  · exact .inr ⟨hne, (handleSender_entry_of_ne id s hne topic).symm.trans h⟩

private theorem contentsOf_pending_of_ne {topic : Topic} (copied : Topic × Subscription)
    (h : copied.1 ≠ topic) : contentsOf topic (pending s copied) = [] := by
  unfold pending
  split
  · exact contentsOf_sends_of_ne s _ h
  · rfl

private theorem contentsOf_flatMap_of_ne {topic : Topic} (l : List (Topic × Subscription))
    (h : ∀ x ∈ l, x.1 ≠ topic) : contentsOf topic (l.flatMap (pending s)) = [] := by
  induction l with
  | nil => rfl
  | cons x l ih =>
    rw [List.flatMap_cons, contentsOf_append,
      contentsOf_pending_of_ne s x (h x List.mem_cons_self),
      ih (fun y hy => h y (List.mem_cons_of_mem x hy)), List.append_nil]

private theorem contentsOf_flatMap {topic : Topic} {e : Subscription}
    (l : List (Topic × Subscription)) (hd : l.Pairwise (fun a b => a.1 ≠ b.1))
    (he : (topic, e) ∈ l) : contentsOf topic (l.flatMap (pending s)) =
      if e.isSubscribed then (s.published topic).drop e.isReadUpTo else [] := by
  induction l with
  | nil => simp at he
  | cons a l ih =>
    obtain ⟨ha, hd⟩ := List.pairwise_cons.mp hd
    rw [List.flatMap_cons, contentsOf_append]
    rcases List.mem_cons.mp he with rfl | he
    · rw [contentsOf_flatMap_of_ne s l (fun x hx => (ha x hx).symm), List.append_nil]
      unfold pending
      split
      · exact contentsOf_sends_self s topic _
      · rfl
    · rw [contentsOf_pending_of_ne s a (ha _ he), ih hd he, List.nil_append]

/-- Topic by topic, a pass sends what lies past the cursor of a subscribed entry. -/
theorem contentsOf_passed {topic : Topic} {e : Subscription} (h : s.entry id topic = some e) :
    contentsOf topic (passed s id) =
      if e.isSubscribed then (s.published topic).drop e.isReadUpTo else [] :=
  contentsOf_flatMap s _ (entries_distinct id s) ((mem_entries id s topic e).mpr h)

/-- Nothing is copied of a topic without an entry. -/
theorem contentsOf_passed_of_none {topic : Topic} (h : s.entry id topic = none) :
    contentsOf topic (passed s id) = [] := by
  apply contentsOf_flatMap_of_ne
  rintro ⟨t, e⟩ he rfl
  rw [mem_entries, h] at he
  cases he

end Sender

end NetworkProtocol.Broker
