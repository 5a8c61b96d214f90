import NetworkProtocol.Broker.Scan

/-! Which interleavings with a scan mark a message read that the current subscription was
never sent, and that no others do. -/
namespace NetworkProtocol.Broker.Scan
open Std OrderedMap

/-- No message of a current subscription is marked read without having been sent in it. -/
def CursorBacked (m : Machine) : Prop :=
  ∀ id topic e, m.broker.entry id topic = some e → e.isSubscribed →
    ∀ k < e.isReadUpTo, k ∈ m.delivered id topic

def Subscribed (m : Machine) (id : UserId) (topic : Topic) : Prop :=
  ∃ e, m.broker.entry id topic = some e ∧ e.isSubscribed

/-- A publication must not reach a topic whose cursor is about to be written for a subscriber,
nor one whose copied cursor has gone stale and still equals the size. A toggle must not
subscribe anew to a topic on which the scan has got past index 0. -/
def Undisturbed (m : Machine) : Action → Prop
  | .publish message =>
    match m.holder with
    | some ⟨id, .leave topic⟩ => message.topic = topic → ¬ Subscribed m id topic
    | some ⟨id, .check topic isReadUpTo⟩ => message.topic = topic →
      isReadUpTo < m.size topic ∨
      ∀ e, m.broker.entry id topic = some e → e.isSubscribed → e.isReadUpTo = isReadUpTo
    | _ => True
  | .toggle id topic =>
    (toggled (m.broker.entry id topic)).isSubscribed →
    match m.holder with
    | some ⟨id', .check topic' isReadUpTo⟩ => id' = id → topic' = topic →
      isReadUpTo = 0 ∨ m.size topic' ≤ isReadUpTo
    | some ⟨id', .loop topic' i⟩ => id' = id → topic' = topic → i = 0
    | some ⟨id', .leave topic'⟩ => id' = id → topic' ≠ topic
    | _ => True
  | _ => True

/-- What the copied cursor and the loop counter still promise at each point of the scan. -/
def Promise (m : Machine) (id : UserId) : Phase → Prop
  | .next _ => True
  | .check topic isReadUpTo => isReadUpTo ≤ m.size topic ∧
    ∀ e, m.broker.entry id topic = some e → e.isSubscribed → e.isReadUpTo = isReadUpTo ∨
      (m.size topic ≤ isReadUpTo ∧ 0 < isReadUpTo ∧ 0 ∉ m.delivered id topic)
  | .loop topic i => 0 < m.size topic ∧
    (Subscribed m id topic → ∀ k < i, k ∈ m.delivered id topic)
  | .leave topic => 0 < m.size topic ∧
    (Subscribed m id topic → ∀ k < m.size topic, k ∈ m.delivered id topic)

structure Inv (m : Machine) : Prop where
  backed : CursorBacked m
  cursor : ∀ id topic e, m.broker.entry id topic = some e → e.isReadUpTo ≤ m.size topic
  sent : ∀ id topic, ∀ k ∈ m.delivered id topic, k < m.size topic
  promise : ∀ h, m.holder = some h → Promise m h.id h.phase

/-- At the start no cursor stands anywhere. -/
theorem inv_init : Inv {} where
  backed := by
    intro id topic e he
    simp at he
  cursor := by
    intro id topic e he
    simp at he
  sent := by simp
  promise := nofun

section Record
variable (m : Machine) (id : UserId) (topic : Topic) (indices : List Nat)

@[simp] theorem record_self : m.record id topic indices id topic = indices := by
  simp [Machine.record]

private theorem record_of_ne {id' : UserId} {topic' : Topic} (h : id ≠ id' ∨ topic ≠ topic') :
    m.record id topic indices id' topic' = m.delivered id' topic' := by
  unfold Machine.record
  rcases eq_or_ne id id' with rfl | hid
  · simp [Function.update_of_ne (Ne.symm (h.resolve_left (not_not_intro rfl)))]
  · rw [Function.update_of_ne (Ne.symm hid)]

end Record

private def publishedMachine (m : Machine) (message : Message) : Machine :=
  { m with broker := registerMessage message m.broker }

private theorem size_publish (m : Machine) (message : Message) (topic : Topic) :
    (publishedMachine m message).size topic =
      if message.topic = topic then m.size topic + 1 else m.size topic := by
  rcases eq_or_ne message.topic topic with rfl | ht
  · simp [publishedMachine, Machine.size]
  · simp [publishedMachine, Machine.size, ht, registerMessage_published_of_ne message _ ht]

private theorem publish_subscribed {m : Machine} (message : Message) (id : UserId) (topic : Topic) :
    Subscribed (publishedMachine m message) id topic ↔ Subscribed m id topic := by
  simp [Subscribed, publishedMachine]

private theorem size_le_publish (m : Machine) (message : Message) (topic : Topic) :
    m.size topic ≤ (publishedMachine m message).size topic := by
  rw [size_publish]
  split <;> omega

private theorem promise_publish {m : Machine} (hm : Inv m) (message : Message)
    (hok : Undisturbed m (.publish message)) (h : Holder) (hh : m.holder = some h) :
    Promise (publishedMachine m message) h.id h.phase := by
  obtain ⟨id, phase⟩ := h
  have hp := hm.promise _ hh
  simp only [Undisturbed, hh] at hok
  cases phase with
  | next seen => trivial
  | check topic c =>
    obtain ⟨hle, hstored⟩ := hp
    refine ⟨hle.trans (size_le_publish m message topic), fun e he hsub => ?_⟩
    have he' : m.broker.entry id topic = some e := by simpa [publishedMachine] using he
    by_cases ht : message.topic = topic
    · rcases hok ht with hlt | hcopy
      · rcases hstored e he' hsub with heq | ⟨hge, -, -⟩
        · exact .inl heq
        · exact absurd hlt (Nat.not_lt.mpr hge)
      · exact .inl (hcopy e he' hsub)
    · rw [size_publish, if_neg ht]
      exact hstored e he' hsub
  | loop topic i =>
    refine ⟨hp.1.trans_le (size_le_publish m message topic), fun hsub => hp.2 ?_⟩
    exact (publish_subscribed message id topic).mp hsub
  | leave topic =>
    refine ⟨hp.1.trans_le (size_le_publish m message topic), fun hsub => ?_⟩
    have hsub' := (publish_subscribed message id topic).mp hsub
    rw [size_publish, if_neg (fun ht => hok ht hsub')]
    exact hp.2 hsub'

private theorem keep_publish {m : Machine} (hm : Inv m) (message : Message)
    (hok : Undisturbed m (.publish message)) : Inv (publishedMachine m message) := by
  refine ⟨?_, ?_, ?_, promise_publish hm message hok⟩
  · intro id topic e he
    exact hm.backed id topic e (by simpa [publishedMachine] using he)
  · intro id topic e he
    have he' : m.broker.entry id topic = some e := by simpa [publishedMachine] using he
    exact (hm.cursor id topic e he').trans (size_le_publish m message topic)
  · intro id topic k hk
    exact (hm.sent id topic k hk).trans_le (size_le_publish m message topic)

section Toggle
variable (m : Machine) (id : UserId) (topic : Topic)

private def toggledMachine : Machine :=
  { m with
    broker := handleReceiver id topic m.broker
    delivered := if (toggled (m.broker.entry id topic)).isSubscribed
      then m.record id topic [] else m.delivered }

private theorem toggle_delivered_of_ne {id' : UserId} {topic' : Topic}
    (h : id ≠ id' ∨ topic ≠ topic') :
    (toggledMachine m id topic).delivered id' topic' = m.delivered id' topic' := by
  unfold toggledMachine
  split
  · exact record_of_ne m id topic [] h
  · rfl

private theorem toggle_delivered_self (h : (toggled (m.broker.entry id topic)).isSubscribed) :
    (toggledMachine m id topic).delivered id topic = [] := by
  simp [toggledMachine, h]

private theorem toggle_entry_self : (toggledMachine m id topic).broker.entry id topic =
    some (toggled (m.broker.entry id topic)) := handleReceiver_entry_self id topic m.broker

private theorem toggle_cases {id' : UserId} {topic' : Topic} {e : Subscription}
    (h : (toggledMachine m id topic).broker.entry id' topic' = some e) (hsub : e.isSubscribed) :
    (id = id' ∧ topic = topic' ∧ (toggled (m.broker.entry id topic)).isSubscribed ∧
        e.isReadUpTo = 0 ∧ (toggledMachine m id topic).delivered id' topic' = []) ∨
      (m.broker.entry id' topic' = some e ∧
        (toggledMachine m id topic).delivered id' topic' = m.delivered id' topic') := by
  obtain ⟨rfl, rfl, rfl⟩ | ⟨hne, hold⟩ := handleReceiver_entry_cases id topic m.broker h
  · exact .inl ⟨rfl, rfl, hsub, toggled_isReadUpTo hsub, toggle_delivered_self m id topic hsub⟩
  · exact .inr ⟨hold, toggle_delivered_of_ne m id topic hne⟩

end Toggle

private theorem promise_toggle {m : Machine} (hm : Inv m) (id : UserId) (topic : Topic)
    (hok : Undisturbed m (.toggle id topic)) (h : Holder) (hh : m.holder = some h) :
    Promise (toggledMachine m id topic) h.id h.phase := by
  obtain ⟨id', phase⟩ := h
  have hp := hm.promise _ hh
  simp only [Undisturbed, hh] at hok
  cases phase with
  | next seen => trivial
  | check topic' c =>
    refine ⟨hp.1, fun e he hsub => ?_⟩
    obtain ⟨rfl, rfl, hnew, hzero, hnil⟩ | ⟨hold, hdelivered⟩ := toggle_cases m id topic he hsub
    · rw [hzero, hnil]
      rcases hok hnew rfl rfl with rfl | hge
      · exact .inl rfl
      · rcases Nat.eq_zero_or_pos c with rfl | hpos
        · exact .inl rfl
        · exact .inr ⟨hge, hpos, List.not_mem_nil⟩
    · rw [hdelivered]
      exact hp.2 e hold hsub
  | loop topic' i =>
    refine ⟨hp.1, ?_⟩
    rintro ⟨e, he, hsub⟩
    obtain ⟨rfl, rfl, hnew, -, -⟩ | ⟨hold, hdelivered⟩ := toggle_cases m id topic he hsub
    · simp [hok hnew rfl rfl]
    · rw [hdelivered]
      exact hp.2 ⟨e, hold, hsub⟩
  | leave topic' =>
    refine ⟨hp.1, ?_⟩
    rintro ⟨e, he, hsub⟩
    obtain ⟨rfl, rfl, hnew, -, -⟩ | ⟨hold, hdelivered⟩ := toggle_cases m id topic he hsub
    · exact absurd rfl (hok hnew rfl)
    · rw [hdelivered]
      exact hp.2 ⟨e, hold, hsub⟩

private theorem keep_toggle {m : Machine} (hm : Inv m) (id : UserId) (topic : Topic)
    (hok : Undisturbed m (.toggle id topic)) : Inv (toggledMachine m id topic) := by
  refine ⟨?_, ?_, ?_, promise_toggle hm id topic hok⟩
  · intro id' topic' e he hsub
    obtain ⟨-, -, -, hzero, -⟩ | ⟨hold, hdelivered⟩ := toggle_cases m id topic he hsub
    · simp [hzero]
    · rw [hdelivered]
      exact hm.backed id' topic' e hold hsub
  · intro id' topic' e he
    obtain ⟨rfl, rfl, rfl⟩ | ⟨-, hold⟩ := handleReceiver_entry_cases id topic m.broker he
    · exact toggled_isReadUpTo_le (hm.cursor id topic)
    · exact hm.cursor id' topic' e hold
  · intro id' topic' k hk
    by_cases hpair : id = id' ∧ topic = topic'
    · obtain ⟨rfl, rfl⟩ := hpair
      by_cases hsub : (toggled (m.broker.entry id topic)).isSubscribed
      · simp [toggle_delivered_self m id topic hsub] at hk
      · simp only [toggledMachine, hsub, Bool.false_eq_true, if_false] at hk
        exact hm.sent id topic k hk
    · rw [toggle_delivered_of_ne m id topic (not_and_or.mp hpair)] at hk
      exact hm.sent id' topic' k hk

private theorem Inv.move {m m' : Machine} (hm : Inv m)
    (he : ∀ id topic, m'.broker.entry id topic = m.broker.entry id topic)
    (hs : ∀ topic, m'.size topic = m.size topic) (hd : m'.delivered = m.delivered)
    (hp : ∀ h, m'.holder = some h → Promise m h.id h.phase) : Inv m' := by
  refine ⟨?_, ?_, ?_, ?_⟩
  · intro id topic e hent
    rw [hd]
    exact hm.backed id topic e (he id topic ▸ hent)
  · intro id topic e hent
    rw [hs]
    exact hm.cursor id topic e (he id topic ▸ hent)
  · intro id topic k hk
    rw [hs]
    exact hm.sent id topic k (hd ▸ hk)
  · rintro ⟨id, phase⟩ hh
    have hold := hp _ hh
    cases phase with
    | next => trivial
    | check => simpa only [Promise, he, hs, hd] using hold
    | loop => simpa only [Promise, Subscribed, he, hs, hd] using hold
    | leave => simpa only [Promise, Subscribed, he, hs, hd] using hold

private theorem Inv.hold {m : Machine} (hm : Inv m) {holder : Option Holder}
    (hp : ∀ h, holder = some h → Promise m h.id h.phase) : Inv { m with holder := holder } :=
  hm.move (fun _ _ => rfl) (fun _ => rfl) rfl hp

private theorem keep_wake {m : Machine} (hm : Inv m) (id : UserId) {m' : Machine}
    (hstep : step m (.wake id) = some m') : Inv m' := by
  cases hh : m.holder with
  | some h => simp [step, hh] at hstep
  | none =>
    simp only [step, hh] at hstep
    obtain rfl := Option.some.inj hstep
    apply hm.move
    · intro id topic
      simp [State.entry]
    · exact fun _ => rfl
    · rfl
    · intro h hh
      obtain rfl := Option.some.inj hh
      trivial

/-- The entry an iterator moves to is an entry of the map. -/
theorem entryAfter_mem {m : Machine} {id : UserId} {seen : Option Topic} {topic : Topic}
    {e : Subscription}
    (h : entryAfter (value m.broker.userInformations id) seen = some (topic, e)) :
    m.broker.entry id topic = some e :=
  mem_remaining (List.mem_of_head? h)

private theorem keep_next {m : Machine} (hm : Inv m) {id : UserId} {seen : Option Topic} :
    Inv (m.copyNext id seen) := by
  unfold Machine.copyNext
  split
  · exact hm.hold nofun
  · rename_i topic e hnext
    have hent := entryAfter_mem hnext
    split
    · apply hm.hold
      intro h hh
      obtain rfl := Option.some.inj hh
      refine ⟨hm.cursor id topic e hent, fun e' he' _ => .inl ?_⟩
      rw [Option.some.inj (he'.symm.trans hent)]
    · apply hm.hold
      intro h hh
      obtain rfl := Option.some.inj hh
      trivial

private theorem keep_check {m : Machine} (hm : Inv m) {id : UserId} {topic : Topic} {c : Nat}
    (hp : Promise m id (.check topic c)) : Inv (m.testUnread id topic c) := by
  have hsize : ∀ t, (value (touch m.broker.topics topic) t).length = m.size t := by
    intro t
    rw [value_touch]
    rfl
  unfold Machine.testUnread
  dsimp only
  split
  · rename_i hlt
    apply hm.move
    · exact fun _ _ => rfl
    · exact hsize
    · rfl
    · intro h hh
      obtain rfl := Option.some.inj hh
      refine ⟨Nat.zero_lt_of_lt hlt, ?_⟩
      rintro ⟨e, he, hsub⟩
      rcases hp.2 e he hsub with rfl | ⟨hge, -, -⟩
      · exact hm.backed id topic e he hsub
      · exact absurd hlt (Nat.not_lt.mpr hge)
  · apply hm.move
    · exact fun _ _ => rfl
    · exact hsize
    · rfl
    · intro h hh
      obtain rfl := Option.some.inj hh
      trivial

private theorem keep_loop {m : Machine} (hm : Inv m) {id : UserId} {topic : Topic} {i : Nat}
    (hp : Promise m id (.loop topic i)) : Inv (m.testLoop id topic i) := by
  unfold Machine.testLoop
  split
  · rename_i hlt
    -- sending index i adds it to the history of this pair and to no other
    have hgrow : ∀ id' topic', m.delivered id' topic' ⊆
        m.record id topic (m.delivered id topic ++ [i]) id' topic' := by
      intro id' topic'
      by_cases hpair : id = id' ∧ topic = topic'
      · obtain ⟨rfl, rfl⟩ := hpair
        simp
      · rw [record_of_ne m id topic _ (not_and_or.mp hpair)]
        exact List.Subset.refl _
    refine ⟨?_, ?_, ?_, ?_⟩
    · intro id' topic' e he hsub k hk
      exact hgrow id' topic' (hm.backed id' topic' e he hsub k hk)
    · exact hm.cursor
    · intro id' topic' k hk
      dsimp only at hk
      by_cases hpair : id = id' ∧ topic = topic'
      · obtain ⟨rfl, rfl⟩ := hpair
        rw [record_self, List.mem_append, List.mem_singleton] at hk
        rcases hk with hk | rfl
        · exact hm.sent id topic k hk
        · exact hlt
      · rw [record_of_ne m id topic _ (not_and_or.mp hpair)] at hk
        exact hm.sent id' topic' k hk
    · intro h hh
      obtain rfl := Option.some.inj hh
      refine ⟨hp.1, fun hsub k hk => ?_⟩
      rcases Nat.lt_succ_iff_lt_or_eq.mp hk with hk | rfl
      · exact hgrow id topic (hp.2 hsub k hk)
      · simp
  · rename_i hstop
    apply hm.hold
    intro h hh
    obtain rfl := Option.some.inj hh
    exact ⟨hp.1, fun hsub k hk => hp.2 hsub k (by omega)⟩

private theorem keep_leave {m : Machine} (hm : Inv m) {id : UserId} {topic : Topic}
    (hp : Promise m id (.leave topic)) : Inv (m.writeCursor id topic) := by
  refine ⟨?_, ?_, ?_, ?_⟩
  · intro id' topic' e he hsub
    obtain ⟨rfl, rfl, rfl⟩ | hold := setReadUpTo_entry_cases id topic _ m.broker he
    · cases hold : m.broker.entry id topic with
      | none => simp [hold] at hsub
      | some e => exact hp.2 ⟨e, hold, by simpa [hold] using hsub⟩
    · exact hm.backed id' topic' e hold hsub
  · intro id' topic' e he
    obtain ⟨rfl, rfl, rfl⟩ | hold := setReadUpTo_entry_cases id topic _ m.broker he
    · exact le_rfl
    · exact hm.cursor id' topic' e hold
  · exact hm.sent
  · intro h hh
    obtain rfl := Option.some.inj hh
    trivial

private theorem keep {m : Machine} {a : Action} {m' : Machine} (hm : Inv m)
    (hstep : step m a = some m') (hok : Undisturbed m a) : Inv m' := by
  cases a with
  | publish message =>
    obtain rfl := Option.some.inj hstep
    exact keep_publish hm message hok
  | toggle id topic =>
    obtain rfl := Option.some.inj hstep
    exact keep_toggle hm id topic hok
  | wake id => exact keep_wake hm id hstep
  | scan =>
    obtain ⟨⟨id, phase⟩, hh, rfl⟩ := Option.map_eq_some_iff.mp hstep
    have hp := hm.promise _ hh
    cases phase with
    | next seen => exact keep_next hm
    | check topic c => exact keep_check hm hp
    | loop topic i => exact keep_loop hm hp
    | leave topic => exact keep_leave hm hp

/-- Left to itself, the scan reaches a cursor that is not backed. -/
def Strands (m : Machine) : Prop :=
  ∃ w m', (∀ a ∈ w, a = Action.scan) ∧ Runs.run step m w = some m' ∧ ¬ CursorBacked m'

private theorem Strands.of_scan {m : Machine} {h : Holder} (hh : m.holder = some h)
    (hs : Strands (m.scan h)) : Strands m := by
  obtain ⟨w, m', hw, hr, hn⟩ := hs
  refine ⟨.scan :: w, m', ?_, ?_, hn⟩
  · exact List.forall_mem_cons.mpr ⟨rfl, hw⟩
  · rw [Runs.run_cons, step, hh]
    exact hr

section Doomed
variable {m : Machine} {id : UserId} {topic : Topic} {k : Nat}

private theorem strands_leave (hsub : Subscribed m id topic) (hk : k < m.size topic)
    (hmiss : k ∉ m.delivered id topic) (hh : m.holder = some ⟨id, .leave topic⟩) : Strands m := by
  obtain ⟨e, he, hflag⟩ := hsub
  refine ⟨[.scan], m.writeCursor id topic, by simp, by simp [step, hh, Machine.scan], ?_⟩
  intro hb
  have hent : (m.writeCursor id topic).broker.entry id topic =
      some { e with isReadUpTo := m.size topic } := by
    rw [Machine.writeCursor, setReadUpTo_entry_self, he]
    rfl
  exact hmiss (hb id topic _ hent hflag k hk)

private theorem strands_loop (n : Nat) {i : Nat} (hn : m.size topic - i = n)
    (hsub : Subscribed m id topic) (hk : k < m.size topic) (hmiss : k ∉ m.delivered id topic)
    (hi : k < i) (hh : m.holder = some ⟨id, .loop topic i⟩) : Strands m := by
  induction n generalizing m i with
  | zero =>
    have hstop : ¬ i < m.size topic := by omega
    apply Strands.of_scan hh
    simp only [Machine.scan, Machine.testLoop, if_neg hstop]
    exact strands_leave hsub hk hmiss rfl
  | succ n ih =>
    have hlt : i < m.size topic := by omega
    apply Strands.of_scan hh
    simp only [Machine.scan, Machine.testLoop, if_pos hlt]
    apply ih (i := i + 1)
    · exact Nat.sub_succ' (m.size topic) i ▸ by omega
    · exact hsub
    · exact hk
    · have hne : k ≠ i := by omega
      simp [hmiss, hne]
    · omega
    · rfl

private theorem strands_check {c : Nat} (hsub : Subscribed m id topic) (hk : k < m.size topic)
    (hmiss : k ∉ m.delivered id topic) (hc : k < c) (hlt : c < m.size topic)
    (hh : m.holder = some ⟨id, .check topic c⟩) : Strands m := by
  have hsize : (value (touch m.broker.topics topic) topic).length = m.size topic := by
    rw [value_touch]
    rfl
  apply Strands.of_scan hh
  simp only [Machine.scan, Machine.testUnread, if_pos hlt]
  exact strands_loop _ rfl hsub (hk.trans_eq hsize.symm) hmiss hc rfl

end Doomed

private theorem bad_publish {m : Machine} (hm : Inv m) {message : Message}
    (hbad : ¬ Undisturbed m (.publish message)) : Strands (publishedMachine m message) := by
  cases hh : m.holder with
  | none => simp [Undisturbed, hh] at hbad
  | some h =>
    obtain ⟨id, phase⟩ := h
    have hp := hm.promise _ hh
    cases phase with
    | next seen => simp [Undisturbed, hh] at hbad
    | loop topic i => simp [Undisturbed, hh] at hbad
    | leave topic =>
      simp only [Undisturbed, hh, Classical.not_imp, not_not] at hbad
      obtain ⟨ht, hs⟩ := hbad
      -- the message just published has an index nothing was sent with
      apply strands_leave (k := m.size topic) ((publish_subscribed message id topic).mpr hs)
      · rw [size_publish, if_pos ht]
        exact Nat.lt_succ_self _
      · exact fun hk => Nat.lt_irrefl _ (hm.sent id topic _ hk)
      · exact hh
    | check topic c =>
      simp only [Undisturbed, hh, Classical.not_imp, not_or, not_forall] at hbad
      obtain ⟨ht, -, e, he, hflag, hne⟩ := hbad
      obtain ⟨hge, hpos, hmiss⟩ := (hp.2 e he hflag).resolve_left hne
      have hc : c = m.size topic := Nat.le_antisymm hp.1 hge
      have hgrow : (publishedMachine m message).size topic = m.size topic + 1 := by
        rw [size_publish, if_pos ht]
      have hsub := (publish_subscribed message id topic).mpr ⟨e, he, hflag⟩
      exact strands_check hsub (by omega) hmiss hpos (by omega) hh

private theorem bad_toggle {m : Machine} (hm : Inv m) {id : UserId} {topic : Topic}
    (hbad : ¬ Undisturbed m (.toggle id topic)) : Strands (toggledMachine m id topic) := by
  simp only [Undisturbed, Classical.not_imp] at hbad
  obtain ⟨hflag, hbad⟩ := hbad
  have hsub : Subscribed (toggledMachine m id topic) id topic :=
    ⟨_, toggle_entry_self m id topic, hflag⟩
  have hmiss : 0 ∉ (toggledMachine m id topic).delivered id topic := by
    rw [toggle_delivered_self m id topic hflag]
    exact List.not_mem_nil
  cases hh : m.holder with
  | none => simp [hh] at hbad
  | some h =>
    obtain ⟨id', phase⟩ := h
    have hp := hm.promise _ hh
    rw [hh] at hbad
    cases phase with
    | next seen => simp at hbad
    | check topic' c =>
      simp only [Classical.not_imp, not_or] at hbad
      obtain ⟨rfl, rfl, hc, hlt⟩ := hbad
      have hlt : c < m.size topic' := Nat.lt_of_not_le hlt
      exact strands_check hsub (Nat.zero_lt_of_lt hlt) hmiss (Nat.pos_of_ne_zero hc) hlt hh
    | loop topic' i =>
      simp only [Classical.not_imp] at hbad
      obtain ⟨rfl, rfl, hi⟩ := hbad
      exact strands_loop _ rfl hsub hp.1 hmiss (Nat.pos_of_ne_zero hi) hh
    | leave topic' =>
      simp only [Classical.not_imp, not_not] at hbad
      obtain ⟨rfl, rfl⟩ := hbad
      exact strands_leave hsub hp.1 hmiss hh

/-- Every cursor is backed in every state of a run in which no publication and no new
subscription disturbs a scan, and the rest of a disturbed scan leaves one that is not. -/
theorem cursor_backed_iff (as : List Action) :
    (Runs.Along step Undisturbed {} as → Runs.Visits step CursorBacked {} as) ∧
    (Runs.Visits step (Runs.Henceforth step (· = .scan) CursorBacked) {} as ↔
      Runs.Along step Undisturbed {} as) := by
  suffices hiff : _ from ⟨fun h => (hiff.mpr h).now, hiff⟩
  apply Runs.visits_henceforth_iff_along (I := Inv)
  · exact fun m a m' hm hstep hok => keep hm hstep hok
  · exact fun m hm => hm.backed
  · rintro m a rfl
    trivial
  · intro m a m' hm hstep hbad
    cases a with
    | publish message =>
      obtain rfl := Option.some.inj hstep
      exact bad_publish hm hbad
    | toggle id topic =>
      obtain rfl := Option.some.inj hstep
      exact bad_toggle hm hbad
    | wake id => exact absurd trivial hbad
    | scan => exact absurd trivial hbad
  · exact inv_init

/-- Message 0 is sent, message 1 is published before the cursor is written, and the write
marks both as read. -/
theorem cursor_not_backed : ¬ ∀ as m, Runs.run step {} as = some m → CursorBacked m := by
  intro h
  let t : Topic := ['t']
  let as : List Action := [.publish ⟨t, ['x']⟩, .toggle 0 t, .wake 0, .scan, .scan, .scan, .scan,
    .publish ⟨t, ['y']⟩, .scan]
  obtain ⟨m, hr⟩ : ∃ m, Runs.run step {} as = some m := ⟨_, rfl⟩
  have hent : (Runs.run step {} as).map (fun m => m.broker.entry 0 t) = some (some ⟨true, 2⟩) := by
    decide +kernel
  have hdel : (Runs.run step {} as).map (fun m => m.delivered 0 t) = some [0] := by
    decide +kernel
  simp only [hr, Option.map_some, Option.some.injEq] at hent hdel
  have hmem := h as m hr 0 t _ hent rfl 1 (by decide)
  rw [hdel] at hmem
  simp at hmem

end NetworkProtocol.Broker.Scan
