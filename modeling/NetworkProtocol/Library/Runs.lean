import Mathlib.Data.List.Infix
import Mathlib.Logic.Basic

/-! Finite runs of a partial labelled step function, the invariant rule, and the
exact form of it: a property holds all along a run just when every step is admissible. -/
namespace Runs
variable {σ α : Type*} (step : σ → α → Option σ)

/-- Take the listed steps in order; a step that is not enabled ends in none. -/
def run (s : σ) (as : List α) : Option σ := as.foldlM step s

/-- P holds in every state the run passes through, its two ends included. -/
def Visits (P : σ → Prop) (s : σ) (as : List α) : Prop :=
  ∀ p s', p <+: as → run step s p = some s' → P s'

/-- Every step the run really takes is admissible where it is taken. -/
def Along (ok : σ → α → Prop) (s : σ) (as : List α) : Prop :=
  ∀ p a s' s'', p ++ [a] <+: as → run step s p = some s' → step s' a = some s'' → ok s' a

/-- P holds now and after any further steps of the given kind. -/
def Henceforth (kind : α → Prop) (P : σ → Prop) (s : σ) : Prop :=
  ∀ w s', (∀ a ∈ w, kind a) → run step s w = some s' → P s'

variable {step} {P I : σ → Prop} {ok : σ → α → Prop} {kind : α → Prop}

/-- What a step behind a guard needs and does. -/
theorem guarded {p : Prop} [Decidable p] {s t : σ} (h : (if p then some s else none) = some t) :
    p ∧ t = s := by
  obtain ⟨hp, h⟩ := Option.ite_none_right_eq_some.mp h
  exact ⟨hp, (Option.some.inj h).symm⟩

@[simp] theorem run_nil (s : σ) : run step s [] = some s := rfl

@[simp] theorem run_cons (s : σ) (a : α) (as : List α) :
    run step s (a :: as) = (step s a).bind (fun s' => run step s' as) := rfl

/-- Two lists of steps are taken one after the other. -/
theorem run_append (s : σ) (as bs : List α) :
    run step s (as ++ bs) = (run step s as).bind (fun s' => run step s' bs) :=
  List.foldlM_append

/-- Runs compose. -/
theorem run_trans {s t u : σ} {as bs : List α} (h : run step s as = some t)
    (j : run step t bs = some u) : run step s (as ++ bs) = some u := by
  rw [run_append, h]
  exact j

/-- A step function that never blocks runs as a plain fold. -/
theorem run_total (f : σ → α → σ) (s : σ) (as : List α) :
    run (fun s a => some (f s a)) s as = some (as.foldl f s) := by
  induction as generalizing s with
  | nil => rfl
  | cons a as ih => exact ih (f s a)

/-- The invariant rule: what every step keeps, every run keeps. -/
theorem run_invariant (keep : ∀ s a s', I s → step s a = some s' → I s')
    {s s' : σ} {as : List α} (hs : I s) (hr : run step s as = some s') : I s' := by
  induction as generalizing s with
  | nil => exact Option.some.inj hr ▸ hs
  | cons a as ih =>
    obtain ⟨t, ht, hr⟩ := Option.bind_eq_some_iff.mp hr
    exact ih (keep s a t hs ht) hr

/-- A run visits the state it starts from. -/
theorem Visits.start {s : σ} {as : List α} (h : Visits step P s as) : P s :=
  h [] s (List.nil_prefix) rfl

/-- The empty run visits that state alone. -/
theorem visits_nil (s : σ) : Visits step P s [] ↔ P s := by
  constructor
  · exact Visits.start
  · intro hs p s' hp hr
    obtain rfl := List.prefix_nil.mp hp
    exact Option.some.inj hr ▸ hs

/-- A run visits its start and what the rest of it visits. -/
theorem visits_cons (s : σ) (a : α) (as : List α) :
    Visits step P s (a :: as) ↔ P s ∧ ∀ t, step s a = some t → Visits step P t as := by
  constructor
  · intro h
    refine ⟨h.start, fun t ht p s' hp hr => h (a :: p) s' ?_ ?_⟩
    · exact List.cons_prefix_cons.mpr ⟨rfl, hp⟩
    · rw [run_cons, ht]
      exact hr
  · rintro ⟨hs, h⟩ p s' hp hr
    cases p with
    | nil => exact Option.some.inj hr ▸ hs
    | cons b p =>
      obtain ⟨rfl, htail⟩ := List.cons_prefix_cons.mp hp
      obtain ⟨t, ht, hrest⟩ := Option.bind_eq_some_iff.mp hr
      exact h t ht p s' htail hrest

/-- Without steps all of them are admissible. -/
theorem along_nil (s : σ) : Along step ok s [] := by
  intro p a s' s'' hp
  simp at hp

/-- The first step, and the rest from where it leads. -/
theorem along_cons (s : σ) (a : α) (as : List α) :
    Along step ok s (a :: as) ↔ ∀ t, step s a = some t → ok s a ∧ Along step ok t as := by
  constructor
  · intro h t ht
    refine ⟨h [] a s t ?_ rfl ht, fun p b s' s'' hp hr hb => h (a :: p) b s' s'' ?_ ?_ hb⟩
    · exact List.cons_prefix_cons.mpr ⟨rfl, List.nil_prefix⟩
    · exact List.cons_prefix_cons.mpr ⟨rfl, hp⟩
    · rw [run_cons, ht]
      exact hr
  · intro h p b s' s'' hp hr hb
    cases p with
    | nil =>
      obtain ⟨rfl, -⟩ := List.cons_prefix_cons.mp hp
      obtain rfl := Option.some.inj hr
      exact (h s'' hb).1
    | cons c p =>
      obtain ⟨rfl, htail⟩ := List.cons_prefix_cons.mp hp
      obtain ⟨t, ht, hrest⟩ := Option.bind_eq_some_iff.mp hr
      exact (h t ht).2 p b s' s'' htail hrest hb

/-- Along a run that is taken one step at a time. -/
theorem Along.cons {s t : σ} {a : α} {as : List α} (hstep : step s a = some t) (hok : ok s a)
    (h : Along step ok t as) : Along step ok s (a :: as) := by
  refine (along_cons s a as).mpr fun u hu => ?_
  obtain rfl := Option.some.inj (hstep.symm.trans hu)
  exact ⟨hok, h⟩

/-- What each step implies holds along the run. -/
theorem Along.mono {ok' : σ → α → Prop} {s : σ} {as : List α} (h : Along step ok s as)
    (himp : ∀ s a, ok s a → ok' s a) : Along step ok' s as :=
  fun p a s' s'' hp hr hs => himp s' a (h p a s' s'' hp hr hs)

/-- Steps that are all of one kind, besides being admissible. -/
theorem Along.and_kind {s : σ} {as : List α} (h : Along step ok s as) (has : ∀ a ∈ as, kind a) :
    Along step (fun s a => ok s a ∧ kind a) s as :=
  fun p a s' s'' hp hr hs =>
    ⟨h p a s' s'' hp hr hs, has a (hp.subset (List.mem_append_right p List.mem_cons_self))⟩

instance decidableAlong [∀ s a, Decidable (ok s a)] (s : σ) (as : List α) :
    Decidable (Along step ok s as) :=
  match as with
  | [] => isTrue (along_nil s)
  | a :: as =>
    match h : step s a with
    | none => isTrue ((along_cons s a as).mpr fun t ht => absurd (h.symm.trans ht) (by simp))
    | some t =>
      have := decidableAlong t as
      decidable_of_iff (ok s a ∧ Along step ok t as)
        ⟨fun hboth => Along.cons h hboth.1 hboth.2,
          fun hall => (along_cons s a as).mp hall t h⟩

/-- Where no step blocks, a condition on the steps alone concerns all of them. -/
theorem along_total_iff (f : σ → α → σ) (Q : α → Prop) (s : σ) (as : List α) :
    Along (fun s a => some (f s a)) (fun _ a => Q a) s as ↔ ∀ a ∈ as, Q a := by
  induction as generalizing s with
  | nil => exact ⟨fun _ => nofun, fun _ => along_nil s⟩
  | cons a as ih =>
    rw [along_cons, List.forall_mem_cons]
    constructor
    · intro h
      obtain ⟨ha, hrest⟩ := h (f s a) rfl
      exact ⟨ha, (ih (f s a)).mp hrest⟩
    · rintro ⟨ha, hrest⟩ t ht
      obtain rfl := Option.some.inj ht
      exact ⟨ha, (ih (f s a)).mpr hrest⟩

/-- What admissible steps keep holds all along a run of such steps. -/
theorem Along.visits (keep : ∀ s a s', I s → step s a = some s' → ok s a → I s')
    {s : σ} {as : List α} (h : Along step ok s as) (hs : I s) : Visits step I s as := by
  induction as generalizing s with
  | nil => exact (visits_nil s).mpr hs
  | cons a as ih =>
    refine (visits_cons s a as).mpr ⟨hs, fun t ht => ?_⟩
    obtain ⟨hok, hrest⟩ := (along_cons s a as).mp h t ht
    exact ih hrest (keep s a t hs ht hok)

/-- What each state implies is visited as well. -/
theorem Visits.mono {Q : σ → Prop} {s : σ} {as : List α} (h : Visits step P s as)
    (hPQ : ∀ s, P s → Q s) : Visits step Q s as :=
  fun p s' hp hr => hPQ s' (h p s' hp hr)

/-- Exactness: when admissible steps keep an invariant that gives P, and any other
step destroys P at once, the runs along which P holds are the admissible ones. -/
theorem visits_iff_along
    (keep : ∀ s a s', I s → step s a = some s' → ok s a → I s')
    (safe : ∀ s, I s → P s)
    (bad : ∀ s a s', I s → step s a = some s' → ¬ ok s a → ¬ P s')
    {s : σ} (hs : I s) (as : List α) : Visits step P s as ↔ Along step ok s as := by
  refine ⟨?_, fun h => (h.visits keep hs).mono safe⟩
  induction as generalizing s with
  | nil => exact fun _ => along_nil s
  | cons a as ih =>
    rw [visits_cons, along_cons]
    rintro ⟨-, h⟩ t ht
    have hok : ok s a := by
      by_contra hbad
      exact bad s a t hs ht hbad (h t ht).start
    exact ⟨hok, ih (keep s a t hs ht hok) (h t ht)⟩

/-- Steps of an always admissible kind cannot leave the invariant. -/
theorem henceforth_of_invariant
    (keep : ∀ s a s', I s → step s a = some s' → ok s a → I s')
    (safe : ∀ s, I s → P s) (free : ∀ s a, kind a → ok s a)
    {s : σ} (hs : I s) : Henceforth step kind P s := by
  intro w s' hw hr
  induction w generalizing s with
  | nil => exact Option.some.inj hr ▸ safe s hs
  | cons a w ih =>
    obtain ⟨t, ht, hr⟩ := Option.bind_eq_some_iff.mp hr
    have hkind := List.forall_mem_cons.mp hw
    exact ih (keep s a t hs ht (free s a hkind.1)) hkind.2 hr

/-- Exactness up to steps of a free kind: P survives whatever those steps do after
any point of the run just when every step of the run is admissible. -/
theorem visits_henceforth_iff_along
    (keep : ∀ s a s', I s → step s a = some s' → ok s a → I s')
    (safe : ∀ s, I s → P s) (free : ∀ s a, kind a → ok s a)
    (bad : ∀ s a s', I s → step s a = some s' → ¬ ok s a →
      ∃ w s'', (∀ b ∈ w, kind b) ∧ run step s' w = some s'' ∧ ¬ P s'')
    {s : σ} (hs : I s) (as : List α) :
    Visits step (Henceforth step kind P) s as ↔ Along step ok s as := by
  apply visits_iff_along keep
  · intro s hs
    exact henceforth_of_invariant keep safe free hs
  · intro s a s' hs ht hbad hP
    obtain ⟨w, s'', hw, hr, hn⟩ := bad s a s' hs ht hbad
    exact hn (hP w s'' hw hr)
  · exact hs

/-- Steps of a kind that each do one unit of the work: a run of them is as long as the work it
has done. -/
theorem run_work (work : σ → Nat)
    (one : ∀ s a t, kind a → step s a = some t → work t + 1 = work s)
    {s t : σ} {as : List α} (has : ∀ a ∈ as, kind a) (hr : run step s as = some t) :
    as.length + work t = work s := by
  induction as generalizing s with
  | nil => rw [Option.some.inj hr, List.length_nil, Nat.zero_add]
  | cons a as ih =>
    obtain ⟨u, hu, hr⟩ := Option.bind_eq_some_iff.mp hr
    obtain ⟨ha, has⟩ := List.forall_mem_cons.mp has
    have hone := one s a u ha hu
    have hrest := ih has hr
    rw [List.length_cons]
    omega

/-- A run all of whose futures of a free kind are safe is safe where it stands. -/
theorem Visits.now {s : σ} {as : List α}
    (h : Visits step (Henceforth step kind P) s as) : Visits step P s as :=
  fun p s' hp hr => h p s' hp hr [] s' (by simp) rfl

section Project
variable {τ β : Type*} {step' : τ → β → Option τ} {f : σ → τ} {g : α → Option β}
  {ok' : τ → β → Prop}

/-- What a step does to one part of the state, where it does anything there. -/
def Projects (step : σ → α → Option σ) (step' : τ → β → Option τ) (f : σ → τ) (g : α → Option β) :
    Prop :=
  ∀ s a t, step s a = some t →
    (∃ b, g a = some b ∧ step' (f s) b = some (f t)) ∨ g a = none ∧ f t = f s

/-- A run of the whole is a run of each part. -/
theorem run_project (h : Projects step step' f g) {s t : σ} {as : List α}
    (hr : run step s as = some t) : run step' (f s) (as.filterMap g) = some (f t) := by
  induction as generalizing s with
  | nil => exact congrArg (fun u => some (f u)) (Option.some.inj hr)
  | cons a as ih =>
    obtain ⟨u, hu, hr⟩ := Option.bind_eq_some_iff.mp hr
    rcases h s a u hu with ⟨b, hb, hstep⟩ | ⟨hnone, hsame⟩
    · rw [List.filterMap_cons_some hb, run_cons, hstep]
      exact ih hr
    · rw [List.filterMap_cons_none hnone, ← hsame]
      exact ih hr

/-- Steps are admissible where their parts are. -/
theorem along_project (h : Projects step step' f g)
    (hok : ∀ s a, ok s a ↔ ∀ b, g a = some b → ok' (f s) b) {s t : σ} {as : List α}
    (hr : run step s as = some t) :
    Along step ok s as ↔ Along step' ok' (f s) (as.filterMap g) := by
  induction as generalizing s with
  | nil => exact iff_of_true (along_nil s) (along_nil (f s))
  | cons a as ih =>
    obtain ⟨u, hu, hr⟩ := Option.bind_eq_some_iff.mp hr
    have hone : Along step ok s (a :: as) ↔ ok s a ∧ Along step ok u as := by
      rw [along_cons]
      constructor
      · exact fun hall => hall u hu
      · rintro hboth t ht
        exact Option.some.inj (hu.symm.trans ht) ▸ hboth
    rw [hone, hok, ih hr]
    rcases h s a u hu with ⟨b, hb, hstep⟩ | ⟨hnone, hsame⟩
    · rw [List.filterMap_cons_some hb, along_cons, hb]
      constructor
      · rintro ⟨hfirst, hrest⟩ t ht
        obtain rfl := Option.some.inj (hstep.symm.trans ht)
        exact ⟨hfirst b rfl, hrest⟩
      · intro hall
        obtain ⟨hfirst, hrest⟩ := hall (f u) hstep
        exact ⟨fun c hc => Option.some.inj hc ▸ hfirst, hrest⟩
    · rw [List.filterMap_cons_none hnone, hsame, hnone]
      exact ⟨fun hboth => hboth.2, fun hrest => ⟨fun b hb => absurd hb (by simp), hrest⟩⟩

end Project

/-- Two systems that answer each step alike, or both refuse it, answer a whole run alike. -/
theorem run_related {τ : Type*} {step' : τ → α → Option τ} {R : σ → τ → Prop}
    (both : ∀ s t a, R s t → kind a → Option.Rel R (step s a) (step' t a))
    {s : σ} {t : τ} {as : List α} (h : R s t) (has : ∀ a ∈ as, kind a) :
    Option.Rel R (run step s as) (run step' t as) := by
  induction as generalizing s t with
  | nil => exact .some h
  | cons a as ih =>
    obtain ⟨ha, has⟩ := List.forall_mem_cons.mp has
    have hone := both s t a h ha
    rw [run_cons, run_cons]
    rcases hs : step s a with _ | u <;> rcases ht : step' t a with _ | v <;> rw [hs, ht] at hone
    · exact .none
    · cases hone
    · cases hone
    · obtain ⟨huv⟩ := hone
      exact ih huv has

/-- A run that is admissible is so in a system that answers its steps alike. -/
theorem Along.related {τ : Type*} {step' : τ → α → Option τ} {R : σ → τ → Prop}
    {ok' : τ → α → Prop}
    (both : ∀ s t a, R s t → kind a → Option.Rel R (step s a) (step' t a))
    (hok : ∀ s t a, R s t → ok s a → ok' t a)
    {s : σ} {t : τ} {as : List α} (h : R s t) (has : ∀ a ∈ as, kind a)
    (halong : Along step ok s as) : Along step' ok' t as := by
  induction as generalizing s t with
  | nil => exact along_nil t
  | cons a as ih =>
    obtain ⟨ha, has⟩ := List.forall_mem_cons.mp has
    refine (along_cons t a as).mpr fun v hv => ?_
    have hone := both s t a h ha
    rw [hv] at hone
    cases hu : step s a with
    | none =>
      rw [hu] at hone
      cases hone
    | some u =>
      rw [hu] at hone
      obtain ⟨huv⟩ := hone
      obtain ⟨hadmits, hrest⟩ := (along_cons s a as).mp halong u hu
      exact ⟨hok s t a h hadmits, ih huv has hrest⟩

/-- A state that is related to an outcome tells the outcome. -/
theorem related_right {τ : Type*} {R : σ → τ → Prop} {s : σ} {t : Option τ}
    (h : Option.Rel R (some s) t) : ∃ t', t = some t' ∧ R s t' := by
  obtain ⟨hst⟩ := h
  exact ⟨_, rfl, hst⟩

/-- So does an outcome from the other side. -/
theorem related_left {τ : Type*} {R : σ → τ → Prop} {s : Option σ} {t : τ}
    (h : Option.Rel R s (some t)) : ∃ s', s = some s' ∧ R s' t := by
  obtain ⟨hst⟩ := h
  exact ⟨_, rfl, hst⟩

/-- Where each admissible step of one system is answered by a run of another, so is every run. What
g' sees of the answers is, in order, of what g sees of the steps. -/
theorem run_simulated {τ β γ : Type*} {step' : τ → β → Option τ} {R : σ → τ → Prop}
    {g : α → List γ} {g' : β → List γ}
    (answer : ∀ s t a s', R s t → ok s a → step s a = some s' →
      ∃ bs t', run step' t bs = some t' ∧ (bs.flatMap g').Sublist (g a) ∧ R s' t')
    {s s' : σ} {t : τ} {as : List α} (h : R s t) (has : Along step ok s as)
    (hr : run step s as = some s') :
    ∃ bs t', run step' t bs = some t' ∧ (bs.flatMap g').Sublist (as.flatMap g) ∧ R s' t' := by
  induction as generalizing s t with
  | nil => exact ⟨[], t, rfl, .slnil, Option.some.inj hr ▸ h⟩
  | cons a as ih =>
    obtain ⟨u, hu, hr⟩ := Option.bind_eq_some_iff.mp hr
    obtain ⟨ha, has⟩ := (along_cons s a as).mp has u hu
    obtain ⟨bs, v, hbs, hone, hv⟩ := answer s t a u h ha hu
    obtain ⟨cs, t', hcs, hrest, ht'⟩ := ih hv has hr
    refine ⟨bs ++ cs, t', run_trans hbs hcs, ?_, ht'⟩
    rw [List.flatMap_append, List.flatMap_cons]
    exact hone.append hrest

/-- Erasing steps from a run: a relation that the erased steps keep on one side, and the others
on both, holds between the two ends. -/
theorem related_erased {R : σ → σ → Prop} (f : σ → α → σ) (kept : α → Bool) (as : List α)
    (both : ∀ a ∈ as, ∀ s t, R s t → kept a = true → R (f s a) (f t a))
    (alone : ∀ a ∈ as, ∀ s t, R s t → kept a = false → R (f s a) t)
    {s t : σ} (h : R s t) : R (as.foldl f s) ((as.filter kept).foldl f t) := by
  induction as generalizing s t with
  | nil => exact h
  | cons a as ih =>
    have hboth := fun b hb => both b (List.mem_cons_of_mem a hb)
    have halone := fun b hb => alone b (List.mem_cons_of_mem a hb)
    rcases Bool.eq_false_or_eq_true (kept a) with hk | hk
    · rw [List.filter_cons_of_pos hk]
      exact ih hboth halone (both a List.mem_cons_self s t h hk)
    · rw [List.filter_cons_of_neg (by simp [hk])]
      exact ih hboth halone (alone a List.mem_cons_self s t h hk)

end Runs
