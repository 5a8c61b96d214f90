import NetworkProtocol.Library.Runs
import Mathlib.Tactic.Cases

/-! gcond between main and the data threads of one program. pthread_cond_signal wakes a thread
that is waiting at that moment and is forgotten otherwise, and the wait tests no predicate. -/
namespace NetworkProtocol.Ftp.Rendezvous

inductive Program where
  | server
  | client
  deriving DecidableEq, Repr

/-- A data thread: before pthread_cond_wait, in it, past it, or returned. A client's thread that
finds no address in the reply will not wait. -/
inductive Place where
  | starting (waits : Bool)
  | waiting
  | woken
  | returned
  deriving DecidableEq, Repr

/-- main: without a data thread, with one after PASV or PORT, between the signal of NLST or RETR
and the join, and in the join. -/
inductive MainPlace where
  | idle
  | selected
  | signalled
  | joining
  deriving DecidableEq, Repr

/-- dataThread is the thread created last; those created stay in the list, by number. -/
structure State where
  main : MainPlace := .idle
  dataThread : Nat := 0
  threads : List Place := []

/-- The thread a signal wakes is the system's choice. failed is the 500 of the server, which
stays in MODESELECTED. -/
inductive Action where
  | create (waits : Bool)
  | arrive (k : Nat)
  | giveUp (k : Nat)
  | signal (wakes : Option Nat)
  | callJoin
  | finish (k : Nat)
  | joined (failed : Bool)
  deriving DecidableEq, Repr

def State.move (s : State) (k : Nat) (place : Place) : State :=
  { s with threads := s.threads.set k place }

def step (program : Program) (s : State) : Action → Option State
  | .create waits =>
    if s.main = .idle ∧ (program = .server → waits = true) then
      some { main := .selected
             dataThread := s.threads.length
             threads := s.threads ++ [.starting waits] }
    else none
  | .arrive k =>
    if s.threads[k]? = some (.starting true) then some (s.move k .waiting) else none
  | .giveUp k =>
    if s.threads[k]? = some (.starting false) then some (s.move k .returned) else none
  | .signal none =>
    if s.main = .selected ∧ .waiting ∉ s.threads then some { s with main := .signalled } else none
  | .signal (some k) =>
    if s.main = .selected ∧ s.threads[k]? = some .waiting then
      some { s.move k .woken with main := .signalled }
    else none
  | .callJoin => if s.main = .signalled then some { s with main := .joining } else none
  | .finish k => if s.threads[k]? = some .woken then some (s.move k .returned) else none
  | .joined failed =>
    if s.main = .joining ∧ s.threads[s.dataThread]? = some .returned ∧
        (failed = true → program = .server) then
      some { s with main := if failed then .selected else .idle }
    else none

def Hangs (s : State) : Prop :=
  s.main = .joining ∧
    (s.threads[s.dataThread]? = some (.starting true) ∨ s.threads[s.dataThread]? = some .waiting)

/-- The signal is not sent before the thread about to be joined is in its wait. -/
def Awaited (s : State) : Action → Prop
  | .signal _ => s.threads[s.dataThread]? ≠ some (.starting true)
  | _ => True

def Released (s : State) : Prop :=
  ∃ p, s.threads[s.dataThread]? = some p ∧ p ≠ .starting true ∧ p ≠ .waiting

structure Inv (s : State) : Prop where
  others : ∀ k p, s.threads[k]? = some p → k ≠ s.dataThread → p = .returned
  idle : s.main = .idle → ∀ p, s.threads[s.dataThread]? = some p → p = .returned
  created : s.main ≠ .idle → ∃ p, s.threads[s.dataThread]? = some p
  released : s.main = .signalled ∨ s.main = .joining → Released s

inductive Moves : Place → Place → Prop where
  | arrives : Moves (.starting true) .waiting
  | givesUp : Moves (.starting false) .returned
  | returns : Moves .woken .returned

inductive Stepped (program : Program) (s : State) : Action → State → Prop where
  | created (waits : Bool) (main : s.main = .idle) :
      Stepped program s (.create waits)
        { main := .selected
          dataThread := s.threads.length
          threads := s.threads ++ [.starting waits] }
  | moved (a : Action) (k : Nat) (p q : Place) (own : a = .arrive k ∨ a = .giveUp k ∨ a = .finish k)
      (place : s.threads[k]? = some p) (way : Moves p q) : Stepped program s a (s.move k q)
  | forgotten (main : s.main = .selected) (nobody : .waiting ∉ s.threads) :
      Stepped program s (.signal none) { s with main := .signalled }
  | woke (k : Nat) (main : s.main = .selected) (place : s.threads[k]? = some .waiting) :
      Stepped program s (.signal (some k)) { s.move k .woken with main := .signalled }
  | called (main : s.main = .signalled) :
      Stepped program s .callJoin { s with main := .joining }
  | joined (failed : Bool) (main : s.main = .joining)
      (place : s.threads[s.dataThread]? = some .returned) :
      Stepped program s (.joined failed)
        { s with main := if failed then .selected else .idle }

section Steps
variable {program : Program} {s s' : State} {a : Action} {k : Nat} {p q : Place}

/-- The steps there are, one by one. -/
theorem stepped (h : step program s a = some s') : Stepped program s a s' := by
  cases a with
  | create waits =>
    obtain ⟨⟨main, -⟩, rfl⟩ := Runs.guarded h
    exact .created waits main
  | arrive k =>
    obtain ⟨place, rfl⟩ := Runs.guarded h
    exact .moved _ k _ _ (.inl rfl) place .arrives
  | giveUp k =>
    obtain ⟨place, rfl⟩ := Runs.guarded h
    exact .moved _ k _ _ (.inr (.inl rfl)) place .givesUp
  | signal wakes =>
    cases wakes with
    | none =>
      obtain ⟨⟨main, nobody⟩, rfl⟩ := Runs.guarded h
      exact .forgotten main nobody
    | some k =>
      obtain ⟨⟨main, place⟩, rfl⟩ := Runs.guarded h
      exact .woke k main place
  | callJoin =>
    obtain ⟨main, rfl⟩ := Runs.guarded h
    exact .called main
  | finish k =>
    obtain ⟨place, rfl⟩ := Runs.guarded h
    exact .moved _ k _ _ (.inr (.inr rfl)) place .returns
  | joined failed =>
    obtain ⟨⟨main, place, -⟩, rfl⟩ := Runs.guarded h
    exact .joined failed main place

private theorem move_self (h : s.threads[k]? = some p) : (s.move k q).threads[k]? = some q := by
  rw [State.move, List.getElem?_set_self (List.getElem?_eq_some_iff.mp h).1]

private theorem move_of_ne {j : Nat} (h : j ≠ k) : (s.move k q).threads[j]? = s.threads[j]? := by
  rw [State.move, List.getElem?_set_ne h.symm]

/-- Only the thread to be joined has not returned yet. -/
theorem Inv.eq_dataThread (h : Inv s) (hp : s.threads[k]? = some p) (hlive : p ≠ .returned) :
    k = s.dataThread := by
  by_contra hne
  exact hlive (h.others k p hp hne)

private theorem Inv.move (h : Inv s) (hp : s.threads[k]? = some p) (hlive : p ≠ .returned)
    (hq : p = .starting true ∨ p = .waiting ∨ q ≠ .starting true ∧ q ≠ .waiting) :
    Inv (s.move k q) := by
  obtain rfl := h.eq_dataThread hp hlive
  refine ⟨?_, ?_, ?_, ?_⟩
  · intro j r hj hne
    rw [move_of_ne (k := s.dataThread) hne] at hj
    exact h.others j r hj hne
  · intro hidle
    exact absurd (h.idle hidle p hp) hlive
  · exact fun _ => ⟨q, move_self hp⟩
  · intro hmain
    obtain ⟨r, hr, hstart, hwait⟩ := h.released hmain
    obtain rfl := Option.some.inj (hp.symm.trans hr)
    exact ⟨q, move_self hp, (hq.resolve_left hstart).resolve_left hwait⟩

private theorem Inv.create (h : Inv s) (hidle : s.main = .idle) (waits : Bool) :
    Inv { main := .selected
          dataThread := s.threads.length
          threads := s.threads ++ [.starting waits] } := by
  refine ⟨?_, nofun, fun _ => ⟨_, List.getElem?_concat_length⟩, by simp⟩
  intro j r hj (hne : j ≠ s.threads.length)
  have hold : s.threads[j]? = some r := by
    have hlt := (List.getElem?_eq_some_iff.mp hj).1
    rw [List.length_append, List.length_singleton] at hlt
    rw [← hj, List.getElem?_append_left (by omega)]
  rcases eq_or_ne j s.dataThread with rfl | hne
  · exact h.idle hidle r hold
  · exact h.others j r hold hne

private theorem Inv.signal (h : Inv s) (hmain : s.main = .selected) (hreleased : Released s) :
    Inv { s with main := .signalled } :=
  ⟨h.others, nofun, fun _ => h.created (by simp [hmain]), fun _ => hreleased⟩

private theorem keep (h : Inv s) (hstep : Stepped program s a s') (hok : Awaited s a) :
    Inv s' := by
  cases hstep with
  | created waits main => exact h.create main waits
  | moved _ k p q own place way =>
    cases way with
    | arrives => exact h.move place (by simp) (.inl rfl)
    | givesUp => exact h.move place (by simp) (.inr (.inr (by simp)))
    | returns => exact h.move place (by simp) (.inr (.inr (by simp)))
  | forgotten main nobody =>
    obtain ⟨p, hp⟩ := h.created (by simp [main])
    refine h.signal main ⟨p, hp, ?_, ?_⟩
    · rintro rfl
      exact hok hp
    · rintro rfl
      exact nobody (List.mem_of_getElem? hp)
  | woke k main place =>
    have hmoved : Inv (s.move k .woken) := h.move place (by simp) (.inr (.inl rfl))
    obtain rfl := h.eq_dataThread place (by simp)
    exact hmoved.signal main ⟨.woken, move_self place, by simp, by simp⟩
  | called main =>
    exact ⟨h.others, nofun, fun _ => h.created (by simp [main]), fun _ => h.released (.inl main)⟩
  | joined failed main place =>
    refine ⟨h.others, ?_, fun _ => ⟨_, place⟩, ?_⟩
    · intro _ p hp
      exact Option.some.inj (hp.symm.trans place)
    · cases failed <;> simp

private theorem Inv.not_hangs (h : Inv s) : ¬ Hangs s := by
  rintro ⟨hmain, hplace⟩
  obtain ⟨p, hp, hstart, hwait⟩ := h.released (.inr hmain)
  rw [hp] at hplace
  rcases hplace with hplace | hplace
  · exact hstart (Option.some.inj hplace)
  · exact hwait (Option.some.inj hplace)

private theorem early_signal_hangs (h : Inv s) (hstep : Stepped program s a s')
    (hbad : ¬ Awaited s a) :
    ∃ s'', step program s' .callJoin = some s'' ∧ Hangs s'' := by
  have hearly : s.threads[s.dataThread]? = some (.starting true) := by
    cases a with
    | signal wakes => exact not_not.mp hbad
    | _ => exact absurd trivial hbad
  cases hstep with
  | forgotten main nobody => exact ⟨{ s with main := .joining }, rfl, rfl, .inl hearly⟩
  | woke k main place =>
    obtain rfl := h.eq_dataThread place (by simp)
    rw [hearly] at place
    cases place
  | moved _ k p q own place way =>
    rcases own with rfl | rfl | rfl <;> exact absurd trivial hbad
  | _ => exact absurd trivial hbad

private theorem Hangs.step (h : Hangs s) (hstep : Stepped program s a s') : Hangs s' := by
  obtain ⟨hmain, hplace⟩ := h
  cases hstep with
  | moved _ k p q own place way =>
    refine ⟨hmain, ?_⟩
    rcases eq_or_ne s.dataThread k with rfl | hne
    · cases way with
      | arrives => exact .inr (move_self place)
      | givesUp => simp [place] at hplace
      | returns => simp [place] at hplace
    · have hsame : (s.move k q).threads[s.dataThread]? = s.threads[s.dataThread]? := move_of_ne hne
      exact hsame ▸ hplace
  | created waits main => simp [hmain] at main
  | forgotten main nobody => simp [hmain] at main
  | woke k main place => simp [hmain] at main
  | called main => simp [hmain] at main
  | joined failed main place =>
    rw [place] at hplace
    simp at hplace

/-- Nothing ends the hang: main alone could signal again. -/
theorem hangs_forever {actions : List Action} (h : Hangs s)
    (hrun : Runs.run (step program) s actions = some s') : Hangs s' :=
  Runs.run_invariant (fun _ _ _ hs hstep => hs.step (stepped hstep)) h hrun

end Steps

/-- Either program, over any number of cycles: no hang as long as every signal finds the data
thread waiting, and after a signal that comes earlier main's own next step leads into one. -/
theorem never_hangs_iff (program : Program) (actions : List Action) :
    (Runs.Along (step program) Awaited {} actions →
      Runs.Visits (step program) (fun s => ¬ Hangs s) {} actions) ∧
    (Runs.Visits (step program) (Runs.Henceforth (step program) (· = .callJoin)
      (fun s => ¬ Hangs s)) {} actions ↔ Runs.Along (step program) Awaited {} actions) := by
  suffices hiff : _ from ⟨fun h => (hiff.mpr h).now, hiff⟩
  apply Runs.visits_henceforth_iff_along (I := Inv)
  · exact fun s a s' h hstep => keep h (stepped hstep)
  · exact fun s h => h.not_hangs
  · rintro s a rfl
    trivial
  · intro s a s' h hstep hbad
    obtain ⟨s'', hjoin, hhangs⟩ := early_signal_hangs h (stepped hstep) hbad
    exact ⟨[.callJoin], s'', by simp, by simp [hjoin], not_not.mpr hhangs⟩
  · exact ⟨by simp, by simp, by simp, by simp⟩

/-- NLST right after PASV: main signals and joins while the data thread is still in bind. -/
theorem early_signal_is_lost :
    ¬ ∀ program actions s, Runs.run (step program) {} actions = some s → ¬ Hangs s := by
  intro h
  refine h .server [.create true, .signal none, .callJoin] ⟨.joining, 0, [.starting true]⟩ rfl ?_
  exact ⟨rfl, .inl rfl⟩

end NetworkProtocol.Ftp.Rendezvous
