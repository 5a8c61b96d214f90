import NetworkProtocol.Library.Runs
import NetworkProtocol.Library.Trace
import NetworkProtocol.Ftp.Main

/-! The order that execute imposes on its own answers: every transfer spends an acceptance of
PASV or PORT of its own, and every acceptance comes after a login that no QUIT has ended. -/
namespace NetworkProtocol.Ftp
open CString Server Trace

structure Handled where
  server : Server
  trace : List Exchange := []

def exchange (req : Message) (o : Outcome) : Exchange :=
  ⟨interpret req.command, req.body, o.status⟩

def handle (h : Handled) (r : Environment × Message) : Option Handled :=
  (execute r.1 r.2 h.server).map (fun o => ⟨o.server, h.trace ++ [exchange r.2 o]⟩)

def Transfers (e : Exchange) : Prop :=
  (e.command = .nlst ∨ e.command = .retr) ∧ e.status = 226

def Accepts (e : Exchange) : Prop :=
  e.command = .pasv ∧ e.status = 227 ∨ e.command = .port ∧ e.status = 200

def Quits (e : Exchange) : Prop := e.command = .quit

/-- A 2xx answer to CWD or TYPE. -/
def Adjusts (e : Exchange) : Prop :=
  (e.command = .cwd ∨ e.command = .type) ∧ 200 ≤ e.status ∧ e.status < 300

/-- What cannot stand between an acceptance and the transfer that spends it. -/
def Interrupts (e : Exchange) : Prop := Quits e ∨ Accepts e ∨ Adjusts e

def Identifies (e : Exchange) : Prop := e.command = .user ∧ e.status = 331

def LogsOn (e : Exchange) : Prop := e.command = .pass ∧ e.status = 230

/-- Before position i there are a 331 to USER and later a 230 to PASS, without a QUIT since
that USER. -/
def Authenticated (t : List Exchange) (i : Nat) : Prop :=
  ∃ u p, u < p ∧ p < i ∧ At t u Identifies ∧ At t p LogsOn ∧ Clear t u i Quits

structure Disciplined (t : List Exchange) : Prop where
  matched : Matched Transfers Accepts Interrupts t
  authenticated : ∀ i, At t i Accepts → Authenticated t i

/-- An acceptance after which nothing has interrupted or spent it. -/
def Unspent (t : List Exchange) : Prop :=
  Since Accepts (fun e => Interrupts e ∨ Transfers e) t

def Records (t : List Exchange) : AuthorizationStatus → Prop
  | .notLoggedIn => True
  | .needPassword => Since Identifies Quits t
  | .loggedIn => Authenticated t t.length
  | .modeSelected => Authenticated t t.length ∧ Unspent t

section Exchanges
variable {t : List Exchange} {e : Exchange} {i : Nat}

private theorem not_transfers {command : Command} {body : CString} {status : Int}
    (h : command ≠ .nlst ∧ command ≠ .retr := by decide) : ¬ Transfers ⟨command, body, status⟩ :=
  fun he => he.1.elim h.1 h.2

private theorem not_accepts {command : Command} {body : CString} {status : Int}
    (h : command ≠ .pasv ∧ command ≠ .port := by decide) : ¬ Accepts ⟨command, body, status⟩ :=
  fun he => he.elim (fun he => h.1 he.1) (fun he => h.2 he.1)

private theorem Authenticated.concat (h : Authenticated t i) (hi : i ≤ t.length) :
    Authenticated (t ++ [e]) i := by
  obtain ⟨u, p, hup, hpi, hu, hp, hclear⟩ := h
  exact ⟨u, p, hup, hpi, hu.concat, hp.concat, hclear.concat hi⟩

private theorem Authenticated.extend (h : Authenticated t t.length) (he : ¬ Quits e) :
    Authenticated (t ++ [e]) (t ++ [e]).length := by
  obtain ⟨u, p, hup, -, hu, hp, hclear⟩ := h
  exact ⟨u, p, hup, hp.concat.lt, hu.concat, hp.concat, hclear.extend he⟩

/-- The password after the name completes a login. -/
theorem authenticated_last (h : Since Identifies Quits t) (he : LogsOn e) (hq : ¬ Quits e) :
    Authenticated (t ++ [e]) (t ++ [e]).length := by
  obtain ⟨u, hu, hclear⟩ := h
  exact ⟨u, t.length, hu.lt, (at_last he).lt, hu.concat, at_last he, hclear.extend hq⟩

/-- An answer that is none of those Records speaks of leaves authStatus telling the truth. -/
theorem Records.concat {status : AuthorizationStatus} (h : Records t status)
    (hi : ¬ Interrupts e) (ht : ¬ Transfers e) : Records (t ++ [e]) status := by
  have hq : ¬ Quits e := fun hq => hi (.inl hq)
  cases status with
  | notLoggedIn => trivial
  | needPassword => exact Since.concat h hq
  | loggedIn => exact Authenticated.extend h hq
  | modeSelected => exact ⟨h.1.extend hq, h.2.concat (not_or.mpr ⟨hi, ht⟩)⟩

/-- A refusal is never 2xx, and QUIT is never refused. -/
theorem refused_interrupts {env : Environment} {req : Message} {s : Server} {status : Int}
    (reason : Refused env req s) (error : 400 ≤ status) :
    ¬ Interrupts ⟨interpret req.command, req.body, status⟩ := by
  rintro (hq | (⟨-, hs⟩ | ⟨-, hs⟩) | ⟨-, -, hs⟩)
  · have command : interpret req.command = .quit := hq
    simp [Refused, command] at reason
  · simp only at hs
    omega
  · simp only at hs
    omega
  · simp only at hs
    omega

end Exchanges

section Request
variable {env : Environment} {req : Message} {s : Server} {o : Outcome} {t : List Exchange}

private theorem records_only {auth : AuthorizationStatus} {e : Exchange}
    (h : Records (t ++ [e]) auth) (ht : ¬ Transfers e) (ha : ¬ Accepts e) :
    Records (t ++ [e]) auth ∧ (Transfers e → Unspent t) ∧ (Accepts e → Authenticated t t.length) :=
  ⟨h, fun hat => absurd hat ht, fun hac => absurd hac ha⟩

/-- One request keeps the record, transfers only on an unspent acceptance, and accepts only
after a login. -/
theorem records_served (h : Records t s.authStatus) (served : Served env req s o) :
    Records (t ++ [exchange req o]) o.server.authStatus ∧
      (Transfers (exchange req o) → Unspent t) ∧
      (Accepts (exchange req o) → Authenticated t t.length) := by
  cases served with
  | refused fileName status text reason error =>
    have hi : ¬ Interrupts ⟨interpret req.command, req.body, status⟩ :=
      refused_interrupts reason error
    have ht : ¬ Transfers ⟨interpret req.command, req.body, status⟩ := by
      rintro ⟨-, hs⟩
      simp only at hs
      omega
    exact records_only (h.concat hi ht) ht (fun ha => hi (.inr (.inl ha)))
  | identified text command auth body =>
    simp only [exchange, command]
    exact records_only (since_last ⟨rfl, rfl⟩) not_transfers not_accepts
  | loggedOn text command auth body =>
    rw [auth] at h
    simp only [exchange, command]
    have hlogged := authenticated_last (e := ⟨.pass, req.body, 230⟩) h ⟨rfl, rfl⟩ (by simp [Quits])
    exact records_only hlogged not_transfers not_accepts
  | already text command auth =>
    have hi : ¬ Interrupts (⟨.pass, req.body, 200⟩ : Exchange) := by
      simp [Interrupts, Quits, Accepts, Adjusts]
    simp only [exchange, command]
    exact records_only (h.concat hi not_transfers) not_transfers not_accepts
  | left text command =>
    simp only [exchange, command]
    exact records_only trivial not_transfers not_accepts
  | moved relativePath text command auth change =>
    simp only [exchange, command, auth] at h ⊢
    exact records_only (Authenticated.extend h (by simp [Quits])) not_transfers not_accepts
  | typed asciiMode text command auth =>
    simp only [exchange, command, auth] at h ⊢
    exact records_only (Authenticated.extend h (by simp [Quits])) not_transfers not_accepts
  | passive text command auth =>
    simp only [exchange, command, auth] at h ⊢
    refine ⟨⟨Authenticated.extend h (by simp [Quits]), ?_⟩, ?_, fun _ => h⟩
    · exact since_last (.inl ⟨rfl, rfl⟩)
    · exact fun hat => absurd hat not_transfers
  | active address text command auth parsed =>
    simp only [exchange, command, auth] at h ⊢
    refine ⟨⟨Authenticated.extend h (by simp [Quits]), ?_⟩, ?_, fun _ => h⟩
    · exact since_last (.inr ⟨rfl, rfl⟩)
    · exact fun hat => absurd hat not_transfers
  | transferred s' status text starts joined success =>
    obtain ⟨auth, hcommand⟩ := starts
    rw [auth] at h
    have hq : ¬ Quits (exchange req ⟨{ s'.join with authStatus := .loggedIn },
        [newMessage 150 []], 226, text⟩) := by
      rcases hcommand with ⟨command, -⟩ | ⟨command, -⟩ <;> simp [Quits, exchange, command]
    exact ⟨h.1.extend hq, fun _ => h.2, fun _ => h.1⟩
  | failed s' text starts joined =>
    have hauth : s'.join.authStatus = s.authStatus := starts.authStatus.trans starts.1.symm
    obtain ⟨auth, hcommand⟩ := starts
    have hquiet : ∀ command, command = Command.nlst ∨ command = .retr →
        ¬ Interrupts ⟨command, req.body, 500⟩ ∧ ¬ Transfers ⟨command, req.body, 500⟩ := by
      rintro command (rfl | rfl) <;> simp [Interrupts, Quits, Accepts, Adjusts, Transfers]
    obtain ⟨hi, ht⟩ := hquiet (interpret req.command) (hcommand.imp And.left And.left)
    simp only [exchange, hauth]
    exact records_only (h.concat hi ht) ht (fun ha => hi (.inr (.inl ha)))

end Request

structure Ordered (h : Handled) : Prop where
  spent : Preceded Transfers Accepts (fun e => Interrupts e ∨ Transfers e) h.trace
  authenticated : ∀ i, At h.trace i Accepts → Authenticated h.trace i
  records : Records h.trace h.server.authStatus

private theorem Ordered.handle {h h' : Handled} {r : Environment × Message} (ho : Ordered h)
    (hstep : handle h r = some h') : Ordered h' := by
  obtain ⟨o, hexec, rfl⟩ := Option.map_eq_some_iff.mp hstep
  obtain ⟨hrecords, htransfer, haccept⟩ := records_served ho.records (served hexec)
  refine ⟨ho.spent.concat htransfer, fun i hat => ?_, hrecords⟩
  rcases at_concat.mp hat with hat | ⟨rfl, hlast⟩
  · exact (ho.authenticated i hat).concat (Nat.le_of_lt hat.lt)
  · exact (haccept hlast).concat (Nat.le_refl _)

/-- Whatever is requested from NOTLOGGEDIN, and whatever the system answers meanwhile. -/
theorem answers_disciplined (s : Server) (requests : List (Environment × Message)) :
    Runs.Visits handle (fun h => Disciplined h.trace)
      { server := { s with authStatus := .notLoggedIn } } requests := by
  intro p h _ hrun
  have ho : Ordered h := by
    refine Runs.run_invariant (I := Ordered) (fun h r h' => Ordered.handle) ?_ hrun
    exact ⟨preceded_nil, fun i hat => absurd hat.lt (Nat.not_lt_zero _), trivial⟩
  exact ⟨ho.spent.matched, ho.authenticated⟩

end NetworkProtocol.Ftp
