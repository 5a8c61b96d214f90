import NetworkProtocol.Ftp.PortText

/-! What PORT takes for an address. The loop over the body refuses a token of more than three
characters and nothing else, though six numbers from 0 to 255 are asked for. -/
namespace NetworkProtocol.Ftp
open CString Server

def IsByte (w : CString) : Prop := w ≠ [] ∧ (∀ c ∈ w, c.isDigit = true) ∧ digits w ≤ 255

def Grammatical (body : CString) : Prop :=
  (tokens (',' :: whitespace) body).length = 6 ∧ ∀ w ∈ tokens (',' :: whitespace) body, IsByte w

def portRequest (body : CString) : Message := { command := "port".toList, body := body }

def Server.loggedIn (s : Server) : Server := { s with authStatus := .loggedIn }

/-- What is asked of an answer to PORT: a mode is selected for an address alone, and all else is
refused, with no thread and the login as it was. -/
structure Judged (body : CString) (s : Server) (o : Outcome) : Prop where
  accepts : o.status = 200 ∧ o.server.authStatus = .modeSelected → Grammatical body
  refuses : ¬ Grammatical body → o.status = 400 ∧ o.server.created = s.created ∧
    o.server.unjoined = s.unjoined ∧ o.server.authStatus = .loggedIn

/-- The loop stops at a token that is too long and at nothing else. -/
theorem parseAddress_eq_none_iff (pchs : List CString) (idx : Nat) (address : Address) :
    parseAddress pchs idx address = none ↔ ∃ pch ∈ pchs, 3 < pch.length := by
  induction pchs generalizing idx address with
  | nil => simp [parseAddress]
  | cons pch rest ih =>
    rw [parseAddress]
    by_cases hlong : 3 < pch.length
    · rw [if_pos hlong]
      exact ⟨fun _ => ⟨pch, List.mem_cons_self, hlong⟩, fun _ => rfl⟩
    · rw [if_neg hlong, ih]
      simp [hlong]

/-- A body is refused just when one of its tokens is too long. -/
theorem requested_eq_none_iff (body : CString) :
    requested body = none ↔ ∃ pch ∈ tokens (',' :: whitespace) body, 3 < pch.length :=
  parseAddress_eq_none_iff _ _ _

private theorem execute_portRequest (env : Environment) (s : Server) (body : CString) :
    execute env (portRequest body) s = some (s.port env body) := rfl

section Answer
variable {env : Environment} {s : Server} {body : CString}

private theorem not_loginFirst : ¬ s.loggedIn.authStatus ≠ .loggedIn := not_not.mpr rfl

private theorem port_refused (h : requested body = none) : s.loggedIn.port env body =
    s.loggedIn.answer 400 "invalid port number encountered. Try Agiain" := by
  rw [Server.port, if_neg not_loginFirst, h]

private theorem port_accepted {address : Address} (h : requested body = some address) :
    (s.loggedIn.port env body).status = 200 ∧
      (s.loggedIn.port env body).server.authStatus = .modeSelected := by
  rw [Server.port, if_neg not_loginFirst, h]
  dsimp only
  rw [selectMode_eq]
  exact ⟨rfl, rfl⟩

end Answer

/-- PORT keeps to the grammar on the addresses and on the bodies with a token that is too long;
any other body selects a mode. -/
theorem port_judged_iff (env : Environment) (s : Server) (body : CString) :
    (∃ o, execute env (portRequest body) s.loggedIn = some o ∧ Judged body s o) ↔
      Grammatical body ∨ ∃ pch ∈ tokens (',' :: whitespace) body, 3 < pch.length := by
  rw [execute_portRequest, ← requested_eq_none_iff]
  constructor
  · rintro ⟨o, ho, judged⟩
    obtain rfl := Option.some.inj ho
    cases hrequest : requested body with
    | none => exact .inr rfl
    | some address => exact .inl (judged.accepts (port_accepted hrequest))
  · intro h
    refine ⟨_, rfl, ?_⟩
    cases hrequest : requested body with
    | none =>
      rw [port_refused hrequest]
      exact ⟨fun haccepted => absurd haccepted.1 (by simp [answer]), fun _ => ⟨rfl, rfl, rfl, rfl⟩⟩
    | some address =>
      have hgrammar := h.resolve_right (by simp [hrequest])
      exact ⟨fun _ => hgrammar, fun hnot => absurd hgrammar hnot⟩

/-- An empty body selects a mode. -/
theorem port_empty_accepted : ¬ Grammatical [] ∧
    ∃ o, execute ⟨fun _ => none, fun _ => 0, 0, 0, none⟩ (portRequest [])
        { authStatus := .loggedIn } = some o ∧
      o.status = 200 ∧ o.server.authStatus = .modeSelected ∧ o.server.created = 1 := by
  refine ⟨fun h => ?_, _, rfl, rfl, rfl, rfl⟩
  have hlength := h.1
  rw [tokens_nil] at hlength
  exact absurd hlength (by simp)

end NetworkProtocol.Ftp
