import NetworkProtocol.Ftp.Served
import NetworkProtocol.Ftp.Client

/-! The port of active mode. The server prints its int into the reply to PORT, and the client's
data thread reads it back from there. -/
namespace NetworkProtocol.Ftp
open CString Server

private theorem wrap_bounds (n : Int) : -2147483648 ≤ wrap n ∧ wrap n ≤ 2147483647 := by
  have hlow : -(4294967296 / 2) ≤ wrap n := Int.le_bmod (by decide)
  have hhigh : wrap n < (4294967296 + 1) / 2 := Int.bmod_lt (by decide)
  omega

private theorem add_bounds {address : Address} {idx : Nat} {value : Int}
    (h : -2147483648 ≤ address.port ∧ address.port ≤ 2147483647) :
    -2147483648 ≤ (address.add idx value).port ∧ (address.add idx value).port ≤ 2147483647 := by
  rw [Address.add]
  split_ifs
  · exact h
  · exact h
  · exact wrap_bounds _

/-- PORT's port stays an int through the whole loop. -/
theorem parseAddress_bounds {pchs : List CString} {idx : Nat} {start address : Address}
    (h : parseAddress pchs idx start = some address)
    (hstart : -2147483648 ≤ start.port ∧ start.port ≤ 2147483647) :
    -2147483648 ≤ address.port ∧ address.port ≤ 2147483647 := by
  induction pchs generalizing idx start with
  | nil => exact Option.some.inj h ▸ hstart
  | cons pch rest ih =>
    rw [parseAddress] at h
    split at h
    · cases h
    · exact ih h (add_bounds hstart)

/-- The client's first token is the message, its second one the printed port. -/
theorem dataPort_successful (port : Int) :
    dataPort .port ("Port command successful :".toList ++ decimal port) = some (some port) := by
  have hmessage : ∀ c ∈ "Port command successful ".toList, c ∉ [':'] := by simp
  have hport : ∀ c ∈ decimal port, c ∉ [':'] := by
    intro c hc hcolon
    obtain rfl := List.mem_singleton.mp hcolon
    exact absurd (mem_decimal hc) (by decide)
  have htext : "Port command successful :".toList = "Port command successful ".toList ++ [':'] := by
    decide
  rw [dataPort, htext, List.append_assoc, List.singleton_append,
    tokens_cons (by decide) hmessage (by decide), tokens_word (decimal_ne_nil port) hport]
  exact congrArg (fun n => some (some n)) (atoi_decimal port)

section Reply
variable {env : Environment} {req : Message} {s : Server} {o : Outcome}

/-- What 200 to PORT says of the request, the reply text and the globals. -/
theorem port_reply (hexec : execute env req s = some o)
    (command : interpret req.command = .port) (status : o.status = 200) :
    ∃ address, requested req.body = some address ∧
      o.responseMessage = "Port command successful :".toList ++ decimal address.port ∧
      o.server = { s.create env address.port with authStatus := .modeSelected } := by
  have hport : s.port env req.body = o := by
    rw [execute, command] at hexec
    exact Option.some.inj hexec
  rw [Server.port] at hport
  split at hport
  · rw [← hport] at status
    exact absurd status (show (401 : Int) ≠ 200 by decide)
  · split at hport
    · rw [← hport] at status
      exact absurd status (show (400 : Int) ≠ 200 by decide)
    · rename_i address parsed
      rw [selectMode_eq] at hport
      rw [← hport]
      exact ⟨address, parsed, rfl, rfl⟩

/-- Whatever the body of PORT: the port for which a data thread was created is the one the
client's thread reads in the reply, over the whole range of int. -/
theorem active_ports_agree (hexec : execute env req s = some o)
    (command : interpret req.command = .port) (status : o.status = 200) :
    ∃ port, (requested req.body).map Address.port = some port ∧
      -2147483648 ≤ port ∧ port ≤ 2147483647 ∧
      (env.createResult = 0 → o.server.unjoined = s.unjoined ++ [⟨o.server.dataThread, port⟩]) ∧
      dataPort .port o.responseMessage = some (some port) := by
  obtain ⟨address, parsed, htext, hserver⟩ := port_reply hexec command status
  obtain ⟨hlow, hhigh⟩ := parseAddress_bounds parsed (by decide)
  refine ⟨address.port, ?_, hlow, hhigh, ?_, ?_⟩
  · rw [parsed, Option.map_some]
  · intro hcreate
    rw [hserver]
    simp [create, hcreate]
  · rw [htext]
    exact dataPort_successful address.port

end Reply

private def quiet : Environment := ⟨fun _ => none, fun _ => 0, 0, 0, none⟩

private def loggedOn : Server := { authStatus := .loggedIn }

private def farPort : Message :=
  { command := "port".toList, body := "0,0,0,0,200,255,255,255".toList }

/-- Both sides wrap a port beyond an int alike. -/
theorem wrapped_ports_agree :
    ∃ o, execute quiet farPort loggedOn = some o ∧
      ∃ port, (requested farPort.body).map Address.port = some port ∧
        -2147483648 ≤ port ∧ port ≤ 2147483647 ∧
        (quiet.createResult = 0 →
          o.server.unjoined = loggedOn.unjoined ++ [⟨o.server.dataThread, port⟩]) ∧
        dataPort .port o.responseMessage = some (some port) := by
  have hexec : execute quiet farPort loggedOn = some (loggedOn.port quiet farPort.body) := rfl
  exact ⟨_, hexec, active_ports_agree hexec (by decide) rfl⟩

end NetworkProtocol.Ftp
