import NetworkProtocol.Library.ByteStream
import NetworkProtocol.Library.CMemory
import NetworkProtocol.Ftp.Server

/-! The server's end of the control connection: main takes each request off the stream with one
recv, and leaves the loop on an error alone. -/
namespace NetworkProtocol.Ftp
open CMemory ByteStream

/-- sizeof(Message): an int, char[5] and char[1024], padded to a multiple of the int. -/
def recordSize : Nat := 1036

abbrev RequestBytes := Record Char recordSize

/-- The block main passes to execute: memset, then the bytes recv has returned. -/
def received (bytes : List Char) : Block := zeroed recordSize bytes

/-- The fields execute reads; none when one of them has no end. -/
def readRequest (block : Block) : Option Message :=
  (cString (block.drop 4)).bind (fun command =>
    (cString (block.drop (4 + maxLenCommand))).map (fun body =>
      { command := command, body := body }))

abbrev RequestLoop := Loop Char Block recordSize

/-- A control connection; finished once main has closed its end. -/
structure Connection where
  loop : RequestLoop := {}
  finished : Bool := false

/-- What happens on the stream, or a recv that returns a negative value. -/
inductive ControlEvent where
  | stream (e : ByteStream.Event Char recordSize)
  | error

namespace Connection

def step (c : Connection) : ControlEvent → Option Connection
  | .stream (.recv k) =>
    if c.finished then none
    else (Loop.step received c.loop (.recv k)).map (fun loop => { c with loop := loop })
  | .stream e => (Loop.step received c.loop e).map (fun loop => { c with loop := loop })
  | .error => if c.finished then none else some { c with finished := true }

/-- The requests executed are the complete records sent, in order: none else, and none missing
once all their bytes have been received. -/
def Framed (c : Connection) : Prop := c.loop.Exact Record.bytes

def Whole (c : Connection) : ControlEvent → Prop
  | .stream e => c.loop.Whole e
  | .error => True

def onStream : ControlEvent → Option (ByteStream.Event Char recordSize)
  | .stream e => some e
  | .error => none

private theorem projects : Runs.Projects step (Loop.step received) loop onStream := by
  intro c a c' h
  cases a with
  | error =>
    obtain ⟨-, h⟩ := Option.ite_none_left_eq_some.mp h
    exact .inr ⟨rfl, (congrArg loop (Option.some.inj h)).symm⟩
  | stream e =>
    refine .inl ⟨e, rfl, ?_⟩
    have hloop : (Loop.step received c.loop e).map (fun loop => { c with loop := loop }) =
        some c' := by
      cases e with
      | recv k => exact (Option.ite_none_left_eq_some.mp h).2
      | send record => exact h
      | close part => exact h
    obtain ⟨loop, hstep, rfl⟩ := Option.map_eq_some_iff.mp hloop
    exact hstep

private theorem whole_iff (c : Connection) (a : ControlEvent) :
    c.Whole a ↔ ∀ e, onStream a = some e → c.loop.Whole e := by
  cases a with
  | stream e => exact ⟨fun h e' he => Option.some.inj he ▸ h, fun h => h e rfl⟩
  | error => exact ⟨fun _ e he => absurd he (by simp [onStream]), fun _ => trivial⟩

end Connection

/-- A whole record leaves nothing to fill. -/
theorem received_record (record : RequestBytes) : received record.bytes = record.bytes := by
  simp [received, zeroed, record.length_bytes]

/-- The requests executed are those sent as long as each successful recv returns a whole record;
once everything sent has been received they are so in no other case. -/
theorem control_framed_iff (events : List ControlEvent) :
    (Runs.Along Connection.step Connection.Whole {} events →
      Runs.Visits Connection.step Connection.Framed {} events) ∧
    ∀ c, Runs.run Connection.step {} events = some c → c.loop.received = c.loop.bytes.length →
      (c.Framed ↔ Runs.Along Connection.step Connection.Whole {} events) := by
  have hpos : 0 < recordSize := by decide
  have hexact := Loop.exact_iff hpos received_record
  refine ⟨fun along p c hp hrun => ?_, fun c hrun hall => ?_⟩
  · have halong : Runs.Along Connection.step Connection.Whole {} p :=
      fun q a s s' hq => along q a s s' (hq.trans hp)
    rw [Runs.along_project Connection.projects Connection.whole_iff hrun] at halong
    exact (hexact _).1 halong _ _ (List.prefix_refl _) (Runs.run_project Connection.projects hrun)
  · rw [Runs.along_project Connection.projects Connection.whole_iff hrun]
    exact (hexact _).2 c.loop (Runs.run_project Connection.projects hrun) hall

/-- At the end of the stream recv returns 0, and a request of zeros is executed. -/
theorem execute_zeros (env : Environment) (s : Server) :
    (readRequest (received [])).bind (fun req => execute env req s) =
      some (s.answer 404 "unknown command") := by
  have hzeros (k : Nat) (hk : k < recordSize) : cString ((received []).drop k) = some [] := by
    obtain ⟨n, hn⟩ : ∃ n, recordSize - k = n + 1 := ⟨recordSize - k - 1, by omega⟩
    have hdrop : (received []).drop k = List.replicate (recordSize - k) nul := by
      simp [received, zeroed]
    rw [hdrop, hn, List.replicate_succ]
    exact if_pos rfl
  rw [readRequest, hzeros 4 (by decide), Option.bind_some, hzeros _ (by decide), Option.map_some]
  rfl

/-- A client that goes away without a word has requests executed for as long as the server runs. -/
theorem executed_after_close : ¬ ∀ events c,
    Runs.run Connection.step {} events = some c → c.Framed := by
  intro h
  have hframed := h [.stream (.close []), .stream (.recv 0), .stream (.recv 0)]
    ⟨⟨[], [], true, 0, [received [], received []]⟩, false⟩ rfl
  have hle := hframed.1.length_le
  simp at hle

end NetworkProtocol.Ftp
