import NetworkProtocol.Ftp.Framing
import NetworkProtocol.Ftp.Prompt
import NetworkProtocol.Ftp.Retrieval

/-! The control connection in bytes: the lines typed, the records that both programs fill and
read, the strings that execute puts together, and recv on the two streams. It is the connection of
messages, as long as all fits. -/
namespace NetworkProtocol.Ftp
open CString CMemory ByteStream

def messageBytes (status : Int) (command body : Block) : Block :=
  intBytes status ++ command ++ body ++ zeroed 3 []

def newRecord (status : Int) (text : CString) : Option Block :=
  (writeString (zeroed maxBufferSize []) 0 text).map
    (messageBytes status (zeroed maxLenCommand []))

def readReply (block : Block) : Option Message :=
  (cString (block.drop (4 + maxLenCommand))).map (newMessage (readInt block))

/-- A message but for the text of a 150, which is what responseMessage still held. -/
def Message.settled (m : Message) : Message := if m.status = 150 then { m with body := [] } else m

def Phase.settled : Phase → Phase
  | .creating res => .creating res.settled
  | phase => phase

def Client.settled (c : Client) : Client := { c with phase := c.phase.settled }

/-- A reply text that is a string, under a status of three digits that is no 150. -/
structure Outcome.Plain (o : Outcome) : Prop where
  free : nul ∉ o.responseMessage
  low : 200 ≤ o.status
  high : o.status < 1000

/-- What execute puts together besides its reply, with the sizes of the arrays: intermediateMessage,
and relativePath when CWD has appended to it. -/
def composed (env : Environment) (req : Message) (server : Server) (o : Outcome) :
    List (Nat × CString) :=
  match interpret req.command with
  | .nlst =>
    if startsTransfer env req server then
      [(maxBufferSize,
        "Opening data channel of directory listing of ".toList ++ server.relativePath)]
    else []
  | .retr =>
    if startsTransfer env req server then
      [(maxBufferSize, "Opening data Channel of file donwload from server of \"".toList ++
        o.server.fileName.getD [] ++ "\"".toList)]
    else []
  | .cwd => if o.status = 226 then [(maxRelativePathLength, o.server.relativePath)] else []
  | _ => []

/-- Both programs, and the bytes sent and not yet received. stdin is what scanf has left, and
responseMessage the memory where main's pointer, which it never sets, is taken to point. -/
structure Wire where
  client : Client := {}
  stdin : List Char := []
  serving : Serving := .receiving {}
  responseMessage : Block := zeroed maxBufferSize []
  requests : List Char := []
  replies : List Char := messageBytes 220 (zeroed maxLenCommand [])
    (zeroed maxBufferSize "Server ready".toList)

/-- What is typed at one prompt, into a block as malloc returns it: lines that start with no
command, and one that does. -/
structure Typing where
  userInput : Block
  rejected : List Line
  line : Line
  size : userInput.length = maxBufferSize
  rejects : ∀ r ∈ rejected, toLowercase r.firstWord ∉ commandWords
  accepts : toLowercase line.firstWord ∈ commandWords

namespace Wire

inductive Event where
  | ask (typing : Typing)
  | serve (env : Environment) (joinStatus : Int) (k : Nat)
  | reply
  | receive (k : Nat)
  | create (createResult : Nat) (createHandle : Thread)
  | join
  | serverExits
  | clientExits

def gone (w : Wire) : Bool :=
  match w.serving with
  | .ended => true
  | _ => false

/-- execute on the record, its own sends and the text it leaves; the text of a 150 is the one left
before. -/
def execute (w : Wire) (env : Environment) (req : Message) (server : Server)
    (requests : List Char) : Option Wire :=
  match Ftp.execute env req server with
  | none => some { w with serving := .ended, requests := requests }
  | some o => do
    let _ ← (composed env req server o).mapM fun (size, text) =>
      writeString (zeroed size []) 0 text
    let left ← cString w.responseMessage
    let sent ← o.sent.mapM (fun message => newRecord message.status left)
    let responseMessage ← writeString w.responseMessage 0 o.responseMessage
    return { w with
      serving := .answering o (startsTransfer env req server)
      responseMessage := responseMessage
      requests := requests
      replies := w.replies ++ sent.flatten }

/-- None stands for a recv that blocks, and for a read or a write that leaves its memory. -/
def step (w : Wire) : Event → Option Wire
  | .ask typing =>
    match w.client.phase with
    | .prompting => do
      let typed := Ftp.typed (typing.rejected ++ [typing.line])
      let (command, req, stdin) ← prompt typing.userInput (w.stdin ++ typed)
      let left ← cString req.body
      return { w with
        client := w.client.ask command { body := left }
        stdin := stdin
        requests := w.requests ++ messageBytes 0 req.command req.body }
    | _ => none
  | .serve env joinStatus k =>
    match w.serving with
    | .receiving server => do
      let (bytes, requests) ← pull recordSize false w.requests k
      let req ← readRequest (received bytes)
      w.execute { env with joinStatus := some joinStatus } req server requests
    | _ => none
  | .reply =>
    match w.serving with
    | .answering o _ => do
      let text ← cString w.responseMessage
      let record ← newRecord o.status text
      return { w with serving := .receiving o.server, replies := w.replies ++ record }
    | _ => none
  | .receive k =>
    match w.client.phase with
    | .receiving => do
      let (bytes, replies) ← pull recordSize w.gone w.replies k
      let res ← readReply (received bytes)
      return { w with
        client := { w.client with phase := callback w.client.sentCommand res }
        replies := replies }
    | .finishing => do
      let (_, replies) ← pull recordSize w.gone w.replies k
      return { w with client := { w.client with phase := .prompting }, replies := replies }
    | _ => none
  | .create createResult createHandle =>
    match w.client.phase with
    | .creating _ => some { w with client := w.client.create createResult createHandle }
    | _ => none
  | .join =>
    match w.client.phase with
    | .joining => some { w with client := w.client.join }
    | _ => none
  | .serverExits => some { w with serving := .ended }
  | .clientExits => some { w with client := { w.client with phase := .exited } }

def Event.actions : Event → List Action
  | .ask typing => typing.rejected.map (.ask ·.text) ++ [.ask typing.line.text]
  | .serve env joinStatus _ => [.serve env joinStatus]
  | .reply => [.reply]
  | .receive _ => [.receive]
  | .create createResult createHandle => [.create createResult createHandle]
  | .join => [.join]
  | .serverExits => [.serverExits]
  | .clientExits => [.clientExits]

def spoken (s : System) (e : Event) : Option System := Runs.run System.step s e.actions

/-- Each recv returns one whole record, or 0 at the end, and there is room for each reply and for
what else execute puts together. -/
def Event.Fits (s : System) : Event → Prop
  | .serve env joinStatus k => k = recordSize ∧ ∀ server req rest o,
    s.serving = .receiving server → s.requests = req :: rest →
      Ftp.execute { env with joinStatus := some joinStatus } req server = some o →
        o.responseMessage.length < maxBufferSize ∧
          ∀ c ∈ composed { env with joinStatus := some joinStatus } req server o, c.2.length < c.1
  | .receive k => k = if s.replies = [] then 0 else recordSize
  | _ => True

/-- What the client reads of a reply, but for the text of a 150. -/
def readSettled (block : Block) : Option Message := (readReply block).map Message.settled

/-- The bytes are the messages, and what is left of the input is blank. -/
structure Carries (w : Wire) (s : System) : Prop where
  client : w.client.settled = s.client
  serving : w.serving = s.serving
  blank : ∀ c ∈ w.stdin, isSpace c = true
  requests : Bears readRequest recordSize w.requests s.requests
  replies : Bears readSettled recordSize w.replies (s.replies.map (·.message))
  size : w.responseMessage.length = maxBufferSize
  readable : (cString w.responseMessage).isSome
  response : ∀ o started, s.serving = .answering o started →
    cString w.responseMessage = some o.responseMessage ∧ o.Plain
  path : ∀ server, s.server = some server → nul ∉ server.relativePath

end Wire

section Texts
variable {env : Environment} {req : Message} {s : Server} {o : Outcome}

private theorem nul_not_mem_decimal (n : Int) : nul ∉ decimal n := by
  intro h
  rcases mem_decimal h with h | h
  · cases h
  · cases h

private theorem plain_mk {sent : List Message} {status : Int} {text : CString} (hfree : nul ∉ text)
    (hlow : 200 ≤ status) (hhigh : status < 1000) : Outcome.Plain ⟨s, sent, status, text⟩ :=
  ⟨hfree, hlow, hhigh⟩

/-- What %s puts between two constants. -/
theorem plain_quoted {sent : List Message} {status : Int} {before after : String} {text : CString}
    (hbefore : nul ∉ before.toList) (htext : nul ∉ text) (hafter : nul ∉ after.toList)
    (hlow : 200 ≤ status) (hhigh : status < 1000) :
    Outcome.Plain ⟨s, sent, status, before.toList ++ text ++ after.toList⟩ := by
  refine ⟨?_, hlow, hhigh⟩
  rw [List.mem_append, List.mem_append, not_or, not_or]
  exact ⟨⟨hbefore, htext⟩, hafter⟩

private theorem plain_loginFirst (s : Server) : s.loginFirst.Plain :=
  plain_mk (by decide) (by decide) (by decide)

private theorem plain_selectModeFirst (s : Server) : s.selectModeFirst.Plain :=
  plain_mk (by decide) (by decide) (by decide)

private theorem plain_selectMode {port status : Int} {text : CString} (htext : nul ∉ text)
    (hlow : 200 ≤ status) (hhigh : status < 1000) :
    (Server.selectMode env port status text s).Plain := by
  rw [Server.selectMode]
  split
  · exact plain_mk (by decide) (by decide) (by decide)
  · exact plain_mk htext hlow hhigh

private theorem plain_transfer {command : Command} {subject : CString} (hsubject : nul ∉ subject)
    (h : Server.transfer env command subject s = some o) : o.Plain := by
  obtain ⟨status, -, rfl⟩ := Option.map_eq_some_iff.mp h
  dsimp only
  split
  · exact plain_mk (by decide) (by decide) (by decide)
  · exact plain_quoted (by decide) hsubject (by decide : nul ∉ "\n".toList) (by decide) (by decide)

private theorem plain_user (s : Server) (body : CString) : (s.user body).Plain := by
  rw [Server.user]
  split
  · split <;> exact plain_mk (by decide) (by decide) (by decide)
  · exact plain_mk (by decide) (by decide) (by decide)

private theorem plain_pass (s : Server) (body : CString) : (s.pass body).Plain := by
  rw [Server.pass]
  split
  · exact plain_mk (by decide) (by decide) (by decide)
  · split <;> exact plain_mk (by decide) (by decide) (by decide)
  · exact plain_mk (by decide) (by decide) (by decide)
  · exact plain_mk (by decide) (by decide) (by decide)

private theorem plain_type {body : CString} (hbody : nul ∉ body) (s : Server) :
    (s.type body).Plain := by
  unfold Server.type
  split
  · exact plain_loginFirst s
  · split
    · split
      · exact plain_quoted (by decide) hbody (by decide) (by decide) (by decide)
      · split
        · exact plain_quoted (by decide) hbody (by decide) (by decide) (by decide)
        · exact plain_quoted (by decide) hbody (by decide : nul ∉ "\"".toList) (by decide)
            (by decide)
    · exact plain_quoted (by decide) hbody (by decide) (by decide) (by decide)

private theorem plain_cwd {body : CString} (hbody : nul ∉ body) (hpath : nul ∉ s.relativePath)
    (h : s.cwd env body = some o) : o.Plain := by
  rw [Server.cwd] at h
  split at h
  · obtain rfl := Option.some.inj h
    exact plain_loginFirst s
  · split at h
    · cases h
    · obtain rfl := Option.some.inj h
      exact plain_quoted (by decide) hpath (by decide : nul ∉ "\"".toList) (by decide) (by decide)
    · rename_i path hchange
      obtain rfl := Option.some.inj h
      obtain ⟨name, hfirst, hmoved⟩ := changeWorkingDirectory_some hchange
      have hfree : nul ∉ path := by
        rw [hmoved, List.mem_append, not_or]
        exact ⟨hpath, fun hmem => hbody (mem_of_mem_tokens (List.mem_of_mem_head? hfirst) hmem)⟩
      exact plain_quoted (by decide) hfree (by decide : nul ∉ "\"".toList) (by decide) (by decide)

private theorem plain_nlst (hpath : nul ∉ s.relativePath) (h : s.nlst env = some o) : o.Plain := by
  rw [Server.nlst] at h
  split at h
  · obtain rfl := Option.some.inj h
    exact plain_selectModeFirst s
  · exact plain_transfer hpath h

private theorem plain_retr {body : CString} (hbody : nul ∉ body) (h : s.retr env body = some o) :
    o.Plain := by
  rw [Server.retr] at h
  split at h
  · obtain rfl := Option.some.inj h
    exact plain_selectModeFirst s
  · have hname {name : CString} (hfirst : (tokens whitespace body).head? = some name) :
        nul ∉ name :=
      fun hmem => hbody (mem_of_mem_tokens (List.mem_of_mem_head? hfirst) hmem)
    dsimp only at h
    split at h
    · rename_i name hcheck hfirst
      obtain rfl := Option.some.inj h
      refine plain_mk ?_ (by decide) (by decide)
      rw [List.mem_append, not_or]
      exact ⟨by decide, hname hfirst⟩
    · rename_i name hcheck hfirst
      exact plain_transfer (hname hfirst) h
    · cases h

private theorem plain_pasv (s : Server) : (s.pasv env).Plain := by
  rw [Server.pasv]
  split
  · exact plain_loginFirst s
  · refine plain_selectMode ?_ (by decide) (by decide)
    simp only [List.mem_append, not_or]
    exact ⟨⟨⟨by decide, nul_not_mem_decimal _⟩, by decide⟩, nul_not_mem_decimal _⟩

private theorem plain_port (s : Server) (body : CString) : (s.port env body).Plain := by
  rw [Server.port]
  split
  · exact plain_loginFirst s
  · split
    · exact plain_mk (by decide) (by decide) (by decide)
    · refine plain_selectMode ?_ (by decide) (by decide)
      rw [List.mem_append, not_or]
      exact ⟨by decide, nul_not_mem_decimal _⟩

/-- Every reply to a request of strings is a string. -/
theorem plain_execute (hbody : nul ∉ req.body) (hpath : nul ∉ s.relativePath)
    (h : execute env req s = some o) : o.Plain := by
  rw [execute] at h
  split at h
  · exact Option.some.inj h ▸ plain_user s req.body
  · exact Option.some.inj h ▸ plain_pass s req.body
  · exact plain_nlst hpath h
  · exact plain_retr hbody h
  · exact plain_cwd hbody hpath h
  · exact Option.some.inj h ▸ plain_mk (by decide) (by decide) (by decide)
  · exact Option.some.inj h ▸ plain_type hbody s
  · exact Option.some.inj h ▸ plain_pasv s
  · exact Option.some.inj h ▸ plain_port s req.body
  · exact Option.some.inj h ▸ plain_mk (by decide) (by decide) (by decide)

/-- execute sends nothing itself but the 150 of a transfer. -/
theorem sent_execute (h : execute env req s = some o) :
    o.sent = [] ∨ o.sent = [newMessage 150 []] := by
  cases served h with
  | transferred => exact .inr rfl
  | failed => exact .inr rfl
  | _ => exact .inl rfl

end Texts

section Records
variable {status : Int} {text : CString} {command body : Block}

private theorem length_messageBytes (hcommand : command.length = maxLenCommand)
    (hbody : body.length = maxBufferSize) :
    (messageBytes status command body).length = recordSize := by
  simp [messageBytes, intBytes, zeroed, hcommand, hbody, maxLenCommand, maxBufferSize, recordSize]

/-- The client reads the reply that the server has put into a record. -/
theorem newRecord_read (hfree : nul ∉ text) (hlength : text.length < maxBufferSize)
    (hlow : 0 ≤ status) (hhigh : status < 1000) : ∃ record : RequestBytes,
      newRecord status text = some record.bytes ∧
        readReply record.bytes = some (newMessage status text) := by
  have hcommand : (zeroed maxLenCommand []).length = maxLenCommand :=
    length_zeroed (Nat.zero_le _)
  have hbody : (zeroed maxBufferSize text).length = maxBufferSize := length_zeroed hlength.le
  refine ⟨⟨messageBytes status _ _, length_messageBytes hcommand hbody⟩, ?_, ?_⟩
  · rw [newRecord, writeString_zeroed hlength, Option.map_some]
  · have hdrop : (messageBytes status (zeroed maxLenCommand [])
        (zeroed maxBufferSize text)).drop (4 + maxLenCommand) =
          zeroed maxBufferSize text ++ zeroed 3 [] := by
      rw [messageBytes, List.append_assoc]
      exact List.drop_left' (by rw [List.length_append, hcommand]; rfl)
    have hstatus : readInt (messageBytes status (zeroed maxLenCommand [])
        (zeroed maxBufferSize text)) = status := by
      rw [messageBytes, List.append_assoc, List.append_assoc]
      exact readInt_intBytes (by omega) (by omega) _
    rw [readReply, hdrop, cString_zeroed hfree hlength, Option.map_some, hstatus]

/-- The server reads the strings of the record that the client has filled. -/
theorem readRequest_messageBytes {name left : CString} (hlength : command.length = maxLenCommand)
    (hname : cString command = some name) (hleft : cString body = some left) :
    readRequest (messageBytes 0 command body) = some { command := name, body := left } := by
  have hcommand : (messageBytes 0 command body).drop 4 = command ++ (body ++ zeroed 3 []) := by
    rw [messageBytes, List.append_assoc, List.append_assoc]
    rfl
  have hbody : (messageBytes 0 command body).drop (4 + maxLenCommand) = body ++ zeroed 3 [] := by
    rw [← List.drop_drop, hcommand, List.drop_left' hlength]
  rw [readRequest, hcommand, hbody, cString_extend hname, Option.bind_some,
    cString_extend hleft, Option.map_some]

private theorem readRequest_free {block : Block} {req : Message}
    (h : readRequest block = some req) :
    nul ∉ req.body := by
  obtain ⟨command, -, h⟩ := Option.bind_eq_some_iff.mp h
  obtain ⟨body, hbody, rfl⟩ := Option.map_eq_some_iff.mp h
  exact (cString_spec hbody).1

/-- A recv that returns 0 leaves the zeros that memset has put there. -/
theorem readReply_zeros : readReply (received []) = some {} := by decide +kernel

end Records

section Prompt
variable {userInput : Block} {pending : List Char} {rejected : List Line} {l : Line}

private theorem length_body {e : Entry} {req : RequestRecord} (h : fillRequest e = some req) :
    req.body.length = maxBufferSize := by
  rw [fillRequest] at h
  obtain ⟨inputCommand, -, h⟩ := Option.bind_eq_some_iff.mp h
  obtain ⟨command, -, h⟩ := Option.bind_eq_some_iff.mp h
  obtain ⟨t, -, h⟩ := Option.bind_eq_some_iff.mp h
  obtain ⟨left, -, h⟩ := Option.bind_eq_some_iff.mp h
  obtain ⟨body, hbody, rfl⟩ := Option.map_eq_some_iff.mp h
  rw [length_writeString hbody]
  exact length_zeroed (Nat.zero_le _)

/-- The record that goes out of a prompt, and what a server reads in it. -/
theorem prompt_record (hsize : userInput.length = maxBufferSize)
    (hblank : ∀ c ∈ pending, isSpace c = true)
    (hrejected : ∀ r ∈ rejected, toLowercase r.firstWord ∉ commandWords)
    (hl : toLowercase l.firstWord ∈ commandWords) : ∃ req,
      prompt userInput (pending ++ typed (rejected ++ [l])) =
        some (interpret l.firstWord, req, ['\n']) ∧
      (messageBytes 0 req.command req.body).length = recordSize ∧
      cString req.body = some ((l.words[1]?).getD []) ∧
      readRequest (messageBytes 0 req.command req.body) = some
        { command := toLowercase l.firstWord, body := (l.words[1]?).getD [] } := by
  have hfuel : rejected.length < (pending ++ typed (rejected ++ [l])).length + 1 := by
    have hlines := length_le_typed (rejected ++ [l])
    simp only [List.length_append, List.length_singleton] at hlines ⊢
    omega
  obtain ⟨e, hretry, entered⟩ := retry_typed [] rejected l hrejected hl hfuel hblank hsize
  rw [List.append_nil] at hretry
  obtain ⟨req, hreq, hlength, hcommand, hbody⟩ := fillRequest_entered entered hl
  obtain ⟨first, hfirst, hretry⟩ := Option.bind_eq_some_iff.mp hretry
  refine ⟨req, ?_, length_messageBytes hlength (length_body hreq), hbody,
    readRequest_messageBytes hlength hcommand hbody⟩
  rw [prompt, hfirst, Option.bind_some, hretry, Option.bind_some, hreq, Option.map_some,
    entered.stdin, entered.command]

private theorem request_rejected {r : Line} (h : toLowercase r.firstWord ∉ commandWords) :
    request r.text = none := by
  obtain ⟨-, -, hwords, -⟩ := r.cut
  have htokens : tokens whitespace r.text = r.firstWord :: r.words.tail := hwords
  rw [request, htokens]
  exact if_pos ((interpret_eq_unknown_iff _).mpr h)

end Prompt

namespace Wire
variable {w : Wire} {s : System}

private theorem gone_iff (w : Wire) : w.gone = true ↔ w.serving = .ended := by
  rw [gone]
  split <;> simp_all

private theorem spoken_one (s : System) {e : Event} {a : Action} (h : e.actions = [a]) :
    spoken s e = s.step a := by
  rw [spoken, h, Runs.run_cons]
  cases s.step a <;> rfl

private theorem run_rejected (hphase : s.client.phase = .prompting) (rejected : List Line)
    (h : ∀ r ∈ rejected, toLowercase r.firstWord ∉ commandWords) :
    Runs.run System.step s (rejected.map (.ask ·.text)) = some s := by
  induction rejected with
  | nil => rfl
  | cons r rejected ih =>
    obtain ⟨hr, hrest⟩ := List.forall_mem_cons.mp h
    have hask : s.step (.ask r.text) = some s := by
      simp only [System.step, hphase, request_rejected hr]
    rw [List.map_cons, Runs.run_cons, hask, Option.bind_some, ih hrest]

private theorem spoken_ask_none (hphase : s.client.phase ≠ .prompting) (typing : Typing) :
    spoken s (.ask typing) = none := by
  have hstep (text : CString) : s.step (.ask text) = none := by
    rw [System.step]
    split <;> simp_all
  rw [spoken, Event.actions]
  cases typing.rejected with
  | nil => rw [List.map_nil, List.nil_append, Runs.run_cons, hstep, Option.bind_none]
  | cons r rejected => rw [List.map_cons, List.cons_append, Runs.run_cons, hstep, Option.bind_none]

private theorem spoken_ask (hphase : s.client.phase = .prompting) (typing : Typing) :
    spoken s (.ask typing) = some (s.ask (interpret typing.line.firstWord)
      { command := toLowercase typing.line.firstWord
        body := (typing.line.words[1]?).getD [] }) := by
  have hask : s.step (.ask typing.line.text) = some (s.ask (interpret typing.line.firstWord)
      { command := toLowercase typing.line.firstWord
        body := (typing.line.words[1]?).getD [] }) := by
    simp only [System.step, hphase, request_text typing.accepts]
  rw [spoken, Event.actions, Runs.run_append, run_rejected hphase _ typing.rejects,
    Option.bind_some, Runs.run_cons, hask]
  rfl

private theorem settled_of_ne {m : Message} (h : m.status ≠ 150) : m.settled = m := if_neg h

private theorem callback_settled (command : Command) (res : Message) :
    (callback command res).settled = callback command res.settled := by
  have hstatus : res.settled.status = res.status := by
    rw [Message.settled]
    split <;> rfl
  cases command with
  | nlst => simp only [callback, hstatus]; split <;> rfl
  | retr => simp only [callback, hstatus]; split <;> rfl
  | _ => rfl

private theorem Carries.phase (h : Carries w s) : s.client.phase = w.client.phase.settled := by
  rw [← h.client]
  rfl

private theorem Carries.prompting (h : Carries w s) :
    w.client.phase = .prompting ↔ s.client.phase = .prompting := by
  rw [h.phase]
  cases w.client.phase <;> simp [Phase.settled]

private theorem Carries.ask (h : Carries w s) (typing : Typing) :
    Option.Rel Carries (w.step (.ask typing)) (spoken s (.ask typing)) := by
  by_cases hphase : s.client.phase = .prompting
  · have hphase' : w.client.phase = .prompting := h.prompting.mpr hphase
    obtain ⟨req, hprompt, hlength, hleft, hread⟩ :=
      prompt_record typing.size h.blank typing.rejects typing.accepts
    rw [spoken_ask hphase]
    simp only [step, hphase', hprompt, hleft, Option.bind_eq_bind, Option.bind_some]
    refine .some ⟨?_, h.serving, ?_, ?_, h.replies, h.size, h.readable, h.response, h.path⟩
    · simp only [System.ask, ← h.client]
      rfl
    · simp [isSpace]
    · exact h.requests.push ⟨_, hlength⟩ hread
  · have hphase' : w.client.phase ≠ .prompting := fun hp => hphase (h.prompting.mp hp)
    have hnone : w.step (.ask typing) = none := by
      rw [step]
      split
      · exact absurd ‹_› hphase'
      · rfl
    rw [hnone, spoken_ask_none hphase]
    exact .none

private theorem Carries.sent (h : Carries w s) {env : Environment} {req : Message}
    {server : Server} {o : Outcome} (hexec : Ftp.execute env req server = some o) {left : CString}
    (hleft : cString w.responseMessage = some left) :
    ∃ sent, o.sent.mapM (fun message => newRecord message.status left) = some sent ∧
      Bears readSettled recordSize (w.replies ++ sent.flatten)
        ((s.replies ++ s.tagged o).map (·.message)) := by
  rcases sent_execute hexec with hsent | hsent
  · have htagged : s.tagged o = [] := by
      rw [System.tagged, hsent]
      rfl
    rw [hsent, htagged]
    exact ⟨[], rfl, by simpa using h.replies⟩
  · have htagged : s.tagged o = [⟨newMessage 150 [], s.served + 1, 0⟩] := by
      rw [System.tagged, hsent]
      rfl
    obtain ⟨hfree, hlength⟩ := cString_spec hleft
    rw [h.size] at hlength
    obtain ⟨record, hrecord, hread⟩ :=
      newRecord_read hfree hlength (by decide : (0 : Int) ≤ 150) (by decide)
    have hsettled : readSettled record.bytes = some (newMessage 150 []) := by
      rw [readSettled, hread]
      rfl
    rw [hsent, htagged]
    refine ⟨[record.bytes], by simp [newMessage, hrecord], ?_⟩
    simpa using h.replies.push record hsettled

private theorem composes {texts : List (Nat × CString)} (h : ∀ c ∈ texts, c.2.length < c.1) :
    ∃ blocks, texts.mapM (fun (size, text) => writeString (zeroed size []) 0 text) =
      some blocks := by
  induction texts with
  | nil => exact ⟨[], rfl⟩
  | cons c texts ih =>
    obtain ⟨hc, hrest⟩ := List.forall_mem_cons.mp h
    obtain ⟨blocks, hblocks⟩ := ih hrest
    exact ⟨zeroed c.1 c.2 :: blocks, by simp [writeString_zeroed hc, hblocks]⟩

private theorem Carries.execute (h : Carries w s) {env : Environment} {joinStatus : Int}
    {server : Server} {req : Message} {rest : List Message} {requests : List Char}
    (hserving : s.serving = .receiving server) (hrequests : s.requests = req :: rest)
    (hbears : Bears readRequest recordSize requests rest) (hbody : nul ∉ req.body)
    (hroom : ∀ o, Ftp.execute { env with joinStatus := some joinStatus } req server = some o →
      o.responseMessage.length < maxBufferSize ∧
        ∀ c ∈ composed { env with joinStatus := some joinStatus } req server o, c.2.length < c.1) :
    Option.Rel Carries
      (w.execute { env with joinStatus := some joinStatus } req server requests)
      (s.step (.serve env joinStatus)) := by
  have hpath : nul ∉ server.relativePath := h.path server (by rw [System.server, hserving])
  simp only [System.step, hserving, hrequests, Wire.execute]
  cases hexec : Ftp.execute { env with joinStatus := some joinStatus } req server with
  | none =>
    refine .some ⟨h.client, rfl, h.blank, hbears, h.replies, h.size, h.readable, ?_, ?_⟩
    · intro o started ho
      cases ho
    · intro server' hserver'
      cases hserver'
  | some o =>
    have hplain := plain_execute hbody hpath hexec
    obtain ⟨hlength, hcomposed⟩ := hroom o hexec
    obtain ⟨blocks, hblocks⟩ := composes hcomposed
    obtain ⟨left, hleft⟩ := Option.isSome_iff_exists.mp h.readable
    obtain ⟨sent, hsent, hreplies⟩ := h.sent hexec hleft
    rw [← h.size] at hlength
    have hwritten := writeString_start hlength
    have hread := cString_append hplain.free (w.responseMessage.drop (o.responseMessage.length + 1))
    simp only [hblocks, hleft, hsent, hwritten, Option.bind_eq_bind, Option.bind_some]
    refine .some ⟨h.client, rfl, h.blank, hbears, hreplies, ?_, ?_, ?_, ?_⟩
    · exact (length_writeString hwritten).trans h.size
    · rw [hread]
      rfl
    · intro o' started ho
      obtain ⟨rfl, -⟩ := Serving.answering.inj ho
      exact ⟨hread, hplain⟩
    · intro server' hserver'
      obtain rfl := Option.some.inj hserver'
      exact relativePath_free (served hexec) hbody hpath

private theorem Carries.serve (h : Carries w s) {env : Environment} {joinStatus : Int} {k : Nat}
    (hfits : ∀ s', s.step (.serve env joinStatus) = some s' →
      Event.Fits s (.serve env joinStatus k)) :
    Option.Rel Carries (w.step (.serve env joinStatus k)) (s.step (.serve env joinStatus)) := by
  cases hserving : s.serving with
  | receiving server =>
    have hserving' : w.serving = .receiving server := h.serving.trans hserving
    cases hrequests : s.requests with
    | nil =>
      have hbears := h.requests
      rw [hrequests] at hbears
      simp only [step, hserving', hbears.stream_eq_nil, pull_nil, System.step, hserving, hrequests]
      exact .none
    | cons req rest =>
      have hsome : (s.step (.serve env joinStatus)).isSome := by
        simp only [System.step, hserving, hrequests]
        split <;> rfl
      obtain ⟨s', hs'⟩ := Option.isSome_iff_exists.mp hsome
      obtain ⟨rfl, hroom⟩ := hfits s' hs'
      have hbears := h.requests
      rw [hrequests] at hbears
      obtain ⟨record, requests, hpull, hread, hrest⟩ := hbears.pull (by decide) false
      have hstep : w.step (.serve env joinStatus recordSize) =
          w.execute { env with joinStatus := some joinStatus } req server requests := by
        simp only [step, hserving', hpull, received_record, hread, Option.bind_eq_bind,
          Option.bind_some]
      rw [hstep]
      exact h.execute hserving hrequests hrest (readRequest_free hread)
        (fun o hexec => hroom server req rest o hserving hrequests hexec)
  | answering o started =>
    have hserving' := h.serving.trans hserving
    simp only [step, hserving', System.step, hserving]
    exact .none
  | ended =>
    have hserving' := h.serving.trans hserving
    simp only [step, hserving', System.step, hserving]
    exact .none

private theorem Carries.reply (h : Carries w s) :
    Option.Rel Carries (w.step .reply) (s.step .reply) := by
  cases hserving : s.serving with
  | answering o started =>
    have hserving' : w.serving = .answering o started := h.serving.trans hserving
    obtain ⟨hresponse, hplain⟩ := h.response o started hserving
    have hlength := (cString_spec hresponse).2
    rw [h.size] at hlength
    have hlow := hplain.low
    obtain ⟨record, hrecord, hread⟩ :=
      newRecord_read hplain.free hlength (by omega) hplain.high
    have hsettled : readSettled record.bytes = some (newMessage o.status o.responseMessage) := by
      rw [readSettled, hread, Option.map_some, settled_of_ne]
      change o.status ≠ 150
      omega
    simp only [step, hserving', hresponse, hrecord, System.step, hserving,
      Option.bind_eq_bind, Option.bind_some]
    refine .some ⟨h.client, rfl, h.blank, h.requests, ?_, h.size, h.readable, ?_, ?_⟩
    · simpa [System.reply, System.final] using h.replies.push record hsettled
    · intro o' started' ho
      cases ho
    · intro server hserver
      refine h.path server ?_
      rw [System.server, hserving]
      exact hserver
  | receiving server =>
    have hserving' := h.serving.trans hserving
    simp only [step, hserving', System.step, hserving]
    exact .none
  | ended =>
    have hserving' := h.serving.trans hserving
    simp only [step, hserving', System.step, hserving]
    exact .none

private theorem Carries.client_step (h : Carries w s) {w' : Wire} {s' : System}
    (hclient : w'.client.settled = s'.client) (hw : w'.serving = w.serving)
    (hs : s'.serving = s.serving)
    (hstdin : w'.stdin = w.stdin) (hresponse : w'.responseMessage = w.responseMessage)
    (hrequests : w'.requests = w.requests) (hrequests' : s'.requests = s.requests)
    (hreplies : Bears readSettled recordSize w'.replies (s'.replies.map (·.message))) :
    Carries w' s' := by
  refine ⟨hclient, by rw [hw, hs, h.serving], by rw [hstdin]; exact h.blank, ?_, hreplies, ?_, ?_,
    ?_, ?_⟩
  · rw [hrequests, hrequests']
    exact h.requests
  · rw [hresponse]
    exact h.size
  · rw [hresponse]
    exact h.readable
  · rw [hs, hresponse]
    exact h.response
  · rw [System.server, hs]
    exact h.path

private theorem Carries.pulled (h : Carries w s) {k : Nat} {r : Reply} {rest : List Reply}
    (hreplies : s.replies = r :: rest) (hk : k = if s.replies = [] then 0 else recordSize) :
    ∃ record replies, pull recordSize w.gone w.replies k = some (record, replies) ∧
      readSettled (received record) = some r.message ∧
        Bears readSettled recordSize replies (rest.map (·.message)) := by
  have hbears := h.replies
  rw [hreplies, List.map_cons] at hbears
  obtain ⟨record, replies, hpull, hread, hrest⟩ := hbears.pull (by decide) w.gone
  rw [if_neg (by simp [hreplies])] at hk
  rw [hk]
  exact ⟨record.bytes, replies, hpull, by rwa [received_record], hrest⟩

private theorem Carries.pulled_end (h : Carries w s) (hreplies : s.replies = [])
    (hserving : s.serving = .ended) : pull recordSize w.gone w.replies 0 = some ([], []) := by
  have hbears := h.replies
  rw [hreplies, List.map_nil] at hbears
  rw [hbears.stream_eq_nil, (gone_iff w).mpr (h.serving.trans hserving)]
  rfl

private theorem Carries.blocked (h : Carries w s) (hreplies : s.replies = [])
    (hserving : s.serving ≠ .ended) (k : Nat) :
    pull recordSize w.gone w.replies k = none := by
  have hbears := h.replies
  rw [hreplies, List.map_nil] at hbears
  have hgone : w.gone = false := by
    rw [Bool.eq_false_iff, Ne, gone_iff, h.serving]
    exact hserving
  rw [hbears.stream_eq_nil, hgone, pull_nil]

private theorem bears_end (hreplies : s.replies = []) :
    Bears readSettled recordSize [] (s.replies.map (·.message)) := by
  rw [hreplies]
  exact bears_nil

private theorem Carries.moved (h : Carries w s) {phase phase' : Phase}
    (hphase : phase.settled = phase') :
    Client.settled { w.client with phase := phase } = { s.client with phase := phase' } := by
  rw [← h.client, ← hphase]
  rfl

private theorem Carries.receive (h : Carries w s) {k : Nat}
    (hfits : ∀ s', s.step .receive = some s' → Event.Fits s (.receive k)) :
    Option.Rel Carries (w.step (.receive k)) (s.step .receive) := by
  rw [System.step, System.receive] at hfits ⊢
  have hcommand : s.client.sentCommand = w.client.sentCommand := by
    rw [← h.client]
    rfl
  simp only [Wire.step]
  cases hphase : w.client.phase with
  | receiving =>
    have hphase' : s.client.phase = .receiving := by
      rw [h.phase, hphase]
      rfl
    rw [hphase'] at hfits ⊢
    cases hreplies : s.replies with
    | cons r rest =>
      rw [hreplies] at hfits
      obtain ⟨record, replies, hpull, hread, hrest⟩ := h.pulled hreplies (hfits _ rfl)
      obtain ⟨res, hres, hsettled⟩ := Option.map_eq_some_iff.mp hread
      simp only [hpull, hres, Option.bind_eq_bind, Option.bind_some]
      refine .some (h.client_step (h.moved ?_) rfl rfl rfl rfl rfl rfl hrest)
      rw [callback_settled, hsettled, hcommand]
    | nil =>
      rw [hreplies] at hfits
      cases hserving : s.serving with
      | ended =>
        rw [hserving] at hfits
        have hk : k = 0 := (hfits _ rfl).trans (if_pos hreplies)
        simp only [hk, h.pulled_end hreplies hserving, readReply_zeros, Option.bind_eq_bind,
          Option.bind_some]
        refine .some (h.client_step (h.moved ?_) rfl rfl rfl rfl rfl rfl (bears_end hreplies))
        rw [callback_settled, hcommand]
        rfl
      | _ =>
        simp only [h.blocked hreplies (by rw [hserving]; exact Serving.noConfusion)]
        exact .none
  | finishing =>
    have hphase' : s.client.phase = .finishing := by
      rw [h.phase, hphase]
      rfl
    rw [hphase'] at hfits ⊢
    cases hreplies : s.replies with
    | cons r rest =>
      rw [hreplies] at hfits
      obtain ⟨record, replies, hpull, -, hrest⟩ := h.pulled hreplies (hfits _ rfl)
      simp only [hpull, Option.bind_eq_bind, Option.bind_some]
      exact .some (h.client_step (h.moved rfl) rfl rfl rfl rfl rfl rfl hrest)
    | nil =>
      rw [hreplies] at hfits
      cases hserving : s.serving with
      | ended =>
        rw [hserving] at hfits
        have hk : k = 0 := (hfits _ rfl).trans (if_pos hreplies)
        simp only [hk, h.pulled_end hreplies hserving, Option.bind_eq_bind,
          Option.bind_some]
        exact .some (h.client_step (h.moved rfl) rfl rfl rfl rfl rfl rfl (bears_end hreplies))
      | _ =>
        simp only [h.blocked hreplies (by rw [hserving]; exact Serving.noConfusion)]
        exact .none
  | _ =>
    have hphase' := h.phase
    rw [hphase] at hphase'
    simp only [hphase', Phase.settled]
    exact .none

private theorem Carries.step (h : Carries w s) {e : Event}
    (hfits : ∀ s', spoken s e = some s' → Event.Fits s e) :
    Option.Rel Carries (w.step e) (spoken s e) := by
  cases e with
  | ask typing => exact h.ask typing
  | serve env joinStatus k =>
    rw [spoken_one s rfl] at hfits ⊢
    exact h.serve hfits
  | reply =>
    rw [spoken_one s rfl]
    exact h.reply
  | receive k =>
    rw [spoken_one s rfl] at hfits ⊢
    exact h.receive hfits
  | create createResult createHandle =>
    rw [spoken_one s rfl]
    simp only [Wire.step, System.step]
    cases hphase : w.client.phase with
    | creating res =>
      simp only [h.phase, hphase, Phase.settled]
      refine .some (h.client_step ?_ rfl rfl rfl rfl rfl rfl h.replies)
      rw [← h.client, Client.create, Client.create]
      split <;> rfl
    | _ =>
      simp only [h.phase, hphase, Phase.settled]
      exact .none
  | join =>
    rw [spoken_one s rfl]
    simp only [Wire.step, System.step]
    cases hphase : w.client.phase with
    | joining =>
      simp only [h.phase, hphase, Phase.settled]
      refine .some (h.client_step ?_ rfl rfl rfl rfl rfl rfl h.replies)
      rw [← h.client]
      rfl
    | _ =>
      simp only [h.phase, hphase, Phase.settled]
      exact .none
  | serverExits =>
    rw [spoken_one s rfl]
    refine .some ⟨h.client, rfl, h.blank, h.requests, h.replies, h.size, h.readable, ?_, ?_⟩
    · intro o started ho
      cases ho
    · intro server hserver
      cases hserver
  | clientExits =>
    rw [spoken_one s rfl]
    exact .some (h.client_step (h.moved rfl) rfl rfl rfl rfl rfl rfl h.replies)

/-- The greeting is on its way. -/
theorem carries_start : Carries {} {} := by
  have hfree : nul ∉ "Server ready".toList := by decide
  have hlength : "Server ready".toList.length < maxBufferSize := by decide
  obtain ⟨record, hrecord, hread⟩ :=
    newRecord_read hfree hlength (by decide : (0 : Int) ≤ 220) (by decide)
  rw [newRecord, writeString_zeroed hlength, Option.map_some] at hrecord
  have hsettled : readSettled record.bytes = some (newMessage 220 "Server ready".toList) := by
    rw [readSettled, hread]
    rfl
  refine ⟨rfl, rfl, fun c hc => absurd hc List.not_mem_nil, bears_nil, ?_,
    length_zeroed (Nat.zero_le _), ?_, ?_, ?_⟩
  · have hreplies := bears_nil.push record hsettled
    rwa [← Option.some.inj hrecord] at hreplies
  · rw [cString_zeroed_alone List.not_mem_nil (by decide : ([] : CString).length < maxBufferSize)]
    rfl
  · intro o started ho
    cases ho
  · intro server hserver
    obtain rfl := Option.some.inj hserver
    decide

end Wire

end NetworkProtocol.Ftp
