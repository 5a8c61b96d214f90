import Mathlib.Tactic.FinCases
import NetworkProtocol.Ftp.SoleThread
import NetworkProtocol.Ftp.WorkingDirectory

/-! Client and server with the data connection between them, against one file service that
executes the requests in turn and fetches what a transfer is for. -/
namespace NetworkProtocol.Ftp
open CString CMemory

/-- The two programs as one that executes the requests in turn. opened is the request whose data
can still be fetched; asked is history. -/
structure Service where
  server : Server := {}
  opened : Option Message := none
  asked : List Message := []
  retrieved : List Retrieved := []

inductive Service.Action where
  | request (env : Environment) (req : Message)
  | fetch (disk : Disk)

inductive Answer where
  | request (env : Environment)
  | fetch (disk : Disk)

def Transfer.Event.answers : Transfer.Event → List Answer
  | .control (.serve env joinStatus) => [.request { env with joinStatus := some joinStatus }]
  | .send disk => [.fetch disk]
  | _ => []

def Service.Action.answers : Service.Action → List Answer
  | .request env _ => [.request env]
  | .fetch disk => [.fetch disk]

section Client
variable (writable : CString → Bool)

namespace Service

/-- What a transfer is for: the file below the current directory, with whatever the heap puts
behind it, or the names of the directory. -/
def fetched (disk : Disk) (s : Server) (req : Message) : Option (List Retrieved) :=
  match interpret req.command with
  | .retr => do
    let file ← disk.fopen (s.relativePath ++ req.body)
    let bytes ← transferred file disk.serverData
    some (saved writable (req.body ++ copySuffix) bytes)
  | .nlst => (listed ((disk.opendir s.relativePath).getD [])).map ([.listing ·])
  | _ => none

def step (v : Service) : Service.Action → Option Service
  | .request env req =>
    (execute env req v.server).map (fun o =>
      { v with
        server := o.server
        opened := if startsTransfer env req v.server then some req else none
        asked := v.asked ++ [req] })
  | .fetch disk => do
    let req ← v.opened
    let new ← fetched writable disk v.server req
    some { v with opened := none, retrieved := v.retrieved ++ new }

end Service

end Client

/-- The word a request carries: what strtok has cut out of the line, or nothing. -/
structure PlainWord (word : CString) : Prop where
  free : nul ∉ word
  short : word.length < maxBufferSize
  single : word = [] ∨ tokens whitespace word = [word]

section Data
variable {writable : CString → Bool} {disk : Disk} {body : Block} {name : CString} {s : Server}

/-- strtok cuts one plain word out of a typed line. -/
theorem plainWord_of_request {userInput : CString} {command : Command} {req : Message}
    (htyped : nul ∉ userInput ∧ userInput.length < maxBufferSize)
    (h : request userInput = some (command, req)) : PlainWord req.body := by
  obtain ⟨hnul, hlength⟩ := htyped
  rw [request] at h
  split at h
  · cases h
  · rename_i inputCommand left htokens
    split at h
    · cases h
    · obtain ⟨-, rfl⟩ := Prod.mk.inj (Option.some.inj h)
      cases left with
      | nil => exact ⟨List.not_mem_nil, (by decide : 0 < maxBufferSize), .inl rfl⟩
      | cons word left =>
        have hmem : word ∈ tokens whitespace userInput := by simp [htokens]
        have hne : word ≠ [] := by simpa using (List.mem_filter.mp hmem).2
        refine ⟨fun h => hnul (mem_of_mem_tokens hmem h), ?_, .inr ?_⟩
        · exact Nat.lt_of_le_of_lt (length_le_of_mem_tokens hmem) hlength
        · exact tokens_word hne (fun c hc => not_mem_of_mem_tokens hmem hc)

/-- The body of a message is a string with zeros behind it. -/
theorem newBody_eq {text : Block} (h : newBody text = some body) :
    ∃ string, nul ∉ string ∧ string.length < maxBufferSize ∧
      body = zeroed maxBufferSize string := by
  obtain ⟨string, hread, hwrite⟩ := Option.bind_eq_some_iff.mp h
  by_cases hfits : string.length < maxBufferSize
  · rw [writeString_zeroed hfits] at hwrite
    exact ⟨string, (cString_spec hread).1, hfits, (Option.some.inj hwrite).symm⟩
  · have hsize : (zeroed maxBufferSize []).length = maxBufferSize :=
      length_zeroed (Nat.zero_le _)
    rw [writeString_overrun (by rw [hsize]; omega)] at hwrite
    cases hwrite

private theorem savedCopy_zeroed {string : CString} (hnul : nul ∉ string)
    (hfits : string.length < maxBufferSize) :
    savedCopy (zeroed maxBufferSize string) = some string := by
  have hread := cString_zeroed_alone hnul hfits
  rw [savedCopy, hread, Option.bind_some, writeString_zeroed hfits, Option.bind_some, hread]

private theorem printedEntries_zeroed {string : CString} (hnul : nul ∉ string)
    (hfits : string.length < maxBufferSize) :
    printedEntries (zeroed maxBufferSize string) = some (tokens separators string) := by
  have hblock : zeroed maxBufferSize string = [] ++ (string ++ nul ::
      List.replicate (maxBufferSize - (string ++ [nul]).length) nul) := by
    rw [← zeroed_append_nul hfits, zeroed, List.append_assoc, List.singleton_append,
      List.nil_append]
  have hloop : strtokLoop separators maxBufferSize (zeroed maxBufferSize string) 0 =
      some (tokens separators string) := by
    rw [hblock]
    exact strtokLoop_eq_tokens [] _ hnul hfits
  rw [printedEntries, cString_zeroed_alone hnul hfits, Option.bind_some,
    writeString_zeroed hfits, Option.bind_some, hloop]

/-- The file that a stream has been read from is the one below the current directory. -/
theorem stream_file {stream : Block} (hpath : nul ∉ s.relativePath) (hname : nul ∉ name)
    (hfile : s.fileName = some name)
    (h : getStreamFromFile disk.fopen disk.serverData s = some stream) :
    ∃ file, disk.fopen (s.relativePath ++ name) = some file ∧
      fread disk.serverData file = some stream := by
  simp only [getStreamFromFile, hfile, Option.bind_eq_bind, Option.bind_some,
    Option.bind_eq_some_iff] at h
  obtain ⟨block, hblock, path, hread, file, hopen, hstream⟩ := h
  have hfits : (s.relativePath ++ name).length < maxRelativePathLength :=
    (filePath_isSome_iff hpath).mp (by rw [hblock]; rfl)
  have hcomposed := cString_filePath hpath hname hfits
  rw [hblock, Option.bind_some, hread] at hcomposed
  exact ⟨file, Option.some.inj hcomposed ▸ hopen, hstream⟩

private theorem took_copy (hname : PlainWord name) {string : CString} (hnul : nul ∉ string)
    (hfits : string.length < maxBufferSize) :
    took writable .retr name (zeroed maxBufferSize string) =
      some (saved writable (name ++ copySuffix) string) := by
  have hshort := hname.short
  have hsuffix : copySuffix.length = 10 := rfl
  have hroom : (name ++ copySuffix).length < maxRelativePathLength := by
    rw [List.length_append, hsuffix]
    have : maxBufferSize + 10 < maxRelativePathLength := by decide
    omega
  have hplain : nul ∉ name ++ copySuffix := by
    rw [List.mem_append, not_or]
    exact ⟨hname.free, by decide⟩
  have hread := cString_zeroed_alone hplain hroom
  simp only [took, strcat_zeroed hname.free hroom, hread, Option.bind_eq_bind, Option.bind_some,
    savedCopy_zeroed hnul hfits, Option.map_some]

/-- What the client makes of the message it is sent is what was to be fetched. -/
theorem took_payload (writable : CString → Bool) {req : Message}
    (hpath : nul ∉ s.relativePath) (hplain : PlainWord req.body)
    (hcommand : s.dataCommand = interpret req.command)
    (hname : interpret req.command = .retr → s.fileName = some req.body)
    (h : payload disk s = some body) :
    ∃ new, Service.fetched writable disk s req = some new ∧
      took writable (interpret req.command) req.body body = some new := by
  rw [payload, hcommand] at h
  rw [Service.fetched]
  generalize interpret req.command = command at *
  cases command with
  | retr =>
    obtain ⟨stream, hstream, hbody⟩ := Option.bind_eq_some_iff.mp h
    obtain ⟨file, hopen, hfread⟩ := stream_file hpath hplain.free (hname rfl) hstream
    obtain ⟨string, hnul, hfits, rfl⟩ := newBody_eq hbody
    have htransferred : transferred file disk.serverData = some string := by
      rw [transferred, hfread, Option.bind_some, hbody, Option.bind_some,
        savedCopy_zeroed hnul hfits]
    refine ⟨saved writable (req.body ++ copySuffix) string, ?_, took_copy hplain hnul hfits⟩
    simp only [hopen, htransferred, Option.bind_eq_bind, Option.bind_some]
  | nlst =>
    obtain ⟨entries, hentries, hbody⟩ := Option.bind_eq_some_iff.mp h
    obtain ⟨string, hnul, hfits, rfl⟩ := newBody_eq hbody
    have hprinted := printedEntries_zeroed hnul hfits
    refine ⟨[.listing (tokens separators string)], ?_, ?_⟩
    · simp only [listed, hentries, hbody, hprinted, Option.bind_some, Option.map_some]
    · simp only [took, hprinted, Option.map_some]
  | _ => cases h

/-- What can be fetched is sent, when the path of a file has room. -/
theorem payload_of_fetched {req : Message} {new : List Retrieved} (hpath : nul ∉ s.relativePath)
    (hplain : PlainWord req.body) (hcommand : s.dataCommand = interpret req.command)
    (hname : interpret req.command = .retr → s.fileName = some req.body ∧
      (s.relativePath ++ req.body).length < maxRelativePathLength)
    (h : Service.fetched writable disk s req = some new) : ∃ body, payload disk s = some body := by
  rw [Service.fetched] at h
  rw [payload, hcommand]
  generalize interpret req.command = command at *
  cases command with
  | retr =>
    obtain ⟨hfile, hroom⟩ := hname rfl
    simp only [Option.bind_eq_bind, Option.bind_eq_some_iff] at h
    obtain ⟨file, hopen, bytes, hbytes, -⟩ := h
    obtain ⟨stream, hstream, hcopy⟩ := Option.bind_eq_some_iff.mp hbytes
    obtain ⟨body, hbody, -⟩ := Option.bind_eq_some_iff.mp hcopy
    obtain ⟨block, hblock, hread⟩ :=
      Option.bind_eq_some_iff.mp (cString_filePath hpath hplain.free hroom)
    refine ⟨body, ?_⟩
    simp only [getStreamFromFile, hfile, hblock, hread, hopen, hstream, hbody,
      Option.bind_eq_bind, Option.bind_some]
  | nlst =>
    obtain ⟨names, hlisted, -⟩ := Option.map_eq_some_iff.mp h
    obtain ⟨entries, hentries, hprinted⟩ := Option.bind_eq_some_iff.mp hlisted
    obtain ⟨body, hbody, -⟩ := Option.bind_eq_some_iff.mp hprinted
    refine ⟨body, ?_⟩
    simp only [hentries, hbody, Option.bind_some]
  | _ => cases h

/-- The file name is RETR's alone. -/
theorem took_name {command : Command} (h : command ≠ .retr) {name' : CString} :
    took writable command name body = took writable command name' body := by
  cases command with
  | retr => exact absurd rfl h
  | _ => rfl

private theorem took_length {command : Command} {new : List Retrieved}
    (h : took writable command name body = some new) : new.length ≤ 1 := by
  cases command with
  | retr =>
    simp only [took, Option.bind_eq_bind, Option.bind_eq_some_iff] at h
    obtain ⟨_, -, _, -, hmap⟩ := h
    obtain ⟨bytes, -, rfl⟩ := Option.map_eq_some_iff.mp hmap
    rw [saved]
    split <;> simp
  | nlst =>
    obtain ⟨names, -, rfl⟩ := Option.map_eq_some_iff.mp h
    simp
  | _ =>
    obtain rfl := Option.some.inj h
    simp

/-- Zeros leave an empty list or an empty file. -/
theorem took_zeros (writable : CString → Bool) {command : Command}
    (hname : PlainWord name ∨ command ≠ .retr) :
    ∃ lost, took writable command name (zeroed maxBufferSize []) = some lost ∧
      ∀ r ∈ lost, r.Empty := by
  have hnil : nul ∉ ([] : CString) := List.not_mem_nil
  cases command with
  | retr =>
    refine ⟨_, took_copy (hname.resolve_right (by simp)) hnil (by decide), ?_⟩
    intro r hr
    rw [saved] at hr
    split at hr
    · rw [List.mem_singleton.mp hr]
      rfl
    · cases hr
  | nlst =>
    refine ⟨[.listing []], ?_, by simp [Retrieved.Empty]⟩
    simp only [took, printedEntries_zeroed hnil (by decide), tokens_nil, Option.map_some]
  | _ => exact ⟨[], rfl, by simp⟩

end Data

structure Opened (t : Transfer) (v : Service) : Prop where
  server : ∃ o, t.control.serving = .answering o true ∧ v.server = o.server
  request : ∃ req, v.opened = some req ∧ PlainWord req.body ∧
    interpret req.command = t.control.client.sentCommand ∧
    v.server.dataCommand = interpret req.command ∧
    (interpret req.command = .retr →
      v.server.fileName = some req.body ∧ t.control.client.fileName = req.body)

/-- A transfer whose data connection has nothing sent yet. -/
def Transfer.Underway (t : Transfer) : Prop :=
  match t.link with
  | .waiting _ => t.control.client.phase ≠ .exited ∧ ∃ o, t.control.serving = .answering o true
  | .connected => t.control.serving ≠ .ended
  | _ => False

section Refinement
variable (writable : CString → Bool)

def Transfer.Pending (t : Transfer) (pending : List Retrieved) : Prop :=
  match t.link with
  | .sent body =>
    took writable t.control.client.sentCommand t.control.client.fileName body = some pending
  | _ => pending = []

/-- The client has retrieved what the service has, but for what is on the way; or the server has
gone before it sent anything. -/
def Matches (t : Transfer) (v : Service) : Prop :=
  (∃ pending, v.retrieved = t.retrieved ++ pending ∧ t.Pending writable pending) ∨
    t.control.serving = .ended ∧ t.link = .done ∧
      ∃ lost, t.retrieved = v.retrieved ++ lost ∧ ∀ r ∈ lost, r.Empty

structure Refines (t : Transfer) (v : Service) : Prop where
  steady : Steady t.control
  plain : ∀ req ∈ t.control.asked, PlainWord req.body
  named : t.control.client.sentCommand = .retr →
    ∃ before req, t.control.asked = before ++ [req] ∧ t.control.client.fileName = req.body
  asked : v.asked <+: t.control.asked
  served : v.asked.length = t.control.served
  server : ∀ server, t.control.server = some server → v.server = server
  path : nul ∉ v.server.relativePath
  busy : t.link.Busy → (t.control.client.phase = .joining ∨ t.control.client.phase = .exited) ∧
    t.control.requests = []
  opens : t.Underway → Opened t v
  matching : Matches writable t v

end Refinement

section Steps
variable {writable : CString → Bool} {t : Transfer} {v : Service} {s : System}

private theorem Refines.client (h : Refines writable t v) (hsteady : Steady s)
    (hasked : s.asked = t.control.asked) (hserved : s.served = t.control.served)
    (hserving : s.serving = t.control.serving) (hrequests : s.requests = t.control.requests)
    (hcommand : s.client.sentCommand = t.control.client.sentCommand)
    (hname : s.client.fileName = t.control.client.fileName)
    (hphase : ¬ t.link.Busy ∧ t.control.client.phase ≠ .exited ∨ s.client.phase = .exited)
    {threads : ClientThreads} :
    Refines writable { t with control := s, threads := threads } v := by
  refine ⟨hsteady, ?_, ?_, ?_, ?_, ?_, h.path, ?_, ?_, ?_⟩
  · rw [hasked]
    exact h.plain
  · rw [hasked, hcommand, hname]
    exact h.named
  · rw [hasked]
    exact h.asked
  · rw [hserved]
    exact h.served
  · simp only [System.server, hserving]
    exact h.server
  · intro hlink
    exact ⟨.inr (hphase.resolve_left fun hidle => hidle.1 hlink),
      hrequests.trans (h.busy hlink).2⟩
  · intro hunderway
    have hopens : Opened t v := by
      apply h.opens
      simp only [Transfer.Underway] at hunderway ⊢
      split at hunderway
      · exact ⟨(hphase.resolve_right hunderway.1).2, hserving ▸ hunderway.2⟩
      · exact hserving ▸ hunderway
      · exact hunderway.elim
    obtain ⟨hserver, hrequest⟩ := hopens
    refine ⟨?_, ?_⟩
    · rw [hserving]
      exact hserver
    · rw [hcommand, hname]
      exact hrequest
  · simpa only [Matches, Transfer.Pending, hserving, hcommand, hname] using h.matching

private theorem Refines.ended (h : Refines writable t v) {requests : List Message}
    (hsteady : Steady { t.control with serving := .ended, requests := requests })
    (hrequests : t.link.Busy → requests = []) (sockets : DataSockets) :
    Refines writable
      { t with
        control := { t.control with serving := .ended, requests := requests }
        sockets := sockets } v := by
  refine ⟨hsteady, h.plain, h.named, h.asked, h.served, ?_, h.path, ?_, ?_, ?_⟩
  · intro server hserver
    cases hserver
  · exact fun hlink => ⟨(h.busy hlink).1, hrequests hlink⟩
  · intro hunderway
    simp only [Transfer.Underway] at hunderway
    split at hunderway
    · obtain ⟨-, o, ho⟩ := hunderway
      cases ho
    · exact absurd rfl hunderway
    · exact hunderway.elim
  · rcases h.matching with hpending | ⟨-, hlink, hlost⟩
    · exact .inl hpending
    · exact .inr ⟨rfl, hlink, hlost⟩

private theorem Refines.retrieved (h : Refines writable t v) (hlink : ¬ t.link.Busy)
    (halive : t.control.serving ≠ .ended) : v.retrieved = t.retrieved := by
  obtain ⟨pending, hretrieved, hpending⟩ := h.matching.resolve_right (fun hlost => halive hlost.1)
  have hnil : pending = [] := by
    rw [Transfer.Pending] at hpending
    split at hpending
    · rename_i body hsent
      exact absurd (hsent ▸ trivial : t.link.Busy) hlink
    · exact hpending
  rw [hretrieved, hnil, List.append_nil]

private theorem Matches.of_retrieved (hretrieved : v.retrieved = t.retrieved)
    (hlink : ¬ t.link.Busy) : Matches writable t v := by
  refine .inl ⟨[], by rw [hretrieved, List.append_nil], ?_⟩
  rw [Transfer.Pending]
  split
  · rename_i body hsent
    exact absurd (hsent ▸ trivial : t.link.Busy) hlink
  · rfl

private theorem Refines.ask (h : Refines writable t v) {command : Command} {req : Message}
    (hsteady : Steady (t.control.ask command req))
    (hphase : t.control.client.phase = .prompting) (hplain : PlainWord req.body) :
    Refines writable { t with control := t.control.ask command req } v := by
  have hlink : ¬ t.link.Busy := fun hbusy => by
    rcases (h.busy hbusy).1 with hp | hp <;> rw [hphase] at hp <;> cases hp
  have howed := h.steady.unread hphase
  refine ⟨hsteady, ?_, ?_, ?_, h.served, h.server, h.path, ?_, ?_, ?_⟩
  · intro r hr
    rcases List.mem_append.mp hr with hr | hr
    · exact h.plain r hr
    · exact List.mem_singleton.mp hr ▸ hplain
  · exact fun hcommand => ⟨t.control.asked, req, rfl, if_pos hcommand⟩
  · exact h.asked.trans (List.prefix_append _ _)
  · exact fun hbusy => absurd hbusy hlink
  · intro hunderway
    simp only [Transfer.Underway] at hunderway
    split at hunderway
    · obtain ⟨-, o, hserving⟩ := hunderway
      have hserving' : t.control.serving = .answering o true := hserving
      rw [System.owed, hserving'] at howed
      simp at howed
    · rename_i hconnected
      exact absurd (hconnected ▸ trivial : t.link.Busy) hlink
    · exact hunderway.elim
  · rcases h.matching with ⟨pending, hretrieved, hpending⟩ | hlost
    · refine .inl ⟨pending, hretrieved, ?_⟩
      rw [Transfer.Pending] at hpending ⊢
      split at hpending
      · rename_i body hsent
        exact absurd (hsent ▸ trivial : t.link.Busy) hlink
      · exact hpending
    · exact .inr hlost

private theorem Refines.reply (h : Refines writable t v) {o : Outcome} {started : Bool}
    (hsteady : Steady (t.control.reply o started))
    (hserving : t.control.serving = .answering o started) (hlink : t.link ≠ .connected) :
    Refines writable { t with control := t.control.reply o started } v := by
  refine ⟨hsteady, h.plain, h.named, h.asked, h.served, ?_, h.path, h.busy, ?_, ?_⟩
  · intro server hserver
    apply h.server
    rw [System.server, hserving]
    exact hserver
  · intro hunderway
    simp only [Transfer.Underway] at hunderway
    split at hunderway
    · obtain ⟨-, o', ho'⟩ := hunderway
      cases ho'
    · rename_i hconnected
      exact absurd hconnected hlink
    · exact hunderway.elim
  · rcases h.matching with hpending | ⟨hended, -⟩
    · exact .inl hpending
    · rw [hserving] at hended
      cases hended

end Steps

section Serve
variable {writable : CString → Bool} {t : Transfer} {v : Service} {env : Environment}
  {server : Server} {req : Message} {rest : List Message} {o : Outcome}

/-- The globals that the data thread of a transfer reads. -/
theorem transfer_globals (hserved : Served env req server o)
    (hstarts : startsTransfer env req server = true) (hplain : PlainWord req.body) :
    o.server.dataCommand = interpret req.command ∧
      (interpret req.command = .retr → o.server.fileName = some req.body) := by
  suffices hglobals : ∀ s', Starts env req server s' → s'.dataCommand = interpret req.command ∧
      (interpret req.command = .retr → s'.fileName = some req.body) by
    cases hserved with
    | transferred s' status text starts joined success => exact hglobals s' starts
    | failed s' text starts joined => exact hglobals s' starts
    | refused fileName status text reason error =>
      rw [not_startsTransfer_of_refused reason] at hstarts
      cases hstarts
    | _ => simp [startsTransfer, *] at hstarts
  rintro s' ⟨-, ⟨hcommand, rfl⟩ | ⟨hcommand, name, hfirst, -, rfl⟩⟩
  · rw [hcommand]
    exact ⟨rfl, by simp⟩
  · rw [hcommand]
    refine ⟨rfl, fun _ => ?_⟩
    rcases hplain.single with hnil | hsingle
    · rw [hnil, tokens_nil] at hfirst
      cases hfirst
    · rw [hsingle] at hfirst
      exact hfirst.symm

/-- relativePath stays a string. -/
theorem relativePath_free (hserved : Served env req server o) (hbody : nul ∉ req.body)
    (hpath : nul ∉ server.relativePath) : nul ∉ o.server.relativePath := by
  rcases relativePath_served hserved with hsame | ⟨-, -, name, hfirst, hmoved⟩
  · rwa [hsame]
  · have hmem : name ∈ tokens whitespace req.body := List.mem_of_mem_head? hfirst
    rw [hmoved, List.mem_append, not_or]
    exact ⟨hpath, fun h => hbody (mem_of_mem_tokens hmem h)⟩

private theorem Refines.serve (h : Refines writable t v)
    (hserving : t.control.serving = .receiving server)
    (hrequests : t.control.requests = req :: rest) (hexec : execute env req server = some o)
    (hsteady : Steady (t.control.serve rest o (startsTransfer env req server)))
    (threads : List DataThread) (sockets : DataSockets) :
    ∃ v', Service.step writable v (.request env req) = some v' ∧
      Refines writable
        { t with
          control := t.control.serve rest o (startsTransfer env req server)
          sockets := sockets
          link := .waiting threads } v' := by
  have halive : t.control.serving ≠ .ended := by rw [hserving]; simp
  have hserver : v.server = server := h.server server (by rw [System.server, hserving])
  obtain ⟨before, hasked, hlength⟩ := h.steady.aligned halive
  have hbefore : v.asked = before := by
    have hprefix : before <+: t.control.asked := ⟨_, hasked.symm⟩
    have hle : v.asked <+: before :=
      List.prefix_of_prefix_length_le h.asked hprefix (h.served.trans hlength.symm).le
    exact hle.eq_of_length (h.served.trans hlength.symm)
  rw [hrequests] at hasked
  have hplain : PlainWord req.body := by
    apply h.plain
    rw [hasked]
    simp
  have hlink : ¬ t.link.Busy := fun hbusy => by
    have hnil := (h.busy hbusy).2
    rw [hrequests] at hnil
    cases hnil
  have hserved := Ftp.served hexec
  refine ⟨_, by rw [Service.step, hserver, hexec, Option.map_some], ?_⟩
  refine ⟨hsteady, h.plain, h.named, ?_, ?_, ?_, ?_, ?_, ?_, ?_⟩
  · change v.asked ++ [req] <+: t.control.asked
    rw [hasked, hbefore]
    exact ⟨rest, by simp⟩
  · change (v.asked ++ [req]).length = t.control.served + 1
    rw [List.length_append, h.served]
    rfl
  · intro server' hserver'
    exact Option.some.inj hserver'
  · exact relativePath_free hserved hplain.free (hserver ▸ h.path)
  · exact fun hbusy => hbusy.elim
  · rintro ⟨hphase, o', ho'⟩
    obtain ⟨-, hstarts⟩ := Serving.answering.inj ho'
    obtain ⟨hrest, -, -, hcommand⟩ := h.steady.asking hphase hserving hrequests
    rw [hrest] at hasked
    obtain ⟨hdata, hfile⟩ := transfer_globals hserved hstarts hplain
    refine ⟨⟨o, by rw [← hstarts]; rfl, rfl⟩, req, ?_, hplain, hcommand, hdata, ?_⟩
    · simp only [hstarts, if_true]
    · intro hretr
      obtain ⟨_, req', hasked', hname⟩ := h.named (hcommand ▸ hretr)
      obtain ⟨-, hlast⟩ := List.append_inj' (hasked'.symm.trans hasked) rfl
      exact ⟨hfile hretr, hname.trans (congrArg Message.body (List.head_eq_of_cons_eq hlast))⟩
  · exact Matches.of_retrieved (h.retrieved hlink halive) id

end Serve

section Data
variable {writable : CString → Bool} {t t' : Transfer} {v : Service}

private theorem Refines.connect (h : Refines writable t v) {i : Nat}
    (hstep : t.step writable (.connect i) = some t') : Refines writable t' v := by
  obtain ⟨hphase, ⟨o, hserving⟩, ⟨pending, hwaiting, -⟩, threads, -, rfl⟩ :=
    Transfer.step_connect hstep
  have hlink : ¬ t.link.Busy := by rw [hwaiting]; exact id
  have hopened : Opened t v := by
    apply h.opens
    rw [Transfer.Underway, hwaiting]
    exact ⟨by rw [hphase]; simp, o, hserving⟩
  have halive : t.control.serving ≠ .ended := by rw [hserving]; simp
  have hrequests : t.control.requests = [] := by
    rcases h.steady.converses with hexited | ⟨lost, hlost, -⟩ | ⟨_, _, hreceiving, -⟩
    · rw [hphase] at hexited
      cases hexited
    · exact (hlost halive).2
    · rw [hserving] at hreceiving
      cases hreceiving
  refine ⟨h.steady, h.plain, h.named, h.asked, h.served, h.server, h.path, ?_, ?_, ?_⟩
  · exact fun _ => ⟨.inl hphase, hrequests⟩
  · exact fun _ => ⟨hopened.server, hopened.request⟩
  · exact .inl ⟨[], by rw [h.retrieved hlink halive, List.append_nil], rfl⟩

private theorem Refines.send (h : Refines writable t v) {disk : Disk}
    (hstep : t.step writable (.send disk) = some t') :
    ∃ v', Service.step writable v (.fetch disk) = some v' ∧ Refines writable t' v' := by
  obtain ⟨hconnected, o, started, body, hserving, hpayload, rfl⟩ := Transfer.step_send hstep
  have hunderway : t.Underway := by
    rw [Transfer.Underway, hconnected]
    change t.control.serving ≠ .ended
    rw [hserving]
    simp
  obtain ⟨⟨o', ho', hserver⟩, req, hopened, hplain, hcommand, hdata, hnames⟩ := h.opens hunderway
  obtain ⟨rfl, -⟩ := Serving.answering.inj (hserving.symm.trans ho')
  rw [← hserver] at hpayload
  obtain ⟨new, hfetched, htook⟩ := took_payload writable h.path hplain hdata
    (fun hretr => (hnames hretr).1) hpayload
  refine ⟨{ v with opened := none, retrieved := v.retrieved ++ new }, ?_, ?_⟩
  · simp only [Service.step, hopened, hfetched, Option.bind_eq_bind, Option.bind_some]
  · refine ⟨h.steady, h.plain, h.named, h.asked, h.served, h.server, h.path, ?_, ?_, ?_⟩
    · exact fun _ => h.busy (hconnected ▸ trivial)
    · exact fun hunderway => hunderway.elim
    · refine .inl ⟨new, ?_, ?_⟩
      · rcases h.matching with ⟨pending, hretrieved, hpending⟩ | ⟨-, hdone, -⟩
        · rw [Transfer.Pending, hconnected] at hpending
          rw [hretrieved, hpending, List.append_nil]
        · rw [hconnected] at hdone
          cases hdone
      · change took writable t.control.client.sentCommand t.control.client.fileName body =
          some new
        rw [← hcommand]
        by_cases hretr : interpret req.command = .retr
        · rw [(hnames hretr).2]
          exact htook
        · rw [took_name hretr]
          exact htook

private theorem Refines.take (h : Refines writable t v) (hsole : Sole t)
    (hstep : t.step writable .take = some t') : Refines writable t' v := by
  obtain ⟨-, body, new, htook, hread, rfl⟩ := Transfer.take_cases hstep
  refine ⟨h.steady, h.plain, h.named, h.asked, h.served, h.server, h.path, ?_, ?_, ?_⟩
  · exact fun hbusy => hbusy.elim
  · exact fun hunderway => hunderway.elim
  · rcases hread with ⟨sent, hsent, rfl⟩ | ⟨hconnected, rfl, hgone⟩
    · obtain ⟨-, hsocket⟩ := hsole.linked (hsent ▸ trivial)
      rw [hsocket, if_pos rfl] at htook
      rcases h.matching with ⟨pending, hretrieved, hpending⟩ | ⟨-, hdone, -⟩
      · rw [Transfer.Pending, hsent] at hpending
        obtain rfl := Option.some.inj (htook.symm.trans hpending)
        exact .inl ⟨[], by rw [hretrieved, List.append_nil], rfl⟩
      · rw [hsent] at hdone
        cases hdone
    · obtain ⟨-, hsocket⟩ := hsole.linked (hconnected ▸ trivial)
      have hended : t.control.serving = .ended := hgone.resolve_right (by simp [hsocket])
      have hname : PlainWord t.control.client.fileName ∨ t.control.client.sentCommand ≠ .retr := by
        by_cases hretr : t.control.client.sentCommand = .retr
        · obtain ⟨before, req, hasked, hname⟩ := h.named hretr
          rw [hname]
          exact .inl (h.plain req (by simp [hasked]))
        · exact .inr hretr
      obtain ⟨lost, hlost, hempty⟩ := took_zeros writable hname
      obtain rfl := Option.some.inj (htook.symm.trans hlost)
      rcases h.matching with ⟨pending, hretrieved, hpending⟩ | ⟨-, hdone, -⟩
      · rw [Transfer.Pending, hconnected] at hpending
        rw [hpending, List.append_nil] at hretrieved
        exact .inr ⟨hended, rfl, new, by rw [hretrieved], hempty⟩
      · rw [hconnected] at hdone
        cases hdone

private theorem Refines.broken (h : Refines writable t v) {env : Environment} {joinStatus : Int}
    {server : Server} {req : Message} {rest : List Message}
    (hserving : t.control.serving = .receiving server)
    (hrequests : t.control.requests = req :: rest)
    (hsteady : Steady { t.control with serving := .ended, requests := rest })
    (sockets : DataSockets) :
    Refines writable
      { t with
        control := { t.control with serving := .ended, requests := rest }
        sockets := sockets
        link := t.linkAfter (.serve env joinStatus) } v := by
  have hlink : ¬ t.link.Busy := fun hbusy => by
    have hnil := (h.busy hbusy).2
    rw [hrequests] at hnil
    cases hnil
  have hretrieved := h.retrieved hlink (by rw [hserving]; simp)
  have hended := h.ended hsteady (fun hbusy => absurd hbusy hlink) sockets
  rw [Transfer.linkAfter_serve hserving hrequests]
  refine { hended with busy := ?_, opens := ?_, matching := ?_ }
  · exact fun hbusy => hbusy.elim
  · rintro ⟨-, o, ho⟩
    cases ho
  · exact Matches.of_retrieved hretrieved id

private theorem Refines.unanswered (h : Refines writable t v) (answers : List Answer) :
    ∃ actions v', Runs.run (Service.step writable) v actions = some v' ∧
      (actions.flatMap Service.Action.answers).Sublist answers ∧ Refines writable t v' :=
  ⟨[], v, rfl, List.nil_sublist _, h⟩

private theorem Refines.answered {v' : Service} {action : Service.Action}
    (h : Refines writable t v') (hstep : Service.step writable v action = some v') :
    ∃ actions v', Runs.run (Service.step writable) v actions = some v' ∧
      (actions.flatMap Service.Action.answers).Sublist action.answers ∧ Refines writable t v' := by
  refine ⟨[action], v', ?_, ?_, h⟩
  · rw [Runs.run_cons, hstep]
    rfl
  · rw [List.flatMap_singleton]

private theorem Refines.control (h : Refines writable t v) (hsole : Sole t) {a : Action}
    (htyped : (Transfer.Event.control a).Typed)
    (hstep : t.step writable (.control a) = some t') :
    ∃ actions v', Runs.run (Service.step writable) v actions = some v' ∧
      (actions.flatMap Service.Action.answers).Sublist (Transfer.Event.control a).answers ∧
        Refines writable t' v' := by
  obtain ⟨hfree, s, hs, rfl⟩ := Transfer.step_control hstep
  have hsteady : Steady s := steady_step h.steady (stepped hs)
  have hidle (hphase : t.control.client.phase ≠ .joining ∧ t.control.client.phase ≠ .exited) :
      ¬ t.link.Busy ∧ t.control.client.phase ≠ .exited :=
    ⟨fun hbusy => (h.busy hbusy).1.elim hphase.1 hphase.2, hphase.2⟩
  cases stepped hs with
  | asked userInput command req phase line =>
    exact (h.ask hsteady phase (plainWord_of_request htyped line)).unanswered _
  | askedAgain userInput phase => exact h.unanswered _
  | served env joinStatus server req rest o serving requests outcome =>
    obtain ⟨v', hv', hrefines⟩ := h.serve serving requests (executed hs serving requests)
      hsteady (awaited _ req server) (t.socketsAfter (.serve env joinStatus))
    rw [Transfer.linkAfter_serve serving requests]
    exact hrefines.answered hv'
  | broken env joinStatus server req rest serving requests outcome =>
    exact (h.broken serving requests hsteady _).unanswered _
  | replied o started serving =>
    refine (h.reply hsteady serving ?_).unanswered _
    intro hconnected
    rw [Transfer.holds, hconnected] at hfree
    cases hfree
  | dispatched r rest phase replies =>
    have hidle := hidle (by simp [phase])
    exact (h.client hsteady rfl rfl rfl rfl rfl rfl (.inl hidle)).unanswered _
  | finished r rest phase replies =>
    have hidle := hidle (by simp [phase])
    exact (h.client hsteady rfl rfl rfl rfl rfl rfl (.inl hidle)).unanswered _
  | dispatchedZeros phase replies serving =>
    have hidle := hidle (by simp [phase])
    exact (h.client hsteady rfl rfl rfl rfl rfl rfl (.inl hidle)).unanswered _
  | finishedNothing phase replies serving =>
    have hidle := hidle (by simp [phase])
    exact (h.client hsteady rfl rfl rfl rfl rfl rfl (.inl hidle)).unanswered _
  | created createResult createHandle res phase =>
    have hidle := hidle (by simp [phase])
    have hsame : (t.control.client.create createResult createHandle).sentCommand =
        t.control.client.sentCommand ∧
        (t.control.client.create createResult createHandle).fileName =
          t.control.client.fileName := by
      rw [Client.create]
      split <;> exact ⟨rfl, rfl⟩
    exact (h.client hsteady rfl rfl rfl rfl hsame.1 hsame.2 (.inl hidle)).unanswered _
  | joined phase =>
    have hlink : ¬ t.link.Busy := by
      intro hbusy
      obtain ⟨hactive, -⟩ := hsole.linked hbusy
      rcases hsole.only with hnil | hone
      · exact hactive (ClientThreads.active_of_all_nil hnil)
      · simp [Transfer.holds, hone] at hfree
    have hidle : ¬ t.link.Busy ∧ t.control.client.phase ≠ .exited := ⟨hlink, by simp [phase]⟩
    exact (h.client hsteady rfl rfl rfl rfl rfl rfl (.inl hidle)).unanswered _
  | serverExited =>
    exact (h.ended hsteady (fun hbusy => (h.busy hbusy).2) t.sockets).unanswered _
  | clientExited =>
    exact (h.client hsteady rfl rfl rfl rfl rfl rfl (.inr rfl)).unanswered _

private theorem Refines.same (h : Refines writable t v) {sockets : DataSockets}
    {threads : ClientThreads} :
    Refines writable { t with sockets := sockets, threads := threads } v := by
  refine ⟨h.steady, h.plain, h.named, h.asked, h.served, h.server, h.path, h.busy, ?_, h.matching⟩
  intro hunderway
  obtain ⟨hserver, hrequest⟩ := h.opens hunderway
  exact ⟨hserver, hrequest⟩

private theorem Refines.setUp (h : Refines writable t v) {i free : Nat}
    (hstep : t.step writable (.setUp i free) = some t') : Refines writable t' v := by
  obtain ⟨⟨sockets, ends⟩, -, rfl⟩ := Transfer.step_setUp hstep
  cases ends with
  | false => exact h.same
  | true =>
    exact h.ended (steady_step h.steady .serverExited) (fun hbusy => (h.busy hbusy).2) sockets

private theorem refines_step {e : Transfer.Event} (h : Refines writable t v) (hsole : Sole t)
    (htyped : e.Typed) (hstep : t.step writable e = some t') :
    ∃ actions v', Runs.run (Service.step writable) v actions = some v' ∧
      (actions.flatMap Service.Action.answers).Sublist e.answers ∧ Refines writable t' v' := by
  cases e with
  | control a => exact h.control hsole htyped hstep
  | setUp i free => exact (h.setUp hstep).unanswered _
  | prepare i unset =>
    obtain ⟨threads, -, rfl⟩ := Transfer.step_prepare hstep
    exact h.same.unanswered _
  | connect i => exact (h.connect hstep).unanswered _
  | send disk =>
    obtain ⟨v', hv', hrefines⟩ := h.send hstep
    exact hrefines.answered hv'
  | take => exact (h.take hsole hstep).unanswered _

private theorem refines_start : Refines writable {} {} where
  steady := steady_start
  plain := by simp
  named := by simp
  asked := List.nil_prefix
  served := rfl
  server := fun server hserver => Option.some.inj hserver
  path := by decide
  busy := fun hbusy => hbusy.elim
  opens := fun ⟨_, o, ho⟩ => by cases ho
  matching := .inl ⟨[], rfl, rfl⟩

private theorem both_step {e : Transfer.Event} (h : Sole t ∧ Refines writable t v)
    (hok : Calm t e ∧ e.Typed) (hstep : t.step writable e = some t') :
    ∃ actions v', Runs.run (Service.step writable) v actions = some v' ∧
      (actions.flatMap Service.Action.answers).Sublist e.answers ∧
        Sole t' ∧ Refines writable t' v' := by
  obtain ⟨actions, v', hv', hanswers, hrefines⟩ := refines_step h.2 h.1 hok.2 hstep
  exact ⟨actions, v', hv', hanswers, h.1.step hok.1 hstep, hrefines⟩

/-- Wherever a run leads, the service can be there too. -/
theorem exists_refined {events : List Transfer.Event}
    (hrun : Runs.run (Transfer.step writable) {} events = some t)
    (htyped : ∀ e ∈ events, e.Typed)
    (hcalm : Runs.Along (Transfer.step writable) Calm {} events) :
    ∃ actions v, Runs.run (Service.step writable) {} actions = some v ∧
      (actions.flatMap Service.Action.answers).Sublist (events.flatMap Transfer.Event.answers) ∧
        Refines writable t v := by
  have hstart : Sole {} ∧ Refines writable {} {} := ⟨sole_start, refines_start⟩
  have hanswer (t : Transfer) (v : Service) (e : Transfer.Event) (t' : Transfer)
      (h : Sole t ∧ Refines writable t v) (hok : Calm t e ∧ e.Typed)
      (hstep : t.step writable e = some t') := both_step h hok hstep
  obtain ⟨actions, v, hv, hanswers, -, hrefines⟩ :=
    Runs.run_simulated hanswer hstart (hcalm.and_kind htyped) hrun
  exact ⟨actions, v, hv, hanswers, hrefines⟩

end Data

/-- In every run, of whatever the user types, in which the client creates its data threads, and
writes dataThread, on 2xx replies only: the server is where the service is that has been given the
same requests, and what the client has on screen and disk is what the service has fetched, in
order, but for one that is on the way; or the server is gone, and nothing came. -/
theorem refines_service (writable : CString → Bool) (events : List Transfer.Event) (t : Transfer)
    (hrun : Runs.run (Transfer.step writable) {} events = some t)
    (htyped : ∀ e ∈ events, e.Typed)
    (hcalm : Runs.Along (Transfer.step writable) Calm {} events) :
    ∃ actions v, Runs.run (Service.step writable) {} actions = some v ∧
      (actions.flatMap Service.Action.answers).Sublist (events.flatMap Transfer.Event.answers) ∧
      v.asked = t.control.asked.take t.control.served ∧
      (∀ server, t.control.server = some server → v.server = server) ∧
      ((∃ pending, v.retrieved = t.retrieved ++ pending ∧ pending.length ≤ 1) ∨
        t.control.serving = .ended ∧
          ∃ lost, t.retrieved = v.retrieved ++ lost ∧ ∀ r ∈ lost, r.Empty) := by
  obtain ⟨actions, v, hv, hanswers, h⟩ := exists_refined hrun htyped hcalm
  refine ⟨actions, v, hv, hanswers, ?_, h.server, ?_⟩
  · rw [← h.served]
    exact List.prefix_iff_eq_take.mp h.asked
  · rcases h.matching with ⟨pending, hretrieved, hpending⟩ | ⟨hended, -, hlost⟩
    · refine .inl ⟨pending, hretrieved, ?_⟩
      rw [Transfer.Pending] at hpending
      split at hpending
      · exact took_length hpending
      · rw [hpending]
        exact Nat.zero_le _
    · exact .inr ⟨hended, hlost⟩

def smallSystem : Environment := ⟨fun _ => some [['b']], fun _ => 0, 0, 0, none⟩

def smallDisk : Disk :=
  ⟨fun path => if path = "./a".toList then some ['x'] else none, fun _ => none,
    zeroed maxBufferSize [], length_zeroed (Nat.zero_le _)⟩

def conversed (line : String) : List Transfer.Event :=
  [.control (.ask line.toList), .control (.serve smallSystem 1), .control .reply,
    .control .receive]

def passiveStart : List Transfer.Event :=
  .control .receive ::
    (conversed "user auaicn" ++ conversed "pass thislove1!" ++ conversed "pasv" ++
      [.setUp 0 0, .setUp 0 0, .setUp 0 0, .control (.create 0 0),
        .prepare 0 0, .prepare 0 0, .prepare 0 0])

/-- The lines of the passive start can be typed. -/
theorem passiveStart_typed : ∀ e ∈ passiveStart, e.Typed := by
  simp [passiveStart, conversed, Transfer.Event.Typed, nul, maxBufferSize]

private def passiveRetrieval : List Transfer.Event :=
  passiveStart ++ [.control (.ask "retr a".toList), .control (.serve smallSystem 1),
    .control .receive, .connect 0, .send smallDisk, .control .reply, .take, .control .join,
    .control .receive]

/-- The retrieval of the file a is one of the service. -/
theorem retrieval_refines : ∃ t actions v,
    Runs.run (Transfer.step fun _ => true) {} passiveRetrieval = some t ∧
      t.retrieved = [.copy "afromServer".toList ['x']] ∧
      Runs.run (Service.step fun _ => true) {} actions = some v ∧
      v.asked = t.control.asked.take t.control.served := by
  have hrun : (Runs.run (Transfer.step fun _ => true) {} passiveRetrieval).map (·.retrieved) =
      some [.copy "afromServer".toList ['x']] := by decide +kernel
  obtain ⟨t, ht, hretrieved⟩ := Option.map_eq_some_iff.mp hrun
  have htyped : ∀ e ∈ passiveRetrieval, e.Typed := by
    intro e he
    rcases List.mem_append.mp he with he | he
    · exact passiveStart_typed e he
    · have hline : nul ∉ "retr a".toList ∧ "retr a".toList.length < maxBufferSize := by decide
      fin_cases he <;> first | exact hline | trivial
  have hcalm : Runs.Along (Transfer.step fun _ => true) Calm {} passiveRetrieval := by
    decide +kernel
  obtain ⟨actions, v, hv, -, hasked, -⟩ :=
    refines_service (fun _ => true) passiveRetrieval t ht htyped hcalm
  exact ⟨t, actions, v, ht, hretrieved, hv, hasked⟩

end NetworkProtocol.Ftp
