import Mathlib.Algebra.Ring.Nat
import NetworkProtocol.Ftp.Listing
import NetworkProtocol.Ftp.PathComposition
import NetworkProtocol.Ftp.System

/-! The buffers in which the server puts strings together, and what it puts there over a run: the
text of a listing, relativePath, the path of a file, and the replies that quote a path or the
body of the request. -/
namespace NetworkProtocol.Ftp
open CString CMemory

inductive Buffer where
  | entries | relativePath | filePath | responseMessage
  deriving DecidableEq, Repr

def Buffer.size : Buffer → Nat
  | .entries | .responseMessage => maxBufferSize
  | .relativePath | .filePath => maxRelativePathLength

/-- A string as it is when it has been put together. -/
structure Built where
  buffer : Buffer
  text : CString
  deriving DecidableEq, Repr

def Built.Fits (b : Built) : Prop := b.text.length + 1 ≤ b.buffer.size

section Builds
variable (env : Environment) (req : Message) (s : Server)

/-- The globals as the data thread finds them when a request signals it. -/
def signalled : Option Server :=
  if startsTransfer env req s then
    some { s with
      fileName :=
        if interpret req.command = .retr then (tokens whitespace req.body).head? else s.fileName
      dataCommand := interpret req.command }
  else none

/-- The switch of dataThreadRoutine; where opendir fails there, the listing is empty. -/
def dataThreadBuilds : List Built :=
  match s.dataCommand with
  | .nlst => [⟨.entries, encode ((env.opendir s.relativePath).getD [])⟩]
  | .retr => s.opened.toList.map (⟨.filePath, ·⟩)
  | _ => []

def quoting : List Command := [.nlst, .retr, .cwd, .type]

/-- The reply text, and relativePath where CWD has appended to it. -/
def executeBuilds : List Built :=
  match execute env req s with
  | none => []
  | some o =>
    (if interpret req.command = .cwd ∧ o.status = 226 then
      [⟨.relativePath, o.server.relativePath⟩] else []) ++
    (if interpret req.command ∈ quoting then [⟨.responseMessage, o.responseMessage⟩] else [])

def requestBuilds (dataThreadRuns : Bool) : List Built :=
  (if dataThreadRuns then (signalled env req s).toList.flatMap (dataThreadBuilds env) else []) ++
    executeBuilds env req s

def nameLength : Nat := ((tokens whitespace req.body).head?.getD []).length

def HasRoom (dataThreadRuns : Bool) : Prop :=
  let valid := validDirectoryEntry env s.relativePath (tokens whitespace req.body).head?
  let succeeds := ∃ status, env.joinStatus = some status ∧ status ≠ 0
  match interpret req.command with
  | .nlst => s.authStatus = .modeSelected →
    (dataThreadRuns = true →
      (((env.opendir s.relativePath).getD []).map (·.length + 1)).sum ≤ 1023) ∧
    (succeeds → s.relativePath.length ≤ 997)
  | .retr => s.authStatus = .modeSelected →
    (valid = some true →
      (dataThreadRuns = true → s.relativePath.length + nameLength req ≤ 2020) ∧
      (succeeds → nameLength req ≤ 997)) ∧
    (valid = some false → nameLength req ≤ 1008)
  | .cwd => s.authStatus = .loggedIn →
    (valid = some true → s.relativePath.length + nameLength req ≤ 984) ∧
    (valid = some false → s.relativePath.length ≤ 965)
  | .type => s.authStatus = .loggedIn → req.body.length ≠ 1 → req.body.length ≤ 962
  | _ => True

end Builds

def AllFit (built : List Built) : Prop := ∀ b ∈ built, b.Fits

section Lengths

private theorem fits_reply (text : CString) :
    Built.Fits ⟨.responseMessage, text⟩ ↔ text.length ≤ 1023 :=
  Nat.succ_le_succ_iff

private theorem fits_entries (text : CString) : Built.Fits ⟨.entries, text⟩ ↔ text.length ≤ 1023 :=
  Nat.succ_le_succ_iff

private theorem fits_relativePath (text : CString) :
    Built.Fits ⟨.relativePath, text⟩ ↔ text.length ≤ 2020 := Nat.succ_le_succ_iff

private theorem fits_filePath (text : CString) :
    Built.Fits ⟨.filePath, text⟩ ↔ text.length ≤ 2020 :=
  Nat.succ_le_succ_iff

private theorem length_encode (names : List CString) :
    (encode names).length = (names.map (·.length + 1)).sum := by
  simp [encode, List.length_flatMap]

@[simp] theorem allFit_nil : AllFit [] := nofun

@[simp] theorem allFit_singleton (b : Built) : AllFit [b] ↔ b.Fits := List.forall_mem_singleton

@[simp] theorem allFit_append (built more : List Built) :
    AllFit (built ++ more) ↔ AllFit built ∧ AllFit more := List.forall_mem_append

end Lengths

section Requests
variable {env : Environment} {req : Message} {s : Server} {dataThreadRuns : Bool}

private theorem allFit_requestBuilds : AllFit (requestBuilds env req s dataThreadRuns) ↔
    (dataThreadRuns = true → ∀ s', signalled env req s = some s' →
      AllFit (dataThreadBuilds env s')) ∧ AllFit (executeBuilds env req s) := by
  rw [requestBuilds, allFit_append]
  cases dataThreadRuns with
  | false => simp
  | true => cases signalled env req s <;> simp

private theorem allFit_unsignalled (h : startsTransfer env req s = false) :
    AllFit (requestBuilds env req s dataThreadRuns) ↔ AllFit (executeBuilds env req s) := by
  have hnone : signalled env req s = none := if_neg (Bool.eq_false_iff.mp h)
  rw [allFit_requestBuilds, hnone]
  exact and_iff_right (fun _ s' hs' => absurd hs' nofun)

private theorem allFit_none (hexec : execute env req s = none) :
    AllFit (executeBuilds env req s) := by
  rw [executeBuilds, hexec]
  exact allFit_nil

private theorem allFit_reply {o : Outcome} (hexec : execute env req s = some o)
    (hquoting : interpret req.command ∈ quoting)
    (hcwd : interpret req.command ≠ .cwd ∨ o.status ≠ 226) :
    AllFit (executeBuilds env req s) ↔ o.responseMessage.length ≤ 1023 := by
  simp only [executeBuilds, hexec]
  rw [if_neg (not_and_or.mpr hcwd), if_pos hquoting, List.nil_append, allFit_singleton, fits_reply]

private theorem allFit_moved {o : Outcome} (hexec : execute env req s = some o)
    (hcwd : interpret req.command = .cwd ∧ o.status = 226) :
    AllFit (executeBuilds env req s) ↔
      o.server.relativePath.length ≤ 2020 ∧ o.responseMessage.length ≤ 1023 := by
  simp only [executeBuilds, hexec]
  rw [if_pos hcwd, if_pos (by simp [hcwd.1, quoting]), allFit_append, allFit_singleton,
    allFit_singleton, fits_reply, fits_relativePath]

private theorem allFit_early {o : Outcome} (hexec : execute env req s = some o)
    (hquoting : interpret req.command ∈ quoting)
    (hearly : o = s.loginFirst ∨ o = s.selectModeFirst) : AllFit (executeBuilds env req s) := by
  rcases hearly with rfl | rfl
  · refine (allFit_reply hexec hquoting (.inr (show (401 : Int) ≠ 226 by decide))).mpr ?_
    change "operation not authroized. Please login first.".toList.length ≤ 1023
    decide
  · refine (allFit_reply hexec hquoting (.inr (show (401 : Int) ≠ 226 by decide))).mpr ?_
    change "please select ftp mode first (active, passive)".toList.length ≤ 1023
    decide

private theorem allFit_transfer {command : Command} {subject : CString} (s' : Server)
    (hquoting : interpret req.command ∈ quoting) (hcwd : interpret req.command ≠ .cwd)
    (hexec : execute env req s = Server.transfer env command subject s') :
    AllFit (executeBuilds env req s) ↔
      ((∃ status, env.joinStatus = some status ∧ status ≠ 0) → subject.length ≤ 997) := by
  rw [Server.transfer] at hexec
  cases hjoin : env.joinStatus with
  | none =>
    rw [hjoin] at hexec
    exact iff_of_true (allFit_none hexec) nofun
  | some status =>
    rw [hjoin, Option.map_some] at hexec
    by_cases hstatus : status = 0
    · rw [if_pos hstatus] at hexec
      refine iff_of_true ((allFit_reply hexec hquoting (.inl hcwd)).mpr ?_) ?_
      · change "Internal Server Error\n".toList.length ≤ 1023
        decide
      · rintro ⟨other, hother, hne⟩
        exact absurd ((Option.some.inj hother).symm.trans hstatus) hne
    · rw [if_neg hstatus] at hexec
      rw [allFit_reply hexec hquoting (.inl hcwd)]
      have hlength : ("Successfully transferred ".toList ++ subject ++ ['\n']).length =
          25 + subject.length + 1 := by
        rw [List.length_append, List.length_append]
        rfl
      rw [hlength]
      constructor
      · intro hfits _
        omega
      · intro hfits
        have hsubject := hfits ⟨status, rfl, hstatus⟩
        omega

private theorem room_nlst (command : interpret req.command = .nlst) :
    AllFit (requestBuilds env req s dataThreadRuns) ↔ HasRoom env req s dataThreadRuns := by
  have hexec : execute env req s = s.nlst env := by rw [execute, command]
  have hquoting : interpret req.command ∈ quoting := by simp [command, quoting]
  simp only [HasRoom, command]
  by_cases auth : s.authStatus = .modeSelected
  · have htransfer : execute env req s = Server.transfer env .nlst s.relativePath s := by
      rw [hexec, Server.nlst, if_neg (not_not.mpr auth)]
    rw [allFit_requestBuilds, allFit_transfer s hquoting (by simp [command]) htransfer]
    simp [auth, signalled, startsTransfer, command, dataThreadBuilds, fits_entries, length_encode]
  · rw [Server.nlst, if_pos auth] at hexec
    rw [allFit_unsignalled (by simp [startsTransfer, auth])]
    exact iff_of_true (allFit_early hexec hquoting (.inr rfl)) (fun h => absurd h auth)

private theorem allFit_retr {name : CString} (command : interpret req.command = .retr)
    (auth : s.authStatus = .modeSelected)
    (first : (tokens whitespace req.body).head? = some name)
    (valid : validDirectoryEntry env s.relativePath (some name) = some true) :
    AllFit (requestBuilds env req s dataThreadRuns) ↔
      (dataThreadRuns = true → s.relativePath.length + name.length ≤ 2020) ∧
        ((∃ status, env.joinStatus = some status ∧ status ≠ 0) → name.length ≤ 997) := by
  have hquoting : interpret req.command ∈ quoting := by simp [command, quoting]
  have htransfer : execute env req s =
      Server.transfer env .retr name { s with fileName := some name } := by
    rw [execute_retr command auth first, valid]
    rfl
  rw [allFit_requestBuilds, allFit_transfer _ hquoting (by simp [command]) htransfer]
  simp [auth, signalled, startsTransfer, command, first, valid, dataThreadBuilds, Server.opened,
    fits_filePath]

private theorem allFit_unlisted {name : CString} (command : interpret req.command = .retr)
    (auth : s.authStatus = .modeSelected)
    (first : (tokens whitespace req.body).head? = some name)
    (valid : validDirectoryEntry env s.relativePath (some name) = some false) :
    AllFit (requestBuilds env req s dataThreadRuns) ↔ name.length ≤ 1008 := by
  have hquoting : interpret req.command ∈ quoting := by simp [command, quoting]
  have hexec : execute env req s = some
      { server := { s with fileName := some name }
        status := 404
        responseMessage := "failed opening ".toList ++ name } := by
    rw [execute_retr command auth first, valid]
    rfl
  have hlength : "failed opening ".toList.length = 15 := by decide
  rw [allFit_unsignalled (by simp [startsTransfer, command, first, valid]),
    allFit_reply hexec hquoting (.inl (by simp [command])), List.length_append, hlength]
  omega

private theorem room_retr (command : interpret req.command = .retr) :
    AllFit (requestBuilds env req s dataThreadRuns) ↔ HasRoom env req s dataThreadRuns := by
  have hexec : execute env req s = s.retr env req.body := by rw [execute, command]
  have hquoting : interpret req.command ∈ quoting := by simp [command, quoting]
  simp only [HasRoom, command, nameLength]
  by_cases auth : s.authStatus = .modeSelected
  · rw [Server.retr, if_neg (not_not.mpr auth)] at hexec
    cases first : (tokens whitespace req.body).head? with
    | none =>
      have hnone : execute env req s = none := by simp [hexec, first]
      have hfound := validDirectoryEntry_none env s.relativePath
      rw [allFit_unsignalled (by simp [startsTransfer, command, first, hfound])]
      exact iff_of_true (allFit_none hnone) (fun _ => ⟨fun h => absurd h hfound, by simp⟩)
    | some name =>
      cases valid : validDirectoryEntry env s.relativePath (some name) with
      | none =>
        have hnone : execute env req s = none := by
          rw [execute_retr command auth first, valid, Option.bind_none]
        rw [allFit_unsignalled (by simp [startsTransfer, command, first, valid])]
        exact iff_of_true (allFit_none hnone) (fun _ => by simp)
      | some found =>
        cases found with
        | true =>
          rw [allFit_retr command auth first valid]
          simp [auth]
        | false =>
          rw [allFit_unlisted command auth first valid]
          simp [auth]
  · rw [Server.retr, if_pos auth] at hexec
    rw [allFit_unsignalled (by simp [startsTransfer, auth])]
    exact iff_of_true (allFit_early hexec hquoting (.inr rfl)) (fun h => absurd h auth)

private theorem room_cwd (command : interpret req.command = .cwd) :
    AllFit (requestBuilds env req s dataThreadRuns) ↔ HasRoom env req s dataThreadRuns := by
  have hexec : execute env req s = s.cwd env req.body := by rw [execute, command]
  have hquoting : interpret req.command ∈ quoting := by simp [command, quoting]
  rw [allFit_unsignalled (by simp [startsTransfer, command])]
  simp only [HasRoom, command, nameLength]
  by_cases auth : s.authStatus = .loggedIn
  · rw [Server.cwd, if_neg (not_not.mpr auth), changeWorkingDirectory] at hexec
    cases valid : validDirectoryEntry env s.relativePath (tokens whitespace req.body).head? with
    | none =>
      simp only [valid] at hexec
      exact iff_of_true (allFit_none hexec) (fun _ => by simp)
    | some found =>
      cases found with
      | true =>
        cases first : (tokens whitespace req.body).head? with
        | none => exact absurd (first ▸ valid) (validDirectoryEntry_none env _)
        | some name =>
          rw [first] at valid
          simp only [first, valid] at hexec
          have hlength : "changed current working directory to \"".toList.length = 38 := by decide
          rw [allFit_moved hexec ⟨command, by rfl⟩]
          simp only [List.length_append, List.length_singleton, hlength, auth, true_implies,
            Option.getD_some, Option.some.injEq, Bool.true_eq_false, false_implies, and_true]
          omega
      | false =>
        simp only [valid] at hexec
        have hlength : "changing directory failed. current working directory is \"".toList.length =
            57 := by decide
        rw [allFit_reply hexec hquoting (.inr (show (500 : Int) ≠ 226 by decide))]
        simp only [List.length_append, List.length_singleton, hlength, auth, true_implies,
          Option.some.injEq, Bool.false_eq_true, false_implies, true_and]
        omega
  · rw [Server.cwd, if_pos auth] at hexec
    exact iff_of_true (allFit_early hexec hquoting (.inl rfl)) (fun h => absurd h auth)

private theorem length_type (auth : s.authStatus = .loggedIn) (body : CString) :
    (s.type body).responseMessage.length ≤ 1023 ↔ (body.length ≠ 1 → body.length ≤ 962) := by
  have hset : "Type set to ".toList.length = 12 := by decide
  have hbinary : " (Binary)".toList.length = 9 := by decide
  have hascii : " (Ascii)".toList.length = 8 := by decide
  have hinvalid : "invalid file transfer type \"".toList.length = 28 := by decide
  have hbefore : "type must be a single character \"".toList.length = 33 := by decide
  have hafter : "\" is not a single character.".toList.length = 28 := by decide
  unfold Server.type
  rw [if_neg (not_not.mpr auth)]
  split
  · rename_i c
    refine iff_of_true ?_ (fun hne => absurd rfl hne)
    split_ifs <;> simp only [List.length_append, List.length_singleton, hset, hbinary, hascii,
      hinvalid] <;> omega
  · rename_i hne
    have hlength : body.length ≠ 1 := fun h => by
      obtain ⟨c, hc⟩ := List.length_eq_one_iff.mp h
      exact hne c hc
    simp only [List.length_append, hbefore, hafter]
    omega

private theorem room_type (command : interpret req.command = .type) :
    AllFit (requestBuilds env req s dataThreadRuns) ↔ HasRoom env req s dataThreadRuns := by
  have hexec : execute env req s = some (s.type req.body) := by rw [execute, command]
  have hquoting : interpret req.command ∈ quoting := by simp [command, quoting]
  rw [allFit_unsignalled (by simp [startsTransfer, command])]
  simp only [HasRoom, command]
  by_cases auth : s.authStatus = .loggedIn
  · rw [allFit_reply hexec hquoting (.inl (by simp [command])), length_type auth]
    exact ⟨fun h _ => h, fun h => h auth⟩
  · have hearly : s.type req.body = s.loginFirst := by
      unfold Server.type
      rw [if_pos auth]
    exact iff_of_true (allFit_early hexec hquoting (.inl hearly)) (fun h => absurd h auth)

private theorem room_other (hquoting : interpret req.command ∉ quoting) :
    AllFit (requestBuilds env req s dataThreadRuns) ↔ HasRoom env req s dataThreadRuns := by
  have hcwd : interpret req.command ≠ .cwd := fun h => hquoting (by simp [h, quoting])
  have hnone : AllFit (executeBuilds env req s) := by
    rw [executeBuilds]
    split
    · exact allFit_nil
    · rw [if_neg (fun h => hcwd h.1), if_neg hquoting]
      exact allFit_nil
  generalize hcommand : interpret req.command = command at hquoting
  rw [allFit_unsignalled (by cases command <;> simp_all [startsTransfer, quoting])]
  refine iff_of_true hnone ?_
  cases command <;> simp_all [HasRoom, quoting]

/-- What a request makes the server build fits exactly when it finds room for it. -/
theorem allFit_iff_hasRoom (env : Environment) (req : Message) (s : Server)
    (dataThreadRuns : Bool) :
    AllFit (requestBuilds env req s dataThreadRuns) ↔ HasRoom env req s dataThreadRuns := by
  cases command : interpret req.command with
  | nlst => exact room_nlst command
  | retr => exact room_retr command
  | cwd => exact room_cwd command
  | type => exact room_type command
  | _ => exact room_other (by simp [command, quoting])

/-- Of a string that does not fit, the loop of getDirectoryEntries makes none. -/
theorem getDirectoryEntries_isSome_iff_fits {names : List CString}
    (h : ∀ name ∈ names, nul ∉ name) :
    (getDirectoryEntries names).isSome ↔ Built.Fits ⟨.entries, encode names⟩ :=
  getDirectoryEntries_isSome_iff h

/-- Nor do strcpy and strcat in getStreamFromFile. -/
theorem filePath_isSome_iff_fits {relativePath fileName : CString} (h : nul ∉ relativePath) :
    (filePath relativePath fileName).isSome ↔ Built.Fits ⟨.filePath, relativePath ++ fileName⟩ :=
  filePath_isSome_iff h

end Requests

/-- An event of main, and whether the data thread it signals gets to its switch. -/
structure Occurrence where
  event : Event
  dataThreadRuns : Bool

/-- The server, until a request that execute does not return from, and all it has built. -/
structure Building where
  main : Option Main := some {}
  built : List Built := []

namespace Building

def builds (m : Main) (x : Occurrence) : List Built :=
  match x.event with
  | .request env req =>
    if m.connected then requestBuilds env req m.server x.dataThreadRuns else []
  | _ => []

def step (b : Building) (x : Occurrence) : Option Building :=
  b.main.map (fun m => ⟨Ftp.step m x.event, b.built ++ builds m x⟩)

def HasRoom (b : Building) (x : Occurrence) : Prop :=
  match x.event with
  | .request env req => ∀ m, b.main = some m → m.connected = true →
    Ftp.HasRoom env req m.server x.dataThreadRuns
  | _ => True

section Steps
variable {b b' : Building} {x : Occurrence}

private theorem allFit_builds {m : Main} (hmain : b.main = some m) :
    AllFit (builds m x) ↔ b.HasRoom x := by
  rw [builds, HasRoom]
  cases x.event with
  | request env req =>
    rcases Bool.eq_false_or_eq_true m.connected with hon | hoff
    · simp [hmain, hon, allFit_iff_hasRoom]
    · simp [hmain, hoff]
  | _ => exact iff_of_true allFit_nil trivial

/-- What an event adds fits exactly when it finds room. -/
theorem allFit_step (h : b.step x = some b') :
    AllFit b'.built ↔ AllFit b.built ∧ b.HasRoom x := by
  obtain ⟨m, hmain, rfl⟩ := Option.map_eq_some_iff.mp h
  rw [allFit_append, allFit_builds hmain]

end Steps

/-- Over every run, with whatever directories: all the server builds fits in its buffer exactly
when every request finds room. -/
theorem all_fit_iff_has_room (run : List Occurrence) :
    Runs.Visits step (fun b => AllFit b.built) {} run ↔ Runs.Along step HasRoom {} run := by
  apply Runs.visits_iff_along (I := fun b => AllFit b.built)
  · exact fun b x b' hfit hstep hroom => (allFit_step hstep).mpr ⟨hfit, hroom⟩
  · exact fun b hfit => hfit
  · exact fun b x b' hfit hstep hroom hfit' => hroom ((allFit_step hstep).mp hfit').2
  · exact allFit_nil

/-- A login, and TYPE with a body of 963 characters. -/
theorem long_type_overflows :
    ¬ ∀ run b, Runs.run step {} run = some b → AllFit b.built := by
  intro h
  let env : Environment := ⟨fun _ => none, fun _ => 0, 0, 0, some 1⟩
  let login : List Occurrence :=
    [⟨.accept, false⟩, ⟨.request env { command := "user".toList, body := userId }, false⟩,
      ⟨.request env { command := "pass".toList, body := userPassword }, false⟩]
  let body : CString := List.replicate 963 'x'
  let long : Occurrence := ⟨.request env { command := "type".toList, body := body }, false⟩
  obtain ⟨b, m, hrun, hmain, hon, hauth⟩ : ∃ b m, Runs.run step {} login = some b ∧
      b.main = some m ∧ m.connected = true ∧ m.server.authStatus = .loggedIn :=
    ⟨_, _, rfl, rfl, rfl, rfl⟩
  have hstep : b.step long = some ⟨Ftp.step m long.event, b.built ++ builds m long⟩ := by
    rw [step, hmain, Option.map_some]
  have hlong : Runs.run step {} (login ++ [long]) = _ := Runs.run_trans hrun (by
    rw [Runs.run_cons, hstep, Option.bind_some, Runs.run_nil])
  have hroom := ((allFit_step hstep).mp (h _ _ hlong)).2 m hmain hon
  have hlength : body.length = 963 := List.length_replicate
  have hcommand : interpret "type".toList = .type := by decide
  simp only [Ftp.HasRoom, hcommand, hlength] at hroom
  exact absurd (hroom hauth (by decide)) (by decide)

end Building

end NetworkProtocol.Ftp
