import NetworkProtocol.Library.Strtok
import NetworkProtocol.Ftp.Client

/-! The client's prompt in the one buffer it reads into: lines are read over each other, cut up
by strtok and put in lower case where they lie, until one of them makes a request. -/
namespace NetworkProtocol.Ftp
open CString CMemory

/-- scanf of " %1023[^\n]": a line, and what is left to read; none at the end of the input. -/
def scanLine (stdin : List Char) : Option (CString × List Char) :=
  let text := stdin.dropWhile isSpace
  let line := (text.takeWhile (· ≠ '\n')).take (maxBufferSize - 1)
  if line = [] then none else some (line, text.drop line.length)

/-- interpret of a string in memory, which it leaves in lower case. -/
def interpretAt (block : Block) (offset : Nat) : Option (Command × Block) :=
  (cString (block.drop offset)).bind (fun inputCommand =>
    (write block offset (toLowercase inputCommand)).map (fun block =>
      (interpret inputCommand, block)))

structure Entry where
  userInput : Block
  cursor : Nat
  inputCommand : Nat
  command : Command
  stdin : List Char

/-- The line is stored, its first word extracted and interpreted; none where a NULL would be read
or the buffer left. -/
def enter (line : CString) (stdin : List Char) (userInput : Block) : Option Entry :=
  (writeString userInput 0 line).bind (fun userInput =>
    (strtok whitespace userInput 0).bind (fun t =>
      t.token.bind (fun inputCommand =>
        (interpretAt t.block inputCommand).map (fun interpreted =>
          { userInput := interpreted.2
            cursor := t.cursor
            inputCommand := inputCommand
            command := interpreted.1
            stdin := stdin }))))

def readEntry (stdin : List Char) (userInput : Block) : Option Entry :=
  (scanLine stdin).bind (fun scanned => enter scanned.1 scanned.2 userInput)

/-- The loop over unknown commands. Its body declares an inputCommand of its own, so the one
outside still points to the first line's word. -/
def retry : Nat → Entry → Option Entry
  | 0, _ => none
  | fuel + 1, e =>
    if e.command = .unknown then
      (readEntry e.stdin e.userInput).bind (fun next =>
        retry fuel { next with inputCommand := e.inputCommand })
    else some e

structure RequestRecord where
  command : Block
  body : Block
  deriving DecidableEq

/-- The two strcpy into a record of zeros, with strtok's next word between them. -/
def fillRequest (e : Entry) : Option RequestRecord :=
  (cString (e.userInput.drop e.inputCommand)).bind (fun inputCommand =>
    (writeString (zeroed maxLenCommand []) 0 inputCommand).bind (fun command =>
      (strtok whitespace e.userInput e.cursor).bind (fun t =>
        let left := match t.token with
          | none => some []
          | some token => cString (t.block.drop token)
        left.bind (fun left =>
          (writeString (zeroed maxBufferSize []) 0 left).map (fun body => ⟨command, body⟩)))))

/-- One iteration of main from the prompt on: sentCommand, the record sent, and the input left.
Every line takes up input, so the loop ends. -/
def prompt (userInput : Block) (stdin : List Char) : Option (Command × RequestRecord × List Char) :=
  (readEntry stdin userInput).bind (fun first =>
    (retry (stdin.length + 1) first).bind (fun e =>
      (fillRequest e).map (fun req => (e.command, req, e.stdin))))

structure Line where
  text : CString
  starts : ∃ c rest, text = c :: rest ∧ isSpace c = false
  oneLine : '\n' ∉ text
  terminated : nul ∉ text
  fits : text.length ≤ maxBufferSize - 1

namespace Line

def words (l : Line) : List CString := tokens whitespace l.text

def firstWord (l : Line) : CString := l.words.headD []

end Line

def typed (lines : List Line) : List Char := lines.flatMap (fun l => l.text ++ ['\n'])

def commandWords : List CString :=
  ["user".toList, "pass".toList, "nlst".toList, "pasv".toList, "retr".toList, "cwd".toList,
    "quit".toList, "type".toList, "port".toList]

/-- A word is unknown just when it is no command in lower case. -/
theorem interpret_eq_unknown_iff (w : CString) :
    interpret w = .unknown ↔ toLowercase w ∉ commandWords := by
  rw [interpret, commandWords]
  split_ifs <;> simp_all

section Reading
variable {pending rest : List Char} {userInput : Block}

/-- Blanks before a line are skipped, and its newline is left to the next call. -/
theorem scanLine_typed (l : Line) (hpending : ∀ c ∈ pending, isSpace c = true) :
    scanLine (pending ++ (l.text ++ '\n' :: rest)) = some (l.text, '\n' :: rest) := by
  obtain ⟨c, left, htext, hc⟩ := l.starts
  have hdrop : (pending ++ (l.text ++ '\n' :: rest)).dropWhile isSpace =
      l.text ++ '\n' :: rest := by
    rw [List.dropWhile_append_of_pos hpending, htext]
    simp [hc]
  have hline : (l.text ++ '\n' :: rest).takeWhile (· ≠ '\n') = l.text := by
    rw [List.takeWhile_append_of_pos (fun d hd => by
      have hne : d ≠ '\n' := fun h => l.oneLine (h ▸ hd)
      simpa using hne)]
    simp
  rw [scanLine, hdrop, hline, List.take_of_length_le l.fits, if_neg (by simp [htext]),
    List.drop_left]

/-- What readEntry leaves of a line: its first word in lower case at the start of the buffer, and
strtok at the words behind it. -/
structure Entered (l : Line) (rest : List Char) (e : Entry) : Prop where
  inputCommand : e.inputCommand = 0
  command : e.command = interpret l.firstWord
  stdin : e.stdin = '\n' :: rest
  size : e.userInput.length = maxBufferSize
  word : ∃ after, e.userInput = toLowercase l.firstWord ++ nul :: after
  left : ∃ before tail after, e.userInput = before ++ (tail ++ nul :: after) ∧
    e.cursor = before.length ∧ nul ∉ tail ∧ tokens whitespace tail = l.words.tail

/-- A line starts with its first word, and what follows the word has the other words. -/
theorem Line.cut (l : Line) :
    l.firstWord ≠ [] ∧ (∀ c ∈ l.firstWord, c ∉ whitespace) ∧ l.words = l.firstWord :: l.words.tail ∧
      (l.text = l.firstWord ∧ l.words.tail = [] ∨
        ∃ d tail, d ∈ whitespace ∧ l.text = l.firstWord ++ d :: tail ∧
          l.words.tail = tokens whitespace tail) := by
  obtain ⟨c, left, htext, hc⟩ := l.starts
  have hstart : c ∉ whitespace := by simpa [isSpace, whitespace] using hc
  rcases CMemory.cut whitespace l.text with hall | ⟨lead, word, hlead, hne, hword, hcut⟩
  · exact absurd (hall c (by simp [htext])) hstart
  · obtain rfl : lead = [] := by
      cases lead with
      | nil => rfl
      | cons first lead =>
        have hfirst := hlead first List.mem_cons_self
        rcases hcut with hcut | ⟨d, tail, hd, hcut⟩ <;>
        · rw [htext] at hcut
          obtain ⟨rfl, -⟩ := List.cons.inj hcut
          exact absurd hfirst hstart
    rcases hcut with hcut | ⟨d, tail, hd, hcut⟩
    · have hwords : l.words = [word] := by
        rw [Line.words, hcut]
        exact tokens_word hne hword
      have hfirst : l.firstWord = word := by rw [Line.firstWord, hwords, List.headD_cons]
      rw [hfirst, hwords]
      exact ⟨hne, hword, rfl, .inl ⟨hcut, rfl⟩⟩
    · have hwords : l.words = word :: tokens whitespace tail := by
        rw [Line.words, hcut]
        exact tokens_cons hne hword hd
      have hfirst : l.firstWord = word := by rw [Line.firstWord, hwords, List.headD_cons]
      rw [hfirst, hwords]
      exact ⟨hne, hword, rfl, .inr ⟨d, tail, hd, hcut, rfl⟩⟩

/-- interpret in place of a string at the start of a block. -/
theorem interpretAt_start {w : CString} (hw : nul ∉ w) (after : Block) :
    interpretAt (w ++ nul :: after) 0 = some (interpret w, toLowercase w ++ nul :: after) := by
  have hfits : 0 + (toLowercase w).length ≤ (w ++ nul :: after).length := by
    rw [length_toLowercase, List.length_append]
    omega
  rw [interpretAt, List.drop_zero, cString_append hw, Option.bind_some, write, if_pos hfits,
    length_toLowercase, Nat.zero_add, List.drop_left]
  simp

private theorem Line.strtok_first (l : Line) (after : Block) :
    ∃ cursor behind, strtok whitespace (l.text ++ nul :: after) 0 =
        some ⟨l.firstWord ++ nul :: behind, cursor, some 0⟩ ∧
      (l.firstWord ++ nul :: behind).length = (l.text ++ nul :: after).length ∧
      nul ∉ l.firstWord ∧
      ∃ before tail rest, toLowercase l.firstWord ++ nul :: behind =
          before ++ (tail ++ nul :: rest) ∧
        cursor = before.length ∧ nul ∉ tail ∧ tokens whitespace tail = l.words.tail := by
  obtain ⟨hne, hword, -, hcut⟩ := l.cut
  have hlead : ∀ c ∈ ([] : CString), c ∈ whitespace := nofun
  have hterminated := l.terminated
  rcases hcut with ⟨htext, hwords⟩ | ⟨d, tail, hd, htext, hwords⟩
  · rw [htext] at hterminated ⊢
    refine ⟨_, after, strtok_last [] after hlead hne hword hterminated, rfl, hterminated,
      toLowercase l.firstWord, [], after, rfl, (length_toLowercase _).symm, List.not_mem_nil, ?_⟩
    rw [hwords, tokens_nil]
  · rw [htext] at hterminated ⊢
    refine ⟨_, _, strtok_word [] after hlead hne hword hd hterminated, by simp,
      fun h => hterminated (List.mem_append_left _ h),
      toLowercase l.firstWord ++ [nul], tail, after, by simp, ?_,
      fun h => hterminated (List.mem_append_right _ (List.mem_cons_of_mem _ h)), hwords.symm⟩
    simp only [List.nil_append, List.length_append, length_toLowercase]

/-- One line, read over whatever the buffer held before. -/
theorem readEntry_typed (rest : List Char) (l : Line)
    (hpending : ∀ c ∈ pending, isSpace c = true) (hsize : userInput.length = maxBufferSize) :
    ∃ e, readEntry (pending ++ (l.text ++ '\n' :: rest)) userInput = some e ∧
      Entered l rest e := by
  have hroom : l.text.length < userInput.length := by
    have hfits := l.fits
    rw [hsize]
    rw [maxBufferSize] at hfits ⊢
    omega
  have hread := writeString_start hroom
  generalize hafter : userInput.drop (l.text.length + 1) = after at hread
  obtain ⟨cursor, behind, htok, hlength, hnul, hleft⟩ := l.strtok_first after
  rw [readEntry, scanLine_typed l hpending, Option.bind_some, enter, hread, Option.bind_some, htok,
    Option.bind_some, Option.bind_some, interpretAt_start hnul, Option.map_some]
  refine ⟨_, rfl, rfl, rfl, rfl, ?_, ⟨behind, rfl⟩, hleft⟩
  have hwhole : (l.text ++ nul :: after).length = maxBufferSize := by
    rw [List.length_append, List.length_cons, ← hafter, List.length_drop, hsize]
    omega
  rw [← hwhole, ← hlength, List.length_append, List.length_append, length_toLowercase]

/-- However many lines are rejected, the outer inputCommand and strtok's cursor end up on the
line that is not. -/
theorem retry_typed (rest : List Char) (rejected : List Line) (l : Line)
    (hrejected : ∀ r ∈ rejected, toLowercase r.firstWord ∉ commandWords)
    (hl : toLowercase l.firstWord ∈ commandWords) {fuel : Nat} (hfuel : rejected.length < fuel)
    (hpending : ∀ c ∈ pending, isSpace c = true) (hsize : userInput.length = maxBufferSize) :
    ∃ e, (readEntry (pending ++ (typed (rejected ++ [l]) ++ rest)) userInput).bind (retry fuel) =
      some e ∧ Entered l rest e := by
  have hnewline : ∀ c ∈ ['\n'], isSpace c = true := by simp [isSpace]
  induction rejected generalizing pending userInput fuel with
  | nil =>
    obtain ⟨e, hread, entered⟩ := readEntry_typed rest l hpending hsize
    obtain ⟨left, rfl⟩ : ∃ left, fuel = left + 1 := ⟨fuel - 1, by omega⟩
    have hknown : e.command ≠ .unknown := by
      rw [entered.command, Ne, interpret_eq_unknown_iff, not_not]
      exact hl
    have htyped : typed ([] ++ [l]) ++ rest = l.text ++ '\n' :: rest := by simp [typed]
    rw [htyped, hread, Option.bind_some, retry, if_neg hknown]
    exact ⟨e, rfl, entered⟩
  | cons r rejected ih =>
    have htyped : typed (r :: rejected ++ [l]) ++ rest =
        r.text ++ '\n' :: (typed (rejected ++ [l]) ++ rest) := by simp [typed]
    obtain ⟨e, hread, entered⟩ :=
      readEntry_typed (typed (rejected ++ [l]) ++ rest) r hpending hsize
    obtain ⟨left, rfl⟩ : ∃ left, fuel = left + 1 := ⟨fuel - 1, by omega⟩
    have hunknown : e.command = .unknown := by
      rw [entered.command, interpret_eq_unknown_iff]
      exact hrejected r List.mem_cons_self
    have hshorter : rejected.length < left := by
      rw [List.length_cons] at hfuel
      omega
    obtain ⟨e', hretry, entered'⟩ := ih
      (fun other h => hrejected other (List.mem_cons_of_mem _ h)) hshorter hnewline entered.size
    obtain ⟨next, hnext, hrest⟩ := Option.bind_eq_some_iff.mp hretry
    -- The next line's word is at the start of the buffer too, so the outer pointer is on it.
    have hpointer : next.inputCommand = e.inputCommand := by
      obtain ⟨x, xs, hx⟩ : ∃ x xs, rejected ++ [l] = x :: xs :=
        List.exists_cons_of_ne_nil (by simp)
      have hlines : typed (rejected ++ [l]) ++ rest = x.text ++ '\n' :: (typed xs ++ rest) := by
        rw [hx]
        simp [typed]
      obtain ⟨entry, hentry, enteredx⟩ :=
        readEntry_typed (typed xs ++ rest) x hnewline entered.size
      rw [hlines, hentry] at hnext
      obtain rfl := Option.some.inj hnext
      rw [enteredx.inputCommand, entered.inputCommand]
    refine ⟨e', ?_, entered'⟩
    rw [htyped, hread, Option.bind_some, retry, if_pos hunknown, entered.stdin,
      ← List.singleton_append, hnext, Option.bind_some, ← hpointer]
    exact hrest

end Reading

private theorem commandWords_fit {w : CString} (h : w ∈ commandWords) :
    nul ∉ w ∧ w.length < maxLenCommand := by
  simp only [commandWords, List.mem_cons, List.not_mem_nil, or_false] at h
  rcases h with rfl | rfl | rfl | rfl | rfl | rfl | rfl | rfl | rfl <;>
    exact ⟨by simp [nul], by simp [maxLenCommand]⟩

private theorem Line.body_fits (l : Line) : nul ∉ (l.words[1]?).getD [] ∧
    ((l.words[1]?).getD []).length < maxBufferSize := by
  cases hsecond : l.words[1]? with
  | none => exact ⟨List.not_mem_nil, by simp [maxBufferSize]⟩
  | some w =>
    have hmem := List.mem_of_getElem? hsecond
    have hlength := length_le_of_mem_tokens hmem
    have hfits := l.fits
    rw [Option.getD_some]
    rw [maxBufferSize] at hfits ⊢
    exact ⟨fun h => l.terminated (mem_of_mem_tokens hmem h), by omega⟩

private theorem Entered.next {l : Line} {rest : List Char} {e : Entry}
    (entered : Entered l rest e) :
    ∃ t, strtok whitespace e.userInput e.cursor = some t ∧
      (match t.token with
        | none => some []
        | some token => cString (t.block.drop token)) = some ((l.words[1]?).getD []) := by
  obtain ⟨before, tail, behind, hblock, hcursor, hnul, hwords⟩ := entered.left
  have hsecond : l.words[1]? = (tokens whitespace tail).head? := by
    rw [hwords, List.head?_eq_getElem?, List.getElem?_tail]
  obtain ⟨t, ht, hhead⟩ := strtok_head whitespace before behind hnul
  rw [hblock, hcursor, hsecond]
  refine ⟨t, ht, ?_⟩
  cases htoken : t.token with
  | none =>
    rw [htoken] at hhead
    rw [Option.map_eq_none_iff.mp hhead.symm, Option.getD_none]
  | some token =>
    rw [htoken] at hhead
    obtain ⟨w, hw, hread⟩ := Option.map_eq_some_iff.mp hhead.symm
    rw [hw, Option.getD_some]
    exact hread.symm

/-- The fields of the request record made of a line that a command starts. -/
theorem fillRequest_entered {l : Line} {rest : List Char} {e : Entry} (entered : Entered l rest e)
    (hl : toLowercase l.firstWord ∈ commandWords) :
    ∃ req, fillRequest e = some req ∧ req.command.length = maxLenCommand ∧
      cString req.command = some (toLowercase l.firstWord) ∧
      cString req.body = some ((l.words[1]?).getD []) := by
  obtain ⟨after, hword⟩ := entered.word
  obtain ⟨t, ht, hleft⟩ := entered.next
  obtain ⟨hnul, hfits⟩ := commandWords_fit hl
  obtain ⟨hbodyNul, hbodyFits⟩ := l.body_fits
  refine ⟨⟨zeroed maxLenCommand (toLowercase l.firstWord), zeroed maxBufferSize _⟩, ?_,
    length_zeroed (Nat.le_of_lt hfits), cString_zeroed_alone hnul hfits,
    cString_zeroed_alone hbodyNul hbodyFits⟩
  have hcommand : cString (e.userInput.drop e.inputCommand) = some (toLowercase l.firstWord) := by
    rw [entered.inputCommand, List.drop_zero, hword]
    exact cString_append hnul after
  rw [fillRequest, hcommand, Option.bind_some, writeString_zeroed hfits, Option.bind_some, ht,
    Option.bind_some]
  dsimp only
  rw [hleft, Option.bind_some, writeString_zeroed hbodyFits, Option.map_some]

/-- Every line typed ends in a newline. -/
theorem length_le_typed (lines : List Line) : lines.length ≤ (typed lines).length := by
  induction lines with
  | nil => exact Nat.le_refl 0
  | cons l lines ih =>
    have htyped : typed (l :: lines) = l.text ++ '\n' :: typed lines := by simp [typed]
    rw [htyped, List.length_append, List.length_cons, List.length_cons]
    omega

/-- The request of a line, read off the line itself, is the one that the buffer makes of it. -/
theorem request_text {l : Line} (hl : toLowercase l.firstWord ∈ commandWords) :
    request l.text = some (interpret l.firstWord,
      { command := toLowercase l.firstWord, body := (l.words[1]?).getD [] }) := by
  have hknown : interpret l.firstWord ≠ .unknown := by
    rw [Ne, interpret_eq_unknown_iff, not_not]
    exact hl
  obtain ⟨-, -, hwords, -⟩ := l.cut
  have htokens : tokens whitespace l.text = l.firstWord :: l.words.tail := hwords
  rw [request, htokens, hwords, List.getElem?_cons_succ, ← List.head?_eq_getElem?]
  exact if_neg hknown

/-- After any number of rejected lines, the record sent holds the last line's command in lower
case and its second word, and the server interprets it as the client has. -/
theorem prompt_request (userInput : Block) (pending rest : List Char) (rejected : List Line)
    (l : Line) (size : userInput.length = maxBufferSize)
    (blank : ∀ c ∈ pending, isSpace c = true)
    (rejects : ∀ r ∈ rejected, toLowercase r.firstWord ∉ commandWords)
    (accepts : toLowercase l.firstWord ∈ commandWords) :
    ∃ sentCommand req, prompt userInput (pending ++ (typed (rejected ++ [l]) ++ rest)) =
        some (sentCommand, req, '\n' :: rest) ∧
      req.command.length = maxLenCommand ∧
      cString req.command = some (toLowercase l.firstWord) ∧
      cString req.body = some ((l.words[1]?).getD []) ∧
      (cString req.command).map interpret = some sentCommand ∧ sentCommand ≠ .unknown := by
  have hfuel : rejected.length < (pending ++ (typed (rejected ++ [l]) ++ rest)).length + 1 := by
    have hlines := length_le_typed (rejected ++ [l])
    simp only [List.length_append, List.length_singleton] at hlines ⊢
    omega
  obtain ⟨e, hretry, entered⟩ := retry_typed rest rejected l rejects accepts hfuel blank size
  obtain ⟨req, hreq, hlength, hcommand, hbody⟩ := fillRequest_entered entered accepts
  obtain ⟨first, hfirst, hretry⟩ := Option.bind_eq_some_iff.mp hretry
  refine ⟨e.command, req, ?_, hlength, hcommand, hbody, ?_, ?_⟩
  · rw [prompt, hfirst, Option.bind_some, hretry, Option.bind_some, hreq, Option.map_some,
      entered.stdin]
  · rw [hcommand, Option.map_some, interpret_toLowercase, entered.command]
  · rw [entered.command, Ne, interpret_eq_unknown_iff, not_not]
    exact accepts

private def mistyped : Line :=
  ⟨"ls -l".toList, ⟨'l', _, rfl, rfl⟩, by simp, by simp [nul], by decide⟩

private def retrieve : Line :=
  ⟨"Retr notes.txt now".toList, ⟨'R', _, rfl, rfl⟩, by simp, by simp [nul], by decide⟩

/-- A RETR goes out after two mistyped lines. -/
theorem prompt_retrieve :
    ∃ sentCommand req, prompt (zeroed maxBufferSize [])
        (['\n'] ++ (typed ([mistyped, mistyped] ++ [retrieve]) ++ [])) =
          some (sentCommand, req, ['\n']) ∧
      req.command.length = maxLenCommand ∧
      cString req.command = some (toLowercase retrieve.firstWord) ∧
      cString req.body = some ((retrieve.words[1]?).getD []) ∧
      (cString req.command).map interpret = some sentCommand ∧ sentCommand ≠ .unknown :=
  prompt_request (zeroed maxBufferSize []) ['\n'] [] [mistyped, mistyped] retrieve
    (length_zeroed (Nat.zero_le _)) (by simp [isSpace]) (by decide) (by decide)

end NetworkProtocol.Ftp
