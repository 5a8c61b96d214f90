import NetworkProtocol.Broker.RoundTrip
import NetworkProtocol.Library.Runs

/-! The publisher's loop over what is typed: a topic, then file names until one can be opened. The
files it opens are never closed, so its table of descriptors fills up. -/
namespace NetworkProtocol.Broker
open CMemory

abbrev maxFilenameLength : Nat := 1024

/-- main between two scanfs: topic is none before the topic is typed. descriptors counts the open
ones, the three standard streams first. -/
structure Publisher where
  descriptors : Nat := 3
  topic : Option TopicWord := none
  fileName : Block := zeroed maxFilenameLength []
  posted : List Block := []
  exited : Bool := false

namespace Publisher
variable (limit : Nat) (files : CString → Option FileContents)

def fopen (descriptors : Nat) (path : CString) : Option FileContents :=
  if descriptors < limit then files path else none

/-- readFromFile leaves the zeros of newMessage where it cannot open the file. -/
def noContents : FileContents := ⟨[], List.not_mem_nil⟩

/-- readFromFile and post, for a file that isValidFileName has opened already; post exits where
there is no descriptor for its socket. -/
def publish (p : Publisher) (topic : TopicWord) (path : CString) : Option Publisher :=
  let contents := fopen limit files (p.descriptors + 1) path
  let descriptors := p.descriptors + if contents.isSome then 2 else 1
  if descriptors < limit then do
    let message ← compose topic (contents.getD noContents)
    return { p with
      descriptors := descriptors
      topic := none
      posted := p.posted ++ [message] }
  else some { p with descriptors := descriptors, exited := true }

/-- One word typed; none where it leaves its buffer. -/
def step (p : Publisher) (word : TopicWord) : Option Publisher :=
  if p.exited then some p
  else
    match p.topic with
    | none => some { p with topic := some word, fileName := zeroed maxFilenameLength [] }
    | some topic => do
      let fileName ← writeString p.fileName 0 word.text
      let path ← cString fileName
      if (fopen limit files p.descriptors path).isSome then
        publish limit files { p with fileName := fileName } topic path
      else return { p with fileName := fileName }

def entries : Option TopicWord → List TopicWord → List (TopicWord × FileContents)
  | _, [] => []
  | none, topic :: words => entries (some topic) words
  | some topic, name :: words =>
    match files name.text with
    | none => entries (some topic) words
    | some file => (topic, file) :: entries none words

/-- How many Messages the descriptors are enough for. -/
def capacity : Nat := (limit - 4) / 2

/-- Two descriptors are gone for each Message posted. -/
structure Running (p : Publisher) : Prop where
  exited : p.exited = false
  descriptors : p.descriptors = 3 + 2 * p.posted.length
  room : p.posted.length ≤ capacity limit
  fileName : p.fileName.length = maxFilenameLength
  topic : ∀ topic, p.topic = some topic → topic.text.length < maxTopicLength

section Step
variable {limit files} {p : Publisher} {topic word : TopicWord} {file : FileContents}

private theorem exists_compose (h : topic.text.length < maxTopicLength) (file : FileContents) :
    ∃ message, compose topic file = some message := by
  have hlength : newMessage.length = maxTopicLength + maxFileLength := by
    rw [newMessage, List.length_append, length_zeroed (Nat.zero_le _),
      length_zeroed (Nat.zero_le _)]
  have htopic : 0 + (topic.text ++ [nul]).length ≤ newMessage.length := by
    rw [hlength, List.length_append, List.length_singleton]
    omega
  obtain ⟨message, hwrite, hmessage⟩ := exists_write htopic
  have hfile : maxTopicLength + (file.bytes.take maxFileLength).length ≤ message.length := by
    rw [hmessage, hlength, List.length_take]
    omega
  obtain ⟨whole, hwhole, -⟩ := exists_write hfile
  exact ⟨whole, by rw [compose, writeString, hwrite]; exact hwhole⟩

/-- scanf into fileName, and the name read back from there. -/
theorem exists_fileName (h : p.fileName.length = maxFilenameLength)
    (hword : word.text.length < maxFilenameLength) :
    ∃ fileName, writeString p.fileName 0 word.text = some fileName ∧
      fileName.length = maxFilenameLength ∧ cString fileName = some word.text := by
  have hfree : nul ∉ word.text := fun hmem => (word.visible nul hmem).1 rfl
  have hfits : 0 + (word.text ++ [nul]).length ≤ p.fileName.length := by
    rw [h, List.length_append, List.length_singleton]
    omega
  obtain ⟨fileName, hwrite, hlength⟩ := exists_write hfits
  exact ⟨fileName, hwrite, hlength.trans h, cString_writeString hfree (Nat.zero_le _) hwrite⟩

/-- A topic typed. -/
theorem Running.typed (files : CString → Option FileContents) (h : Running limit p)
    (htopic : p.topic = none) (hword : word.text.length < maxTopicLength) :
    ∃ p', step limit files p word = some p' ∧ Running limit p' ∧ p'.topic = some word ∧
      p'.posted = p.posted := by
  refine ⟨{ p with topic := some word, fileName := zeroed maxFilenameLength [] }, ?_, ?_, rfl, rfl⟩
  · rw [step, h.exited, htopic]
    rfl
  · refine ⟨h.exited, h.descriptors, h.room, length_zeroed (Nat.zero_le _), ?_⟩
    rintro _ ⟨⟩
    exact hword

/-- A name typed that no file has. -/
theorem Running.refused (h : Running limit p) (htopic : p.topic = some topic)
    (hword : word.text.length < maxFilenameLength) (hfile : files word.text = none) :
    ∃ p', step limit files p word = some p' ∧ Running limit p' ∧ p'.topic = some topic ∧
      p'.posted = p.posted := by
  obtain ⟨fileName, hwrite, hlength, hread⟩ := exists_fileName h.fileName hword
  have hclosed : fopen limit files p.descriptors word.text = none := by simp [fopen, hfile]
  refine ⟨{ p with fileName := fileName }, ?_, ?_, htopic, rfl⟩
  · simp [step, h.exited, htopic, hwrite, hread, hclosed]
  · exact ⟨h.exited, h.descriptors, h.room, hlength, h.topic⟩

private theorem Running.accepted (h : Running limit p) (hlimit : 4 ≤ limit)
    (htopic : p.topic = some topic) (hword : word.text.length < maxFilenameLength)
    (hfile : files word.text = some file) :
    ∃ fileName, fileName.length = maxFilenameLength ∧ step limit files p word =
      publish limit files { p with fileName := fileName } topic word.text := by
  obtain ⟨fileName, hwrite, hlength, hread⟩ := exists_fileName h.fileName hword
  have hlt : p.descriptors < limit := by
    have hroom := h.room
    have hdescriptors := h.descriptors
    rw [capacity] at hroom
    omega
  have hopen : fopen limit files p.descriptors word.text = some file := by
    rw [fopen, if_pos hlt, hfile]
  exact ⟨fileName, hlength, by simp [step, h.exited, htopic, hwrite, hread, hopen]⟩

/-- While there is room for one more, the Message has the whole file and is posted. -/
theorem Running.posts (h : Running limit p) (hlimit : 4 ≤ limit) (htopic : p.topic = some topic)
    (hword : word.text.length < maxFilenameLength) (hfile : files word.text = some file)
    (hroom : p.posted.length < capacity limit) :
    ∃ p' message, step limit files p word = some p' ∧ Running limit p' ∧ p'.topic = none ∧
      compose topic file = some message ∧ p'.posted = p.posted ++ [message] := by
  obtain ⟨fileName, hlength, hstep⟩ := h.accepted hlimit htopic hword hfile
  obtain ⟨message, hmessage⟩ := exists_compose (h.topic topic htopic) file
  have hdescriptors := h.descriptors
  have hcapacity : 2 * p.posted.length + 6 ≤ limit := by
    rw [capacity] at hroom
    omega
  have hlow : p.descriptors + 1 < limit := by omega
  have hsocket : p.descriptors + 2 < limit := by omega
  have hopen : fopen limit files (p.descriptors + 1) word.text = some file := by
    rw [fopen, if_pos hlow, hfile]
  refine ⟨{ p with
    descriptors := p.descriptors + 2
    topic := none
    fileName := fileName
    posted := p.posted ++ [message] }, message, ?_, ?_, rfl, hmessage, rfl⟩
  · rw [hstep, publish]
    simp [hopen, hsocket, hmessage]
  · refine ⟨h.exited, ?_, ?_, hlength, by simp⟩
    · simp only [List.length_append, List.length_singleton]
      omega
    · simpa using Nat.succ_le_of_lt hroom

/-- At the last but one or two descriptors post finds none for its socket. -/
theorem Running.exhausted (h : Running limit p) (hlimit : 4 ≤ limit) (htopic : p.topic = some topic)
    (hword : word.text.length < maxFilenameLength) (hfile : files word.text = some file)
    (hroom : p.posted.length = capacity limit) :
    ∃ p', step limit files p word = some p' ∧ p'.exited = true ∧ p'.posted = p.posted := by
  obtain ⟨fileName, -, hstep⟩ := h.accepted hlimit htopic hword hfile
  have hdescriptors := h.descriptors
  have hcapacity : limit ≤ 2 * p.posted.length + 5 := by
    rw [capacity] at hroom
    omega
  have hsocket : ¬ p.descriptors +
      (if (fopen limit files (p.descriptors + 1) word.text).isSome then 2 else 1) < limit := by
    by_cases hlow : p.descriptors + 1 < limit
    · have hopen : fopen limit files (p.descriptors + 1) word.text = some file := by
        rw [fopen, if_pos hlow, hfile]
      rw [hopen, Option.isSome_some, if_pos rfl]
      omega
    · have hclosed : fopen limit files (p.descriptors + 1) word.text = none := if_neg hlow
      rw [hclosed, Option.isSome_none]
      simpa using hlow
  exact ⟨_, hstep.trans (if_neg hsocket), rfl, rfl⟩

end Step

section Run
variable {limit : Nat} {files : CString → Option FileContents} {p : Publisher}

private theorem run_exited (h : p.exited = true) (words : List TopicWord) :
    Runs.run (step limit files) p words = some p := by
  induction words with
  | nil => rfl
  | cons word words ih =>
    rw [Runs.run_cons, step, if_pos h]
    exact ih

/-- What is posted from here on, word by word: the entries typed, as long as there is room. -/
theorem Running.run (files : CString → Option FileContents) (hlimit : 4 ≤ limit)
    (h : Running limit p) (words : List TopicWord)
    (hwords : ∀ word ∈ words, word.text.length < maxFilenameLength) :
    ∃ p' new, Runs.run (step limit files) p words = some p' ∧ p'.posted = p.posted ++ new ∧
      new.map some = ((entries files p.topic words).take (capacity limit - p.posted.length)).map
        (fun e => compose e.1 e.2) ∧
      (p'.exited = true ↔
        capacity limit < p.posted.length + (entries files p.topic words).length) := by
  induction words generalizing p with
  | nil =>
    have hroom := h.room
    refine ⟨p, [], rfl, (List.append_nil _).symm, by simp [entries], ?_⟩
    simp [entries, h.exited, hroom]
  | cons word words ih =>
    obtain ⟨hword, hwords⟩ := List.forall_mem_cons.mp hwords
    cases htopic : p.topic with
    | none =>
      obtain ⟨q, hstep, hq, hqtopic, hqposted⟩ := h.typed files htopic hword
      obtain ⟨p', new, hrun, hposted, hnew, hexited⟩ := ih hq hwords
      rw [hqtopic, hqposted] at hnew hexited
      rw [hqposted] at hposted
      exact ⟨p', new, by rw [Runs.run_cons, hstep]; exact hrun, hposted, hnew, hexited⟩
    | some topic =>
      cases hfile : files word.text with
      | none =>
        obtain ⟨q, hstep, hq, hqtopic, hqposted⟩ := h.refused htopic hword hfile
        obtain ⟨p', new, hrun, hposted, hnew, hexited⟩ := ih hq hwords
        rw [hqtopic, hqposted] at hnew hexited
        rw [hqposted] at hposted
        have hentries : entries files (some topic) (word :: words) =
            entries files (some topic) words := by rw [entries, hfile]
        rw [hentries]
        exact ⟨p', new, by rw [Runs.run_cons, hstep]; exact hrun, hposted, hnew, hexited⟩
      | some file =>
        have hentries : entries files (some topic) (word :: words) =
            (topic, file) :: entries files none words := by rw [entries, hfile]
        rw [hentries]
        rcases h.room.lt_or_eq with hroom | hroom
        · obtain ⟨q, message, hstep, hq, hqtopic, hmessage, hqposted⟩ :=
            h.posts hlimit htopic hword hfile hroom
          obtain ⟨p', new, hrun, hposted, hnew, hexited⟩ := ih hq hwords
          rw [hqtopic, hqposted, List.length_append, List.length_singleton] at hnew hexited
          have hleft : capacity limit - p.posted.length =
              (capacity limit - (p.posted.length + 1)) + 1 := by omega
          refine ⟨p', message :: new, by rw [Runs.run_cons, hstep]; exact hrun, ?_, ?_, ?_⟩
          · rw [hposted, hqposted, List.append_assoc, List.singleton_append]
          · rw [hleft, List.take_succ_cons, List.map_cons, List.map_cons, hnew, hmessage]
          · rw [hexited, List.length_cons]
            omega
        · obtain ⟨q, hstep, hqexited, hqposted⟩ := h.exhausted hlimit htopic hword hfile hroom
          refine ⟨q, [], by rw [Runs.run_cons, hstep]; exact run_exited hqexited words, ?_, ?_, ?_⟩
          · rw [hqposted, List.append_nil]
          · simp [hroom]
          · simp [hqexited, hroom]

end Run

/-- Whatever is typed in words that fit, if each connection is accepted: the publisher posts the
Messages of the entries typed, in order and each with what fread takes of its file, until
(limit - 4) / 2 of them are posted, and exits at the next. -/
theorem posted_until_exhausted (limit : Nat) (files : CString → Option FileContents)
    (words : List TopicWord) (hlimit : 4 ≤ limit)
    (hwords : ∀ word ∈ words, word.text.length < maxFilenameLength) :
    ∃ p, Runs.run (step limit files) {} words = some p ∧
      p.posted.map some =
        ((entries files none words).take (capacity limit)).map (fun e => compose e.1 e.2) ∧
      (p.exited = true ↔ capacity limit < (entries files none words).length) := by
  have hstart : Running limit {} :=
    ⟨rfl, rfl, Nat.zero_le _, length_zeroed (Nat.zero_le _), by simp⟩
  obtain ⟨p, new, hrun, hposted, hnew, hexited⟩ := hstart.run files hlimit words hwords
  rw [List.nil_append] at hposted
  subst hposted
  simp only [List.length_nil, Nat.sub_zero, Nat.zero_add] at hnew hexited
  exact ⟨p, hrun, hnew, hexited⟩

private def letter (c : Char) (h : c ≠ nul ∧ CString.isSpace c = false) : TopicWord :=
  ⟨[c], by simp, by simpa using h⟩

private theorem visible_t : 't' ≠ nul ∧ CString.isSpace 't' = false := by
  simp [nul, CString.isSpace]

private theorem visible_a : 'a' ≠ nul ∧ CString.isSpace 'a' = false := by
  simp [nul, CString.isSpace]

private theorem free_x : nul ∉ ['x'] := by simp [nul]

private def wordT : TopicWord := letter 't' visible_t

private def wordA : TopicWord := letter 'a' visible_a

private def fileX : FileContents := ⟨['x'], free_x⟩

private def onlyA (path : CString) : Option FileContents :=
  if path = ['a'] then some fileX else none

/-- With six descriptors the second publication is the last thing the publisher takes. -/
theorem second_post_exits : ∃ p,
    Runs.run (step 6 onlyA) {} [wordT, wordT, wordA, wordT, wordA] = some p ∧
      p.posted.map some = [compose wordT fileX] ∧ p.exited = true := by
  obtain ⟨p, hrun, hposted, hexited⟩ := posted_until_exhausted 6 onlyA
    [wordT, wordT, wordA, wordT, wordA] (by decide)
    (by simp [wordT, wordA, letter, maxFilenameLength])
  exact ⟨p, hrun, hposted, hexited.mpr (by decide)⟩

end Publisher
end NetworkProtocol.Broker
