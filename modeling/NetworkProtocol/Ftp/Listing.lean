import NetworkProtocol.Library.Strtok
import NetworkProtocol.Ftp.Server

/-! NLST's payload: the directory entries the server's data thread sends as one text, and the
names the client's data thread prints of it. -/
namespace NetworkProtocol.Ftp
open CString CMemory

def maxDirentLength : Nat := 1024

def appendEntry (entries : Block) (name : CString) : Option Block :=
  (writeString (zeroed maxDirentLength ['|']) 1 name).bind (fun entryName =>
    (cString entryName).bind (strcat entries))

/-- Over the names readdir returns; none when a buffer is overrun. -/
def getDirectoryEntries (names : List CString) : Option Block :=
  names.foldlM appendEntry (zeroed maxBufferSize [])

/-- The body of newMessage: strcpy into a record of zeros. -/
def newBody (text : Block) : Option Block :=
  (cString text).bind (writeString (zeroed maxBufferSize []) 0)

def separators : List Char := '|' :: whitespace

/-- What the client prints of a body: strcpy to serverData, which callback has set to zero, and
the strtok loop over it. -/
def printedEntries (body : Block) : Option (List CString) :=
  (cString body).bind (fun text =>
    (writeString (zeroed maxBufferSize []) 0 text).bind (fun serverData =>
      strtokLoop separators maxBufferSize serverData 0))

def listed (names : List CString) : Option (List CString) :=
  (getDirectoryEntries names).bind (fun entries => (newBody entries).bind printedEntries)

def encode (names : List CString) : CString := names.flatMap ('|' :: ·)

/-- The names of a directory that fit in one message. -/
structure Listing where
  names : List CString
  named : ∀ name ∈ names, name ≠ []
  terminated : ∀ name ∈ names, nul ∉ name
  fits : (encode names).length ≤ maxBufferSize - 1

private theorem nul_not_mem_encode {names : List CString} (h : ∀ name ∈ names, nul ∉ name) :
    nul ∉ encode names := by
  intro hmem
  obtain ⟨name, hname, hc⟩ := List.mem_flatMap.mp hmem
  rcases List.mem_cons.mp hc with hbar | hc
  · exact absurd hbar (by decide)
  · exact h name hname hc

/-- One more name behind those that are there. -/
theorem appendEntry_zeroed {text name : CString} (htext : nul ∉ text) (hname : nul ∉ name)
    (hfits : (text ++ '|' :: name).length < maxBufferSize) :
    appendEntry (zeroed maxBufferSize text) name =
      some (zeroed maxBufferSize (text ++ '|' :: name)) := by
  have hlength : ('|' :: name).length < maxDirentLength := by
    rw [List.length_append] at hfits
    exact Nat.lt_of_le_of_lt (Nat.le_add_left _ _) hfits
  have hentry : writeString (zeroed maxDirentLength ['|']) 1 name =
      some (zeroed maxDirentLength ('|' :: name)) :=
    writeString_append hlength
  have hnul : nul ∉ '|' :: name := by simpa [nul] using hname
  rw [appendEntry, hentry, Option.bind_some, cString_zeroed_alone hnul hlength, Option.bind_some,
    strcat_zeroed htext hfits]

/-- One more name than there is room for. -/
theorem appendEntry_overrun {text name : CString} (htext : nul ∉ text) (hname : nul ∉ name)
    (hlength : text.length < maxBufferSize)
    (hlong : maxBufferSize ≤ (text ++ '|' :: name).length) :
    appendEntry (zeroed maxBufferSize text) name = none := by
  by_cases hentry : ('|' :: name).length < maxDirentLength
  · have hwritten : writeString (zeroed maxDirentLength ['|']) 1 name =
        some (zeroed maxDirentLength ('|' :: name)) := writeString_append hentry
    have hnul : nul ∉ '|' :: name := by simpa [nul] using hname
    rw [appendEntry, hwritten, Option.bind_some, cString_zeroed_alone hnul hentry, Option.bind_some,
      strcat_overrun htext hlength hlong]
  · have hsize : (zeroed maxDirentLength ['|']).length = maxDirentLength :=
      length_zeroed (by decide)
    rw [appendEntry, writeString_overrun, Option.bind_none]
    rw [hsize]
    rw [List.length_cons] at hentry
    omega

private theorem foldlM_appendEntry {names : List CString} {text : CString} (htext : nul ∉ text)
    (hnames : ∀ name ∈ names, nul ∉ name) (hfits : (text ++ encode names).length < maxBufferSize) :
    names.foldlM appendEntry (zeroed maxBufferSize text) =
      some (zeroed maxBufferSize (text ++ encode names)) := by
  induction names generalizing text with
  | nil => simp [encode]
  | cons name names ih =>
    have hsplit : text ++ encode (name :: names) = text ++ '|' :: name ++ encode names := by
      simp [encode]
    rw [hsplit] at hfits ⊢
    have hname := hnames name List.mem_cons_self
    have happend : nul ∉ text ++ '|' :: name := by
      simpa [nul] using And.intro htext hname
    have hone : (text ++ '|' :: name).length < maxBufferSize := by
      rw [List.length_append] at hfits
      exact Nat.lt_of_le_of_lt (Nat.le_add_right _ _) hfits
    rw [List.foldlM_cons, appendEntry_zeroed htext hname hone]
    exact ih happend (fun other h => hnames other (List.mem_cons_of_mem _ h)) hfits

private theorem foldlM_appendEntry_isSome {names : List CString} {text : CString}
    (htext : nul ∉ text) (hlength : text.length < maxBufferSize)
    (hnames : ∀ name ∈ names, nul ∉ name) :
    (names.foldlM appendEntry (zeroed maxBufferSize text)).isSome ↔
      (text ++ encode names).length < maxBufferSize := by
  induction names generalizing text with
  | nil => simpa [encode] using hlength
  | cons name names ih =>
    have hname := hnames name List.mem_cons_self
    have hsplit : text ++ encode (name :: names) = text ++ '|' :: name ++ encode names := by
      simp [encode]
    rw [List.foldlM_cons, hsplit]
    by_cases hone : (text ++ '|' :: name).length < maxBufferSize
    · have happend : nul ∉ text ++ '|' :: name := by
        simpa [nul] using And.intro htext hname
      rw [appendEntry_zeroed htext hname hone]
      exact ih happend hone (fun other h => hnames other (List.mem_cons_of_mem _ h))
    · rw [appendEntry_overrun htext hname hlength (Nat.le_of_not_lt hone), List.length_append]
      exact iff_of_false nofun (by omega)

/-- The loop stays inside its buffers exactly when the whole text fits in the last one. -/
theorem getDirectoryEntries_isSome_iff {names : List CString} (h : ∀ name ∈ names, nul ∉ name) :
    (getDirectoryEntries names).isSome ↔ (encode names).length < maxBufferSize :=
  foldlM_appendEntry_isSome List.not_mem_nil (by decide) h

/-- The codec of the whole path: the text of the names, cut into tokens. -/
theorem listed_eq (l : Listing) : listed l.names = some (tokens separators (encode l.names)) := by
  have hnul := nul_not_mem_encode l.terminated
  have hfits : (encode l.names).length < maxBufferSize :=
    Nat.lt_of_le_of_lt l.fits (by decide)
  have hread := cString_zeroed_alone hnul hfits
  have hentries : getDirectoryEntries l.names = some (zeroed maxBufferSize (encode l.names)) :=
    foldlM_appendEntry List.not_mem_nil l.terminated hfits
  have hloop : strtokLoop separators maxBufferSize
      ([] ++ (encode l.names ++ nul ::
        List.replicate (maxBufferSize - (encode l.names ++ [nul]).length) nul)) 0 =
      some (tokens separators (encode l.names)) := strtokLoop_eq_tokens [] _ hnul hfits
  have hblock : zeroed maxBufferSize (encode l.names) = encode l.names ++ nul ::
      List.replicate (maxBufferSize - (encode l.names ++ [nul]).length) nul := by
    rw [← zeroed_append_nul hfits, zeroed, List.append_assoc, List.singleton_append]
  rw [listed, hentries, Option.bind_some, newBody, hread, Option.bind_some,
    writeString_zeroed hfits, Option.bind_some, printedEntries, hread, Option.bind_some,
    writeString_zeroed hfits, Option.bind_some, hblock]
  exact hloop

/-- Names free of separators come out one by one. -/
theorem tokens_encode {names : List CString} (hnamed : ∀ name ∈ names, name ≠ [])
    (hfree : ∀ name ∈ names, ∀ c ∈ name, c ∉ separators) :
    tokens separators (encode names) = names := by
  have hbar : '|' ∈ separators := List.mem_cons_self
  induction names with
  | nil => exact tokens_nil
  | cons name names ih =>
    have htail := ih (fun other h => hnamed other (List.mem_cons_of_mem _ h))
      (fun other h => hfree other (List.mem_cons_of_mem _ h))
    have hne := hnamed name List.mem_cons_self
    have hname := hfree name List.mem_cons_self
    have hencode : encode (name :: names) = '|' :: (name ++ encode names) := by simp [encode]
    rw [hencode, tokens_delimiter hbar]
    cases names with
    | nil =>
      rw [encode, List.flatMap_nil, List.append_nil]
      exact tokens_word hne hname
    | cons next names =>
      have hnext : encode (next :: names) = '|' :: (next ++ encode names) := by simp [encode]
      rw [hnext, tokens_delimiter hbar] at htail
      rw [hnext, tokens_cons hne hname hbar, htail]

private theorem filter_encode (names : List CString) :
    (encode names).filter (· ∉ separators) = names.flatten.filter (· ∉ separators) := by
  induction names with
  | nil => rfl
  | cons name names ih =>
    have hencode : encode (name :: names) = '|' :: (name ++ encode names) := by simp [encode]
    rw [hencode, List.filter_cons_of_neg (by simp [separators]), List.filter_append, ih,
      List.flatten_cons, List.filter_append]

/-- The client prints the names themselves exactly when no name contains a separator; whatever
the names, what it prints is their text without the separators. -/
theorem listing_printed (l : Listing) :
    ∃ printed, listed l.names = some printed ∧
      (printed = l.names ↔ ∀ name ∈ l.names, ∀ c ∈ name, c ∉ separators) ∧
      printed.flatten = l.names.flatten.filter (· ∉ separators) := by
  refine ⟨tokens separators (encode l.names), listed_eq l, ⟨?_, ?_⟩, ?_⟩
  · intro hsame name hname c hc
    rw [← hsame] at hname
    exact not_mem_of_mem_tokens hname hc
  · exact tokens_encode l.named
  · rw [flatten_tokens, filter_encode]

private def spacedNames : List CString := [".".toList, "..".toList, "my file".toList]

private theorem spacedNames_named : ∀ name ∈ spacedNames, name ≠ [] := by decide

private theorem spacedNames_terminated : ∀ name ∈ spacedNames, nul ∉ name := by decide

private theorem spacedNames_fit : (encode spacedNames).length ≤ maxBufferSize - 1 := by decide

private def spacedListing : Listing :=
  ⟨spacedNames, spacedNames_named, spacedNames_terminated, spacedNames_fit⟩

/-- A file name with a blank in it is not printed as it is. -/
theorem spacedListing_printed : ∃ printed, listed spacedNames = some printed ∧
    printed ≠ spacedNames ∧ printed.flatten = spacedNames.flatten.filter (· ∉ separators) := by
  obtain ⟨printed, hlisted, hsame, hflatten⟩ := listing_printed spacedListing
  refine ⟨printed, hlisted, fun h => ?_, hflatten⟩
  have hfile : "my file".toList ∈ spacedNames := by simp [spacedNames]
  exact hsame.mp h _ hfile ' ' (by decide) (by decide)

end NetworkProtocol.Ftp
