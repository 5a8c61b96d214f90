import NetworkProtocol.Ftp.Listing

/-! RETR's payload: the file the server's data thread reads into a block of the heap, and the
bytes the client's data thread writes to its copy of it. -/
namespace NetworkProtocol.Ftp
open CMemory

def maxRelativePathLength : Nat := 2021

/-- A file that fits in a message with its NUL, and holds none. -/
structure TextFile where
  bytes : List Char
  free : nul ∉ bytes
  fits : bytes.length ≤ maxBufferSize - 1

/-- A block as malloc hands it out, with whatever it held before. -/
structure HeapBlock where
  contents : Block
  size : contents.length = maxBufferSize

/-- strcpy and strcat into a block that has been set to zero; none when it is overrun. -/
def filePath (relativePath fileName : CString) : Option Block :=
  (writeString (zeroed maxRelativePathLength []) 0 relativePath).bind (strcat · fileName)

/-- fread: nothing is written behind the bytes of the file. -/
def fread (serverData : HeapBlock) (file : List Char) : Option Block :=
  write serverData.contents 0 (file.take maxBufferSize)

/-- none too where fopen fails, for newMessage then copies from NULL. -/
def getStreamFromFile (fopen : CString → Option (List Char)) (serverData : HeapBlock)
    (s : Server) : Option Block := do
  let fileName ← s.fileName
  let filePath ← filePath s.relativePath fileName
  let file ← fopen (← cString filePath)
  fread serverData file

/-- The client's part: strcpy to serverData, which callback has set to zero, and fwrite of
strlen bytes of it. -/
def savedCopy (body : Block) : Option (List Char) :=
  (cString body).bind (fun text =>
    (writeString (zeroed maxBufferSize []) 0 text).bind cString)

def transferred (file : List Char) (serverData : HeapBlock) : Option (List Char) :=
  (fread serverData file).bind (fun stream => (newBody stream).bind savedCopy)

/-- The path that the block of getStreamFromFile holds. -/
theorem cString_filePath {relativePath fileName : CString} (hpath : nul ∉ relativePath)
    (hname : nul ∉ fileName)
    (hfits : (relativePath ++ fileName).length < maxRelativePathLength) :
    (filePath relativePath fileName).bind cString = some (relativePath ++ fileName) := by
  have hlength : relativePath.length < maxRelativePathLength := by
    rw [List.length_append] at hfits
    exact Nat.lt_of_le_of_lt (Nat.le_add_right _ _) hfits
  have hnul : nul ∉ relativePath ++ fileName := by
    rw [List.mem_append, not_or]
    exact ⟨hpath, hname⟩
  rw [filePath, writeString_zeroed hlength, Option.bind_some, strcat_zeroed hpath hfits,
    Option.bind_some, cString_zeroed_alone hnul hfits]

/-- The path can be put together just when it fits. -/
theorem filePath_isSome_iff {relativePath fileName : CString} (hpath : nul ∉ relativePath) :
    (filePath relativePath fileName).isSome ↔
      (relativePath ++ fileName).length < maxRelativePathLength := by
  by_cases hlength : relativePath.length < maxRelativePathLength
  · rw [filePath, writeString_zeroed hlength, Option.bind_some]
    by_cases hfits : (relativePath ++ fileName).length < maxRelativePathLength
    · rw [strcat_zeroed hpath hfits]
      exact iff_of_true rfl hfits
    · rw [strcat_overrun hpath hlength (Nat.le_of_not_lt hfits)]
      exact iff_of_false nofun hfits
  · have hsize : (zeroed maxRelativePathLength []).length = maxRelativePathLength :=
      length_zeroed (Nat.zero_le _)
    rw [filePath, writeString_overrun (by rw [hsize]; omega), List.length_append]
    exact iff_of_false nofun (by omega)

def delivered (fopen : CString → Option (List Char)) (serverData : HeapBlock) (s : Server) :
    Option (List Char) :=
  (getStreamFromFile fopen serverData s).bind (fun stream => (newBody stream).bind savedCopy)

/-- What is delivered is the file that the path names. -/
theorem delivered_eq {fopen : CString → Option (List Char)} {s : Server}
    {fileName path : CString} {file : List Char} (hname : s.fileName = some fileName)
    (hpath : (filePath s.relativePath fileName).bind cString = some path)
    (hopen : fopen path = some file) (serverData : HeapBlock) :
    delivered fopen serverData s = transferred file serverData := by
  obtain ⟨block, hblock, hread⟩ := Option.bind_eq_some_iff.mp hpath
  rw [delivered, getStreamFromFile, hname]
  simp only [Option.bind_eq_bind, Option.bind_some, hblock, hread, hopen]
  rfl

/-- Any string that a message has room for is saved as it was read. -/
theorem savedCopy_newBody {stream : Block} (hsize : stream.length = maxBufferSize) :
    (newBody stream).bind savedCopy = cString stream := by
  cases hread : cString stream with
  | none => rw [newBody, hread, Option.bind_none, Option.bind_none]
  | some text =>
    obtain ⟨hnul, hlength⟩ := cString_spec hread
    rw [hsize] at hlength
    have hbody := cString_zeroed_alone hnul hlength
    rw [newBody, hread, Option.bind_some, writeString_zeroed hlength, Option.bind_some, savedCopy,
      hbody, Option.bind_some, writeString_zeroed hlength, Option.bind_some, hbody]

/-- The copy is the string that starts with the file and goes on with the heap. -/
theorem transferred_eq (file : TextFile) (serverData : HeapBlock) :
    transferred file.bytes serverData = cString (overlay serverData.contents file.bytes) := by
  have hfits : file.bytes.length ≤ maxBufferSize := file.fits.trans (Nat.sub_le _ _)
  have hroom : file.bytes.length ≤ serverData.contents.length := by rwa [serverData.size]
  have hsize : (overlay serverData.contents file.bytes).length = maxBufferSize :=
    (length_overlay hroom).trans serverData.size
  rw [transferred, fread, List.take_of_length_le hfits, write_start hroom, Option.bind_some,
    savedCopy_newBody hsize]

/-- The copy is the file exactly when malloc's block happens to hold a NUL where it ends. -/
theorem transferred_iff (file : TextFile) (serverData : HeapBlock) :
    transferred file.bytes serverData = some file.bytes ↔
      serverData.contents[file.bytes.length]? = some nul := by
  rw [transferred_eq]
  exact cString_overlay_iff file.free

/-- A block set to zero, as getDirectoryEntries has it, delivers every such file. -/
theorem transferred_zeroed (file : TextFile) :
    transferred file.bytes ⟨zeroed maxBufferSize [], length_zeroed (Nat.zero_le _)⟩ =
      some file.bytes := by
  have hlength : file.bytes.length < maxBufferSize := Nat.lt_of_le_of_lt file.fits (by decide)
  rw [transferred_eq]
  apply (cString_overlay_iff file.free).mpr
  change (List.replicate maxBufferSize nul)[file.bytes.length]? = some nul
  rw [List.getElem?_replicate, if_pos hlength]

/-- A one-letter file read into a block with an x in it comes over with that x. -/
theorem file_with_leftovers : ¬ ∀ (file : TextFile) (serverData : HeapBlock),
    transferred file.bytes serverData = some file.bytes := by
  intro h
  let file : TextFile := ⟨['a'], by decide, by decide⟩
  let serverData : HeapBlock := ⟨zeroed maxBufferSize ['x', 'x'], length_zeroed (by decide)⟩
  have hcopy := h file serverData
  rw [transferred_eq, cString_overlay_iff file.free] at hcopy
  exact absurd hcopy (by decide)

end NetworkProtocol.Ftp
