import NetworkProtocol.Library.CString

/-! C strings in a block of memory: where a read of one ends, what a write changes, and what is
left of one when only the first bytes of a block have been filled in. -/
namespace CMemory

abbrev Block := List Char

def nul : Char := '\x00'

/-- The C string at the start of a block; none when no NUL ends it inside. -/
def cString : Block → Option CString
  | [] => none
  | c :: rest => if c = nul then some [] else (cString rest).map (c :: ·)

def zeroed (size : Nat) (bytes : List Char) : Block :=
  bytes ++ List.replicate (size - bytes.length) nul

/-- Bytes written from an offset on; none when they do not fit in the block. -/
def write (block : Block) (offset : Nat) (bytes : List Char) : Option Block :=
  if offset + bytes.length ≤ block.length then
    some (block.take offset ++ bytes ++ block.drop (offset + bytes.length))
  else none

/-- What a block holds after bytes have been written to its start. -/
def overlay (block : Block) (bytes : List Char) : Block := bytes ++ block.drop bytes.length

/-- strcpy, and scanf's %s: the string and its NUL. -/
def writeString (block : Block) (offset : Nat) (s : CString) : Option Block :=
  write block offset (s ++ [nul])

/-- strcat: written over the NUL of the string that is there. -/
def strcat (block : Block) (s : CString) : Option Block :=
  (cString block).bind (fun old => writeString block old.length s)

def byte (n : Int) : Char := Char.ofNat (n % 256).toNat

/-- The four bytes of an int. -/
def intBytes (n : Int) : Block := [byte n, byte (n / 256), byte (n / 65536), byte (n / 16777216)]

/-- Little-endian, in two's complement. -/
def readInt (block : Block) : Int :=
  let n : Nat := (block.take 4).foldr (fun c n => c.toNat + 256 * n) 0
  if n < 2147483648 then n else n - 4294967296

/-- The string is read back from the bytes strcpy writes for it. -/
theorem cString_append {s : CString} (hs : nul ∉ s) (rest : Block) :
    cString (s ++ nul :: rest) = some s := by
  induction s with
  | nil => exact if_pos rfl
  | cons c s ih =>
    rw [List.mem_cons, not_or] at hs
    rw [List.cons_append, cString, if_neg (Ne.symm hs.1), ih hs.2, Option.map_some]

/-- A string that ends inside a block is shorter than the block. -/
theorem cString_spec {block : Block} {s : CString} (h : cString block = some s) :
    nul ∉ s ∧ s.length < block.length := by
  induction block generalizing s with
  | nil => cases h
  | cons c block ih =>
    rw [cString] at h
    split at h
    · obtain rfl := Option.some.inj h
      exact ⟨List.not_mem_nil, Nat.zero_lt_succ _⟩
    · rename_i hc
      obtain ⟨t, ht, rfl⟩ := Option.map_eq_some_iff.mp h
      obtain ⟨hnul, hlength⟩ := ih ht
      refine ⟨?_, Nat.succ_lt_succ hlength⟩
      rw [List.mem_cons, not_or]
      exact ⟨Ne.symm hc, hnul⟩

/-- What lies behind a block does not change the string at its start. -/
theorem cString_extend {block : Block} {s : CString} (h : cString block = some s) (rest : Block) :
    cString (block ++ rest) = some s := by
  induction block generalizing s with
  | nil => cases h
  | cons c block ih =>
    rw [cString] at h
    rw [List.cons_append, cString]
    split at h
    · rename_i hc
      rw [if_pos hc]
      exact h
    · rename_i hc
      obtain ⟨t, ht, rfl⟩ := Option.map_eq_some_iff.mp h
      rw [if_neg hc, ih ht, Option.map_some]

/-- A block without a NUL holds no string. -/
theorem cString_eq_none_iff {block : Block} : cString block = none ↔ nul ∉ block := by
  induction block with
  | nil => simp [cString]
  | cons c block ih =>
    rw [cString, List.mem_cons, not_or]
    split
    · rename_i hc
      simp [hc]
    · rename_i hc
      rw [Option.map_eq_none_iff, ih]
      exact ⟨fun h => ⟨Ne.symm hc, h⟩, fun h => h.2⟩

section Overlay
variable {block b : Block} {s bytes : List Char} {offset : Nat}

/-- A write inside the block keeps its length. -/
theorem exists_write (h : offset + bytes.length ≤ block.length) :
    ∃ b, write block offset bytes = some b ∧ b.length = block.length := by
  refine ⟨_, if_pos h, ?_⟩
  simp only [List.length_append, List.length_take, List.length_drop]
  omega

/-- strcpy keeps the length of its block. -/
theorem length_writeString (h : writeString block offset s = some b) :
    b.length = block.length := by
  obtain ⟨hfits, h⟩ := Option.ite_none_right_eq_some.mp h
  obtain rfl := Option.some.inj h
  simp only [List.length_append, List.length_take, List.length_drop] at hfits ⊢
  omega

/-- A write at the start lies over the block. -/
theorem write_start (h : bytes.length ≤ block.length) :
    write block 0 bytes = some (overlay block bytes) := by
  rw [write, Nat.zero_add, if_pos h, List.take_zero, List.nil_append, overlay]

/-- What lies inside a block keeps its length. -/
theorem length_overlay (h : bytes.length ≤ block.length) :
    (overlay block bytes).length = block.length := by
  rw [overlay, List.length_append, List.length_drop]
  omega

/-- A read goes through bytes that are not NUL to what is behind them. -/
theorem cString_append_left (hs : nul ∉ s) (rest : Block) :
    cString (s ++ rest) = (cString rest).map (s ++ ·) := by
  induction s with
  | nil => simp
  | cons c s ih =>
    rw [List.mem_cons, not_or] at hs
    rw [List.cons_append, cString, if_neg (Ne.symm hs.1), ih hs.2, Option.map_map]
    rfl

/-- The string is empty just when the block starts with a NUL. -/
theorem cString_eq_nil_iff : cString block = some [] ↔ block[0]? = some nul := by
  cases block with
  | nil => simp [cString]
  | cons c block =>
    rw [cString]
    split
    · rename_i hc
      simp [hc]
    · rename_i hc
      simp [hc]

/-- Bytes written without a NUL are read back where the block has one right behind them. -/
theorem cString_overlay_iff (hs : nul ∉ s) :
    cString (overlay block s) = some s ↔ block[s.length]? = some nul := by
  have hnil : (cString (block.drop s.length)).map (s ++ ·) = some s ↔
      cString (block.drop s.length) = some [] := by
    cases cString (block.drop s.length) <;> simp
  rw [overlay, cString_append_left hs, hnil, cString_eq_nil_iff, List.getElem?_drop, Nat.add_zero]

/-- strcpy and a read at the same place. -/
theorem cString_writeString (hs : nul ∉ s) (hoffset : offset ≤ block.length)
    (h : writeString block offset s = some b) : cString (b.drop offset) = some s := by
  obtain ⟨-, h⟩ := Option.ite_none_right_eq_some.mp h
  obtain rfl := Option.some.inj h
  rw [List.append_assoc, List.drop_left' (List.length_take_of_le hoffset), List.append_assoc,
    List.singleton_append]
  exact cString_append hs _

end Overlay

section Zeroed
variable {size : Nat} {s bytes : List Char}

/-- Padding with zeros comes up to the size. -/
theorem length_zeroed (h : bytes.length ≤ size) : (zeroed size bytes).length = size := by
  rw [zeroed, List.length_append, List.length_replicate]
  omega

/-- Where there is room for a NUL, one is there already. -/
theorem zeroed_append_nul (h : s.length < size) : zeroed size (s ++ [nul]) = zeroed size s := by
  have hroom : size - s.length = (size - (s ++ [nul]).length) + 1 := by
    rw [List.length_append, List.length_singleton]
    omega
  rw [zeroed, zeroed, hroom, List.replicate_succ, List.append_assoc, List.singleton_append]

/-- A padded string is read back, whatever follows. -/
theorem cString_zeroed (hs : nul ∉ s) (h : s.length < size) (rest : Block) :
    cString (zeroed size s ++ rest) = some s := by
  rw [← zeroed_append_nul h, zeroed, List.append_assoc, List.append_assoc]
  exact cString_append hs _

/-- So it is from its own block. -/
theorem cString_zeroed_alone (hs : nul ∉ s) (h : s.length < size) :
    cString (zeroed size s) = some s := by
  have hread := cString_zeroed hs h []
  rwa [List.append_nil] at hread

/-- A write to the start of a block of zeros with another block behind it. -/
theorem write_zeroed (h : bytes.length ≤ size) (rest : Block) :
    write (zeroed size [] ++ rest) 0 bytes = some (zeroed size bytes ++ rest) := by
  have hfits : 0 + bytes.length ≤ (zeroed size [] ++ rest).length := by
    rw [List.length_append, length_zeroed (Nat.zero_le size)]
    omega
  have hrest : (zeroed size [] ++ rest).drop (0 + bytes.length) =
      List.replicate (size - bytes.length) nul ++ rest := by
    rw [Nat.zero_add, List.drop_append_of_le_length (by rwa [length_zeroed (Nat.zero_le size)])]
    simp [zeroed]
  rw [write, if_pos hfits, hrest, List.take_zero, List.nil_append, zeroed, List.append_assoc]

/-- A write behind a block leaves it alone. -/
theorem write_append (block rest : Block) (bytes : List Char) :
    write (block ++ rest) block.length bytes = (write rest 0 bytes).map (block ++ ·) := by
  have hdrop : (block ++ rest).drop (block.length + bytes.length) = rest.drop bytes.length := by
    rw [← List.drop_drop, List.drop_left]
  by_cases h : bytes.length ≤ rest.length
  · rw [write, write, if_pos (by simpa using h), if_pos (by simpa using h), List.take_left, hdrop]
    simp
  · rw [write, write, if_neg (by simpa using h), if_neg (by simpa using h), Option.map_none]

/-- strcpy over a block leaves the end of the block. -/
theorem writeString_start {block : Block} (h : s.length < block.length) :
    writeString block 0 s = some (s ++ nul :: block.drop (s.length + 1)) := by
  have hfits : 0 + (s ++ [nul]).length ≤ block.length := by
    rw [List.length_append, List.length_singleton]
    omega
  rw [writeString, write, if_pos hfits]
  simp

/-- strcpy into a block of zeros leaves zeros behind the string. -/
theorem writeString_zeroed (h : s.length < size) :
    writeString (zeroed size []) 0 s = some (zeroed size s) := by
  have hfits : (s ++ [nul]).length ≤ size := by
    rw [List.length_append, List.length_singleton]
    omega
  have hwrite := write_zeroed hfits []
  rwa [List.append_nil, List.append_nil, zeroed_append_nul h] at hwrite

/-- Written behind the bytes that fill the start of a block of zeros. -/
theorem writeString_append {old : List Char} (h : (old ++ s).length < size) :
    writeString (zeroed size old) old.length s = some (zeroed size (old ++ s)) := by
  rw [List.length_append] at h
  have hroom : (s ++ [nul]).length ≤ size - old.length := by
    rw [List.length_append, List.length_singleton]
    omega
  have hzeroed : zeroed size old = old ++ zeroed (size - old.length) [] := by simp [zeroed]
  have hwrite := write_zeroed hroom []
  rw [List.append_nil, List.append_nil] at hwrite
  rw [writeString, hzeroed, write_append, hwrite, Option.map_some, zeroed_append_nul (by omega)]
  simp [zeroed, Nat.sub_sub]

/-- A text over another one in a block of zeros. -/
theorem overlay_zeroed (h : s.length ≤ size) (hbytes : bytes.length ≤ size) :
    overlay (zeroed size s) bytes = zeroed size (overlay s bytes) := by
  have hlength : (overlay s bytes).length = max s.length bytes.length := by
    rw [overlay, List.length_append, List.length_drop]
    omega
  rw [zeroed, zeroed, hlength, overlay, overlay, List.drop_append, List.drop_replicate,
    List.append_assoc]
  congr 3
  omega

/-- strcat on a padded string pads the two together. -/
theorem strcat_zeroed {old : CString} (hold : nul ∉ old) (h : (old ++ s).length < size) :
    strcat (zeroed size old) s = some (zeroed size (old ++ s)) := by
  have hlength : old.length < size := by
    rw [List.length_append] at h
    omega
  rw [strcat, cString_zeroed_alone hold hlength, Option.bind_some, writeString_append h]

/-- A string and its NUL that reach beyond the end of a block. -/
theorem writeString_overrun {block : Block} {offset : Nat}
    (h : block.length ≤ offset + s.length) : writeString block offset s = none := by
  refine if_neg (fun hfits => ?_)
  rw [List.length_append, List.length_singleton] at hfits
  omega

/-- Where they have no room, it overruns. -/
theorem strcat_overrun {old : CString} (hold : nul ∉ old) (hlength : old.length < size)
    (h : size ≤ (old ++ s).length) : strcat (zeroed size old) s = none := by
  rw [List.length_append] at h
  rw [strcat, cString_zeroed_alone hold hlength, Option.bind_some]
  apply writeString_overrun
  rwa [length_zeroed (Nat.le_of_lt hlength)]

end Zeroed

/-- A byte holds the lowest eight bits. -/
theorem toNat_byte (n : Int) : ((byte n).toNat : Int) = n % 256 := by
  have hvalid : (n % 256).toNat.isValidChar := .inl (by omega)
  have hbyte : (byte n).toNat = (n % 256).toNat := by
    rw [byte, Char.ofNat, dif_pos hvalid]
    rfl
  omega

/-- An int is read back from its bytes. -/
theorem readInt_intBytes {n : Int} (hlow : -2147483648 ≤ n) (hhigh : n < 2147483648)
    (rest : Block) : readInt (intBytes n ++ rest) = n := by
  have h0 := toNat_byte n
  have h1 := toNat_byte (n / 256)
  have h2 := toNat_byte (n / 65536)
  have h3 := toNat_byte (n / 16777216)
  have htake : (intBytes n ++ rest).take 4 = intBytes n := rfl
  simp only [readInt, htake]
  simp only [intBytes, List.foldr_cons, List.foldr_nil]
  omega

end CMemory
