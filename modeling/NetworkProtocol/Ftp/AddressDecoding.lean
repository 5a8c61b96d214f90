import NetworkProtocol.Ftp.PortText

/-! The port of an address in FTP's notation, six numbers of which the last two are its bytes,
as both token loops decode it. A byte of value zero is passed over, its place with it. -/
namespace NetworkProtocol.Ftp
open CString Server

/-- What may stand between two numbers. -/
structure Separator where
  text : CString
  nonempty : text ≠ []
  separates : ∀ c ∈ text, c ∈ ',' :: whitespace

structure SixBytes where
  b0 : Fin 256
  b1 : Fin 256
  b2 : Fin 256
  b3 : Fin 256
  b4 : Fin 256
  b5 : Fin 256
  s0 : Separator
  s1 : Separator
  s2 : Separator
  s3 : Separator
  s4 : Separator

namespace SixBytes

def numeral (b : Fin 256) : CString := decimal b.val

def text (a : SixBytes) : CString :=
  numeral a.b0 ++ (a.s0.text ++ (numeral a.b1 ++ (a.s1.text ++ (numeral a.b2 ++ (a.s2.text ++
    (numeral a.b3 ++ (a.s3.text ++ (numeral a.b4 ++ (a.s4.text ++ numeral a.b5)))))))))

def port (a : SixBytes) : Int := 256 * a.b4.val + a.b5.val

end SixBytes

open SixBytes

def passiveText (port : Int) : CString :=
  "Entering Passive Mode | 192,168,0,1,".toList ++ decimal (port.tdiv 256) ++ [','] ++
    decimal (port.tmod 256)

/-- The reply to PASV names the next port in two numbers. -/
theorem pasv_text {env : Environment} {s : Server} (h : s.authStatus = .loggedIn) :
    (s.pasv env).responseMessage = passiveText (s.nextPort env) := by
  rw [Server.pasv, if_neg (not_not.mpr h)]
  dsimp only
  rw [selectMode_eq]
  rfl

/-- Only the NULL sets the client's loop apart from the server's. -/
theorem dataPortLoop_eq (pchs : List CString) (idx : Nat) (address : Address) :
    dataPortLoop pchs idx address = (parseAddress pchs idx address).map Address.port := by
  induction pchs generalizing idx address with
  | nil => rfl
  | cons pch rest ih =>
    rw [dataPortLoop, parseAddress]
    split
    · rfl
    · exact ih (idx + 1) (address.add idx (atoi pch))

/-- What an int can hold is not wrapped. -/
theorem wrap_eq {n : Int} (hlow : -2147483648 ≤ n) (hhigh : n < 2147483648) : wrap n = n :=
  Int.bmod_eq_of_le (by omega) (by omega)

private theorem add_port (address : Address) (idx : Nat) (value : Int) :
    (address.add idx value).port =
      if value = 0 ∨ idx < 4 then address.port else shift address.port value := by
  rw [Address.add]
  by_cases hzero : value = 0
  · rw [if_pos hzero, if_pos (.inl hzero)]
  · by_cases hidx : idx < 4
    · rw [if_neg hzero, if_pos hidx, if_pos (.inr hidx)]
    · rw [if_neg hzero, if_neg hidx, if_neg (not_or.mpr ⟨hzero, hidx⟩)]

private theorem numeral_length (b : Fin 256) : (numeral b).length ≤ 3 := by
  rw [numeral, decimal, if_neg (by omega), Int.natAbs_natCast,
    Nat.length_toDigits_le_iff (by decide) (by decide)]
  omega

private theorem isDigit_of_mem_numeral {b : Fin 256} {c : Char} (hc : c ∈ numeral b) :
    c.isDigit = true := by
  rw [numeral, decimal, if_neg (by omega)] at hc
  exact isDigit_of_mem_toDigits hc

/-- A numeral has no separator in it. -/
theorem numeral_free (b : Fin 256) : ∀ c ∈ numeral b, c ∉ ',' :: whitespace := by
  intro c hc hmem
  have hdigit := isDigit_of_mem_numeral hc
  simp only [whitespace, List.mem_cons, List.not_mem_nil, or_false] at hmem
  rcases hmem with rfl | rfl | rfl | rfl | rfl | rfl | rfl <;> exact absurd hdigit (by decide)

private theorem tokens_text (a : SixBytes) : tokens (',' :: whitespace) a.text =
    [numeral a.b0, numeral a.b1, numeral a.b2, numeral a.b3, numeral a.b4, numeral a.b5] := by
  have hne (b : Fin 256) : numeral b ≠ [] := decimal_ne_nil _
  have hrun (b : Fin 256) (s : Separator) (rest : CString) :
      tokens (',' :: whitespace) (numeral b ++ (s.text ++ rest)) =
        numeral b :: tokens (',' :: whitespace) rest :=
    tokens_run (hne b) (numeral_free b) s.nonempty s.separates rest
  rw [text, hrun, hrun, hrun, hrun, hrun, tokens_word (hne a.b5) (numeral_free a.b5)]

/-- An address is digits and separators. -/
theorem mem_text {a : SixBytes} {c : Char} (hc : c ∈ a.text) :
    c.isDigit = true ∨ c ∈ ',' :: whitespace := by
  by_cases hmem : c ∈ ',' :: whitespace
  · exact .inr hmem
  · left
    have hflatten : c ∈ (tokens (',' :: whitespace) a.text).flatten := by
      rw [flatten_tokens]
      exact List.mem_filter.mpr ⟨hc, by simpa using hmem⟩
    rw [tokens_text] at hflatten
    simp only [List.flatten_cons, List.flatten_nil, List.mem_append, List.not_mem_nil,
      or_false] at hflatten
    rcases hflatten with h | h | h | h | h | h <;> exact isDigit_of_mem_numeral h

/-- Two bytes of a port; a zero behind a byte leaves that byte where it is. -/
def decoded (high low : Nat) : Int := if low = 0 then high else 256 * high + low

/-- A port is decoded right just when no zero byte is passed over. -/
theorem decoded_iff (high low : Nat) :
    decoded high low = 256 * high + low ↔ high = 0 ∨ low ≠ 0 := by
  rw [decoded]
  split <;> omega

private theorem shift_eq {n value : Int} (hn : 0 ≤ n ∧ n < 256) (hvalue : 0 ≤ value ∧ value < 256) :
    shift n value = 256 * n + value := by
  rw [shift, wrap_eq (n := n * 256) (by omega) (by omega), wrap_eq (by omega) (by omega),
    Int.mul_comm]

/-- The loop over six numbers of at most three digits. -/
theorem parseAddress_six (b0 b1 b2 b3 b4 b5 : Fin 256) :
    (parseAddress [numeral b0, numeral b1, numeral b2, numeral b3, numeral b4, numeral b5] 0 {}).map
      Address.port = some (decoded b4 b5) := by
  have hvalue (b : Fin 256) : atoi (numeral b) = b.val := atoi_decimal _
  have hlength (b : Fin 256) : ¬ 3 < (numeral b).length := Nat.not_lt.mpr (numeral_length b)
  have hbyte (b : Fin 256) : 0 ≤ (b.val : Int) ∧ (b.val : Int) < 256 := by omega
  have hhigh : (if (b4.val : Int) = 0 then 0 else shift 0 b4.val) = b4.val := by
    split
    · omega
    · rw [shift_eq (by decide) (hbyte b4)]
      omega
  have hport : (parseAddress [numeral b0, numeral b1, numeral b2, numeral b3, numeral b4,
      numeral b5] 0 {}).map Address.port =
        some (if (b5.val : Int) = 0 then if (b4.val : Int) = 0 then 0 else shift 0 b4.val
          else shift (if (b4.val : Int) = 0 then 0 else shift 0 b4.val) b5.val) := by
    simp only [parseAddress, if_neg (hlength _), hvalue, Option.map_some, add_port, Nat.reduceAdd,
      Nat.reduceLT, or_true, or_false, if_true]
  have hzero : (b5.val : Int) = 0 ↔ b5.val = 0 := Int.natCast_eq_zero
  rw [hport, hhigh, shift_eq (hbyte b4) (hbyte b5), decoded]
  simp only [hzero]

/-- What either loop finds in an address, whatever stands between its numbers. -/
theorem requested_text (a : SixBytes) :
    (requested a.text).map Address.port = some (decoded a.b4 a.b5) := by
  rw [requested, tokens_text]
  exact parseAddress_six a.b0 a.b1 a.b2 a.b3 a.b4 a.b5

private theorem dataPortLoop_text (a : SixBytes) :
    dataPortLoop (tokens (',' :: whitespace) a.text) 0 {} = some (decoded a.b4 a.b5) := by
  rw [dataPortLoop_eq]
  exact requested_text a

private def comma : Separator := ⟨[','], by simp, by simp⟩

private def passiveAddress (port : Fin 65536) : SixBytes where
  b0 := 192
  b1 := 168
  b2 := 0
  b3 := 1
  b4 := ⟨port / 256, by omega⟩
  b5 := ⟨port % 256, by omega⟩
  s0 := comma
  s1 := comma
  s2 := comma
  s3 := comma
  s4 := comma

private theorem append_port {reply message n0 n1 n2 n3 : CString}
    (h : reply = message ++ '|' :: (' ' :: (n0 ++ ([','] ++ (n1 ++ ([','] ++ (n2 ++ ([','] ++
      (n3 ++ [',']))))))))) (high low : CString) :
    reply ++ high ++ [','] ++ low = message ++ '|' :: (' ' :: (n0 ++ ([','] ++ (n1 ++ ([','] ++
      (n2 ++ ([','] ++ (n3 ++ ([','] ++ (high ++ ([','] ++ low))))))))))) := by
  simp [h]

private theorem passiveText_constant : "Entering Passive Mode | 192,168,0,1,".toList =
    "Entering Passive Mode ".toList ++ '|' :: (' ' :: (numeral 192 ++ ([','] ++ (numeral 168 ++
      ([','] ++ (numeral 0 ++ ([','] ++ (numeral 1 ++ [','])))))))) := by
  have h192 : numeral 192 = "192".toList := rfl
  have h168 : numeral 168 = "168".toList := rfl
  have h0 : numeral 0 = "0".toList := rfl
  have h1 : numeral 1 = "1".toList := rfl
  rw [h192, h168, h0, h1]
  simp

private theorem passiveText_eq (port : Fin 65536) : passiveText port.val =
    "Entering Passive Mode ".toList ++ '|' :: (' ' :: (passiveAddress port).text) := by
  have htdiv : Int.tdiv (port.val : Int) 256 = ((port.val / 256 : Nat) : Int) := rfl
  have htmod : Int.tmod (port.val : Int) 256 = ((port.val % 256 : Nat) : Int) := rfl
  unfold passiveText
  rw [htdiv, htmod]
  exact append_port passiveText_constant _ _

/-- What the client makes of a passive reply. -/
theorem dataPort_passive (port : Fin 65536) :
    dataPort .pasv (passiveText port.val) =
      some (some (decoded (port.val / 256) (port.val % 256))) := by
  have hmessage : ∀ c ∈ "Entering Passive Mode ".toList, c ∉ ['|'] := by simp
  have haddress : ∀ c ∈ ' ' :: (passiveAddress port).text, c ∉ ['|'] := by
    intro c hc hbar
    obtain rfl := List.mem_singleton.mp hbar
    rcases List.mem_cons.mp hc with hblank | hc
    · exact absurd hblank (by decide)
    · rcases mem_text hc with hdigit | hmem
      · exact absurd hdigit (by decide)
      · exact absurd hmem (by decide)
  have hpart : ((tokens ['|'] (passiveText port.val))[1]?).getD [] =
      ' ' :: (passiveAddress port).text := by
    rw [passiveText_eq, tokens_cons (by simp) hmessage (by simp), tokens_word (by simp) haddress]
    rfl
  rw [dataPort, hpart, tokens_delimiter (by simp [whitespace]), dataPortLoop_text]
  rfl

/-- Both loops decode an address to the port it stands for unless a zero byte follows one that
is not zero; a port's own encoding in PASV's reply comes back under the same condition. -/
theorem address_decoded (a : SixBytes) (port : Fin 65536) :
    (dataPortLoop (tokens (',' :: whitespace) a.text) 0 {} = some a.port ∧
      (requested a.text).map Address.port = some a.port ↔ a.b4 = 0 ∨ a.b5 ≠ 0) ∧
    (dataPort .pasv (passiveText port.val) = some (some (port.val : Int)) ↔
      port.val < 256 ∨ port.val % 256 ≠ 0) := by
  constructor
  · rw [dataPortLoop_text, requested_text, and_self, Option.some_inj, SixBytes.port, decoded_iff,
      Fin.val_eq_zero_iff, Ne, Fin.val_eq_zero_iff]
  · have hsplit : (port.val : Int) = 256 * (port.val / 256 : Nat) + (port.val % 256 : Nat) := by
      omega
    rw [dataPort_passive, Option.some_inj, Option.some_inj, hsplit, decoded_iff]
    omega

private def local1024 : SixBytes where
  b0 := 127
  b1 := 0
  b2 := 0
  b3 := 1
  b4 := 4
  b5 := 0
  s0 := comma
  s1 := comma
  s2 := comma
  s3 := comma
  s4 := comma

/-- Port 1024 comes back as 4. -/
theorem local1024_decoded : local1024.port = 1024 ∧
    dataPortLoop (tokens (',' :: whitespace) local1024.text) 0 {} = some 4 ∧
    (requested local1024.text).map Address.port = some 4 ∧
    dataPort .pasv (passiveText 1024) = some (some 4) :=
  ⟨rfl, dataPortLoop_text local1024, requested_text local1024,
    dataPort_passive 1024⟩

end NetworkProtocol.Ftp
