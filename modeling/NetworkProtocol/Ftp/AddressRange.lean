import Mathlib.Algebra.Ring.Int.Defs
import Mathlib.Algebra.Ring.Nat
import NetworkProtocol.Ftp.AddressDecoding
import NetworkProtocol.Ftp.PortGrammar

/-! The arithmetic of the address loops against the range of an int. An accumulator holds the
non-zero values it is given as the digits of a number in base 256, as long as that fits. -/
namespace NetworkProtocol.Ftp
open CString Server

def IsInt (n : Int) : Prop := -2147483648 ≤ n ∧ n ≤ 2147483647

/-- The exact results of the multiplications and additions of both loops, in order. -/
def operations : List CString → Nat → Address → List Int
  | [], _, _ => []
  | pch :: rest, idx, address =>
    if 3 < pch.length then []
    else
      let value := atoi pch
      let accumulator := if idx < 4 then address.ipAdress else address.port
      (if value = 0 then [] else [accumulator * 256, wrap (accumulator * 256) + value]) ++
        operations rest (idx + 1) (address.add idx value)

def accumulations (n : Int) : List Int → List Int
  | [] => []
  | value :: rest => n * 256 :: (wrap (n * 256) + value) :: accumulations (shift n value) rest

def ipValues (pchs : List CString) : List Int := ((pchs.take 4).map atoi).filter (· ≠ 0)

def portValues (pchs : List CString) : List Int := ((pchs.drop 4).map atoi).filter (· ≠ 0)

def base256 (n : Int) (values : List Int) : Int := values.foldl (fun n value => n * 256 + value) n

/-- From the third digit on, a number that another digit follows fits in 24 bits; from the fourth
on, every number fits in 32. -/
def Fits (values : List Int) : Prop :=
  (∀ k, 3 ≤ k → k < values.length → -8388608 ≤ base256 0 (values.take k) ∧
    base256 0 (values.take k) ≤ 8388607) ∧
  ∀ k, 4 ≤ k → k ≤ values.length → IsInt (base256 0 (values.take k))

section Values

private theorem digit_le {c : Char} (h : c.isDigit = true) : c.toNat - '0'.toNat ≤ 9 := by
  have hnine : c.val ≤ 57 := by
    simp only [Char.isDigit, Bool.and_eq_true, decide_eq_true_eq] at h
    exact h.2
  have hnat : c.toNat ≤ 57 := hnine
  exact Nat.sub_le_sub_right hnat 48

private theorem foldl_digits_lt {s : CString} (hs : ∀ c ∈ s, c.isDigit = true) (n : Nat) :
    s.foldl (fun n c => 10 * n + (c.toNat - '0'.toNat)) n < (n + 1) * 10 ^ s.length := by
  induction s generalizing n with
  | nil => simp
  | cons c s ih =>
    have hdigit := digit_le (hs c List.mem_cons_self)
    have hrest := ih (fun d hd => hs d (List.mem_cons_of_mem _ hd)) (10 * n + (c.toNat - '0'.toNat))
    calc
      _ < (10 * n + (c.toNat - '0'.toNat) + 1) * 10 ^ s.length := hrest
      _ ≤ ((n + 1) * 10) * 10 ^ s.length := Nat.mul_le_mul_right _ (by omega)
      _ = (n + 1) * 10 ^ (c :: s).length := by
        rw [List.length_cons, Nat.pow_succ, Nat.mul_assoc, Nat.mul_comm 10]

/-- The digits of a text of at most three characters. -/
theorem digits_le {w : CString} (h : w.length ≤ 3) : digits w ≤ 999 := by
  have hlength : (w.takeWhile Char.isDigit).length ≤ 3 :=
    (List.takeWhile_prefix _).length_le.trans h
  have hlt := foldl_digits_lt (s := w.takeWhile Char.isDigit)
    (fun c hc => List.mem_takeWhile_imp hc) 0
  have hpow : 10 ^ (w.takeWhile Char.isDigit).length ≤ 10 ^ 3 :=
    Nat.pow_le_pow_right (by decide) hlength
  rw [digits]
  omega

/-- What atoi reads in three characters, which may be a sign and two digits. -/
theorem atoi_bounds {w : CString} (h : w.length ≤ 3) : -999 ≤ atoi w ∧ atoi w ≤ 999 := by
  have hdrop : (w.dropWhile isSpace).length ≤ 3 := (List.dropWhile_suffix _).length_le.trans h
  rw [atoi]
  split
  · rename_i rest hrest
    rw [hrest, List.length_cons] at hdrop
    have hdigits := digits_le (w := rest) (by omega)
    omega
  · rename_i rest hrest
    rw [hrest, List.length_cons] at hdrop
    have hdigits := digits_le (w := rest) (by omega)
    omega
  · have hdigits := digits_le hdrop
    omega

end Values

section Accumulator
variable {n value : Int} {values : List Int}

private theorem base256_cons (n value : Int) (rest : List Int) (k : Nat) :
    base256 n ((value :: rest).take (k + 1)) = base256 (n * 256 + value) (rest.take k) := rfl

private theorem wrap_of_isInt (h : IsInt n) : wrap n = n :=
  wrap_eq h.1 (by have hhigh := h.2; omega)

private theorem shift_of_isInt (hn : IsInt (n * 256)) (hvalue : IsInt (n * 256 + value)) :
    shift n value = n * 256 + value := by
  rw [shift, wrap_of_isInt hn, wrap_of_isInt hvalue]

/-- While nothing has left the range, an accumulator holds the number itself. -/
theorem accumulations_in_range_iff (n : Int) (values : List Int) :
    (∀ m ∈ accumulations n values, IsInt m) ↔
      (∀ k, k < values.length → IsInt (base256 n (values.take k) * 256)) ∧
        ∀ k, 1 ≤ k → k ≤ values.length → IsInt (base256 n (values.take k)) := by
  induction values generalizing n with
  | nil =>
    refine ⟨fun _ => ⟨fun k hk => absurd hk (Nat.not_lt_zero k), fun k hone hk => ?_⟩, fun _ => ?_⟩
    · rw [List.length_nil] at hk
      omega
    · exact fun m hm => absurd hm List.not_mem_nil
  | cons value rest ih =>
    have hmembers : (∀ m ∈ accumulations n (value :: rest), IsInt m) ↔
        IsInt (n * 256) ∧ IsInt (n * 256 + value) ∧
          ∀ m ∈ accumulations (n * 256 + value) rest, IsInt m := by
      rw [accumulations, List.forall_mem_cons, List.forall_mem_cons]
      refine and_congr_right (fun hn => ?_)
      rw [wrap_of_isInt hn]
      exact and_congr_right (fun hvalue => by rw [shift_of_isInt hn hvalue])
    rw [hmembers, ih]
    constructor
    · rintro ⟨hn, hvalue, hproducts, hsums⟩
      refine ⟨fun k hk => ?_, fun k hone hk => ?_⟩
      · cases k with
        | zero => exact hn
        | succ k => exact hproducts k (Nat.lt_of_succ_lt_succ hk)
      · obtain ⟨k, rfl⟩ : ∃ j, k = j + 1 := ⟨k - 1, by omega⟩
        rw [base256_cons]
        cases k with
        | zero => exact hvalue
        | succ k => exact hsums (k + 1) (by omega) (Nat.le_of_succ_le_succ hk)
    · rintro ⟨hproducts, hsums⟩
      refine ⟨hproducts 0 (Nat.succ_pos _),
        hsums 1 (Nat.le_refl 1) (Nat.succ_le_succ (Nat.zero_le _)),
        fun k hk => ?_, fun k hone hk => ?_⟩
      · exact hproducts (k + 1) (Nat.succ_lt_succ hk)
      · exact hsums (k + 1) (Nat.succ_pos k) (Nat.succ_le_succ hk)

private theorem base256_lt {b : Int} (hvalues : ∀ v ∈ values, -999 ≤ v ∧ v ≤ 999)
    (hlow : -b ≤ n) (hhigh : n ≤ b) :
    -((b + 4) * 256 ^ values.length) < base256 n values ∧
      base256 n values < (b + 4) * 256 ^ values.length := by
  induction values generalizing n b with
  | nil =>
    rw [base256, List.foldl_nil, List.length_nil, Int.pow_zero, Int.mul_one]
    omega
  | cons value rest ih =>
    have hvalue := hvalues value List.mem_cons_self
    have hrest := ih (n := n * 256 + value) (b := 256 * b + 1020)
      (fun v hv => hvalues v (List.mem_cons_of_mem _ hv)) (by omega) (by omega)
    have hpow : (256 * b + 1020 + 4) * 256 ^ rest.length =
        (b + 4) * 256 ^ (value :: rest).length := by
      rw [List.length_cons, Int.pow_succ, Int.mul_comm _ 256, ← Int.mul_assoc]
      congr 1
      omega
    rw [hpow] at hrest
    exact hrest

private theorem base256_short {k j : Nat} (hk : k ≤ j)
    (hvalues : ∀ v ∈ values, -999 ≤ v ∧ v ≤ 999) :
    -(4 * 256 ^ j) < base256 0 (values.take k) ∧ base256 0 (values.take k) < 4 * 256 ^ j := by
  have hfirst : ∀ v ∈ values.take k, -999 ≤ v ∧ v ≤ 999 :=
    fun v hv => hvalues v (List.mem_of_mem_take hv)
  have hbound := base256_lt (n := 0) (b := 0) hfirst (by decide) (by decide)
  have hlength : (values.take k).length ≤ j := (List.length_take_le _ _).trans hk
  have hpow := Int.ofNat_le.mpr (Nat.pow_le_pow_right (show 0 < 256 by decide) hlength)
  simp only [Int.natCast_pow, Int.cast_ofNat_Int] at hpow
  omega

/-- What keeps an accumulator of such values in range. -/
theorem accumulations_iff_fits (hvalues : ∀ v ∈ values, -999 ≤ v ∧ v ≤ 999) :
    (∀ m ∈ accumulations 0 values, IsInt m) ↔ Fits values := by
  rw [accumulations_in_range_iff, Fits]
  refine and_congr ⟨fun h k _ hk => ?_, fun h k hk => ?_⟩
    ⟨fun h k hfour hk => ?_, fun h k _ hk => ?_⟩
  · have hproduct := h k hk
    rw [IsInt] at hproduct
    omega
  · rw [IsInt]
    by_cases hthree : 3 ≤ k
    · have hbounds := h k hthree hk
      omega
    · have hbounds := base256_short (k := k) (j := 2) (by omega) hvalues
      omega
  · exact h k (by omega) hk
  · by_cases hfour : 4 ≤ k
    · exact h k hfour hk
    · have hbounds := base256_short (k := k) (j := 3) (by omega) hvalues
      rw [IsInt]
      omega

end Accumulator

section Loop
variable {P : Int → Prop}

/-- The loop's operations are those of its two accumulators, each on its own values. -/
theorem operations_iff (pchs : List CString) (idx : Nat) (address : Address)
    (hshort : ∀ pch ∈ pchs, pch.length ≤ 3) :
    (∀ m ∈ operations pchs idx address, P m) ↔
      (∀ m ∈ accumulations address.ipAdress
        (((pchs.take (4 - idx)).map atoi).filter (· ≠ 0)), P m) ∧
      ∀ m ∈ accumulations address.port (((pchs.drop (4 - idx)).map atoi).filter (· ≠ 0)), P m := by
  induction pchs generalizing idx address with
  | nil => simp [operations, accumulations]
  | cons pch rest ih =>
    have hpch : ¬ 3 < pch.length := Nat.not_lt.mpr (hshort pch List.mem_cons_self)
    have hrest := ih (idx + 1) (address.add idx (atoi pch))
      (fun other h => hshort other (List.mem_cons_of_mem _ h))
    rw [operations, if_neg hpch]
    dsimp only
    rw [List.forall_mem_append, hrest]
    by_cases hidx : idx < 4
    · have hsub : 4 - idx = (4 - (idx + 1)) + 1 := by omega
      rw [hsub, List.take_succ_cons, List.drop_succ_cons, List.map_cons, if_pos hidx]
      by_cases hzero : atoi pch = 0
      · rw [if_pos hzero, List.filter_cons_of_neg (by simpa using hzero), Address.add, if_pos hzero]
        simp
      · rw [if_neg hzero, List.filter_cons_of_pos (by simpa using hzero), Address.add, if_neg hzero,
          if_pos hidx, accumulations]
        simp [and_assoc]
    · have hsub : 4 - idx = 0 := by omega
      have hsucc : 4 - (idx + 1) = 0 := by omega
      rw [hsub, hsucc, List.take_zero, List.take_zero, List.drop_zero, List.drop_zero,
        List.map_cons, if_neg hidx]
      by_cases hzero : atoi pch = 0
      · rw [if_pos hzero, List.filter_cons_of_neg (by simpa using hzero), Address.add, if_pos hzero]
        simp [accumulations]
      · rw [if_neg hzero, List.filter_cons_of_pos (by simpa using hzero), Address.add, if_neg hzero,
          if_neg hidx, accumulations]
        simp [accumulations, and_assoc]

end Loop

/-- A text that passes the length check, on either side. -/
def PassesCheck (text : CString) : Prop :=
  (requested text).isSome ∨ (dataPortLoop (tokens (',' :: whitespace) text) 0 {}).isSome

/-- Both sides check the same. -/
theorem passesCheck_iff (text : CString) :
    PassesCheck text ↔ ∀ pch ∈ tokens (',' :: whitespace) text, pch.length ≤ 3 := by
  have hnone : requested text ≠ none ↔ ∀ pch ∈ tokens (',' :: whitespace) text, pch.length ≤ 3 := by
    rw [Ne, requested_eq_none_iff]
    simp
  rw [PassesCheck, dataPortLoop_eq, Option.isSome_map, ← requested, or_self, ← hnone,
    Option.isSome_iff_ne_none]

/-- All that the loops compute of a text stays an int when the check refuses the text or its
values fit, and never otherwise. -/
theorem operations_in_range_iff (text : CString) :
    (PassesCheck text → ∀ m ∈ operations (tokens (',' :: whitespace) text) 0 {}, IsInt m) ↔
      (∃ pch ∈ tokens (',' :: whitespace) text, 3 < pch.length) ∨
        Fits (ipValues (tokens (',' :: whitespace) text)) ∧
          Fits (portValues (tokens (',' :: whitespace) text)) := by
  by_cases hcheck : PassesCheck text
  · have hshort := (passesCheck_iff text).mp hcheck
    have hlong : ¬ ∃ pch ∈ tokens (',' :: whitespace) text, 3 < pch.length := by
      rintro ⟨pch, hmem, hlong⟩
      exact absurd (hshort pch hmem) (Nat.not_le.mpr hlong)
    have hvalues {pchs : List CString} (hsub : pchs ⊆ tokens (',' :: whitespace) text) :
        ∀ v ∈ (pchs.map atoi).filter (· ≠ 0), -999 ≤ v ∧ v ≤ 999 := by
      intro v hv
      obtain ⟨pch, hmem, rfl⟩ := List.mem_map.mp (List.mem_filter.mp hv).1
      exact atoi_bounds (hshort pch (hsub hmem))
    rw [operations_iff _ _ _ hshort, or_iff_right hlong, ipValues, portValues,
      ← accumulations_iff_fits (hvalues (List.take_subset _ _)),
      ← accumulations_iff_fits (hvalues (List.drop_subset _ _))]
    exact ⟨fun h => h hcheck, fun h _ => h⟩
  · have hlong : ∃ pch ∈ tokens (',' :: whitespace) text, 3 < pch.length := by
      rw [passesCheck_iff] at hcheck
      simpa using hcheck
    exact ⟨fun _ => .inl hlong, fun _ h => absurd h hcheck⟩

/-- The first four bytes of an ordinary address already leave the range. -/
theorem operations_overflow : PassesCheck "192,168,1,1,4,1".toList ∧
    3232235776 ∈ operations (tokens (',' :: whitespace) "192,168,1,1,4,1".toList) 0 {} ∧
    ¬ IsInt 3232235776 := by
  refine ⟨.inl (by decide), by decide, by simp [IsInt]⟩

end NetworkProtocol.Ftp
