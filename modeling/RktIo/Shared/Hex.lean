import RktIo.Shared.Util

/-!
# Hexadecimal strings (`hex_to_bytes` of `shared/sgxlkl_util.c`)

`hex_to_bytes` reads two characters at a time with `strtoul` and asks that both are consumed. For
an odd number of characters it means to put a zero in front, but puts a NUL there, so `strtoul` sees
an empty string and every string of odd length is refused. And `strtoul` skips blanks and reads
signs: a pair of a blank or a sign and a digit is consumed as well.
-/

namespace RktIo.Shared

open CString List

/-! ## Pairs -/

def skippable (c : Char) : Bool := isspace c || c == '+' || c == '-'

def PairRead (a b : Char) : Prop := (digitVal a < 16 ∨ skippable a = true) ∧ digitVal b < 16

instance (a b : Char) : Decidable (PairRead a b) := inferInstanceAs (Decidable (_ ∧ _))

def pairs : List Char → List (Char × Char)
  | a :: b :: hex => (a, b) :: pairs hex
  | _ => []

def AllDigits (hex : List Char) : Prop := ∀ c ∈ hex, digitVal c < 16

instance (hex : List Char) : Decidable (AllDigits hex) :=
  List.decidableBAll _ hex

theorem not_digit_of_skippable {c : Char} (h : skippable c = true) : ¬ digitVal c < 16 := by
  intro hdigit
  have hspace := not_isspace_of_digit (show digitVal c < 36 by omega)
  rcases (show c = '+' ∨ c = '-' by simpa [skippable, hspace] using h) with rfl | rfl
  · exact absurd hdigit (by decide)
  · exact absurd hdigit (by decide)

theorem skipHexMark_short {base : Nat} {s : List Char} (h : s.length ≤ 2) :
    skipHexMark base s = s := by
  unfold skipHexMark
  split
  · rename_i x d s
    simp at h
  · rfl

theorem strtoull_consumed {s t : List Char} {neg : Bool}
    (hsign : signOf (s.dropWhile isspace) = (neg, t)) (hshort : t.length ≤ 2) :
    (strtoull 16 s).consumed =
      if t.takeWhile (fun c => decide (digitVal c < 16)) = [] then 0
      else s.length - (t.length - (t.takeWhile (fun c => decide (digitVal c < 16))).length) := by
  unfold strtoull
  rw [hsign]
  dsimp only
  rw [skipHexMark_short hshort]
  split
  · rfl
  · split <;> rfl

theorem signOf_of_not_sign {c : Char} {s : List Char} (hplus : c ≠ '+') (hminus : c ≠ '-') :
    signOf (c :: s) = (false, c :: s) := by
  unfold signOf
  split
  · rename_i heq
    exact absurd (List.cons.inj heq).1 hminus
  · rename_i heq
    exact absurd (List.cons.inj heq).1 hplus
  · rfl

theorem strtoull_pair_skip {a b : Char} {neg : Bool}
    (hsign : signOf ([a, b].dropWhile isspace) = (neg, [b])) :
    (strtoull 16 [a, b]).consumed = 2 ↔ digitVal b < 16 := by
  rw [strtoull_consumed hsign (by simp)]
  by_cases hb : digitVal b < 16
  · simp [hb]
  · simp [hb]

/-- **The pairs that are read.** The first character decides what `strtoul` sees. -/
theorem strtoull_pair_consumed (a b : Char) :
    (strtoull 16 [a, b]).consumed = 2 ↔ PairRead a b := by
  by_cases hskip : skippable a = true
  · have hpair : PairRead a b ↔ digitVal b < 16 := by simp [PairRead, hskip]
    rw [hpair]
    by_cases hspace : isspace a = true
    · by_cases hspace' : isspace b = true
      · -- two blanks: no digit is found
        have hsign : signOf ([a, b].dropWhile isspace) = (false, []) := by
          simp [hspace, hspace', signOf]
        have hdigit : ¬ digitVal b < 16 := not_digit_of_skippable (by simp [skippable, hspace'])
        rw [strtoull_consumed hsign (by simp)]
        simp [hdigit]
      · have hdrop : [a, b].dropWhile isspace = [b] := by simp [hspace, hspace']
        by_cases hb : b = '+' ∨ b = '-'
        · -- a sign that no digit follows
          have hsign : ∃ neg, signOf ([a, b].dropWhile isspace) = (neg, []) := by
            rw [hdrop]
            rcases hb with rfl | rfl
            · exact ⟨false, rfl⟩
            · exact ⟨true, rfl⟩
          obtain ⟨neg, hsign⟩ := hsign
          have hdigit : ¬ digitVal b < 16 :=
            not_digit_of_skippable (by rcases hb with rfl | rfl <;> simp [skippable])
          rw [strtoull_consumed hsign (by simp)]
          simp [hdigit]
        · rw [not_or] at hb
          exact strtoull_pair_skip (by rw [hdrop]; exact signOf_of_not_sign hb.1 hb.2)
    · have hdrop : [a, b].dropWhile isspace = [a, b] := by simp [hspace]
      rcases (show a = '+' ∨ a = '-' by simpa [skippable, hspace] using hskip) with rfl | rfl
      · exact strtoull_pair_skip (by rw [hdrop]; rfl)
      · exact strtoull_pair_skip (by rw [hdrop]; rfl)
  · -- the number starts with `a`
    have hparts : isspace a = false ∧ a ≠ '+' ∧ a ≠ '-' := by
      simpa [skippable, and_assoc] using hskip
    have hsign : signOf ([a, b].dropWhile isspace) = (false, [a, b]) := by
      rw [dropWhile_cons_of_neg (by simp [hparts.1])]
      exact signOf_of_not_sign hparts.2.1 hparts.2.2
    have hpair : PairRead a b ↔ digitVal a < 16 ∧ digitVal b < 16 := by simp [PairRead, hskip]
    rw [hpair, strtoull_consumed hsign (by simp)]
    by_cases ha : digitVal a < 16
    · by_cases hb : digitVal b < 16
      · simp [ha, hb]
      · simp [ha, hb]
    · simp [ha]

/-! ## Strings -/

theorem hexPairs_isSome_iff (hex : List Char) :
    (hexPairs hex).isSome = true ↔ ∀ p ∈ pairs hex, PairRead p.1 p.2 := by
  induction hex using pairs.induct with
  | case1 a b hex ih =>
    have hpair := strtoull_pair_consumed a b
    rw [hexPairs, pairs, forall_mem_cons, ← ih, ← hpair]
    by_cases hread : (strtoull 16 [a, b]).consumed = 2
    · simp [hread]
    · simp [hread]
  | case2 hex hshort =>
    have hpairs : pairs hex = [] := by
      rw [pairs]
      exact hshort
    have hnone : hexPairs hex = some [] := by
      rw [hexPairs]
      exact hshort
    simp [hpairs, hnone]

theorem hexToBytes_isSome_iff (hex : List Char) :
    (hexToBytes hex).isSome = true ↔
      hex.length % 2 = 0 ∧ ∀ p ∈ pairs hex, PairRead p.1 p.2 := by
  rw [← hexPairs_isSome_iff, hexToBytes]
  by_cases heven : hex.length % 2 = 0
  · simp [heven]
  · -- `strtoul` consumes nothing of the empty string
    have hempty : (strtoull 16 []).consumed ≠ 2 := by decide
    simp [heven, hempty]

/-! ## Numbers -/

def bytesValue (bytes : List UInt8) : Nat := bytes.foldl (fun v b => v * 256 + b.toNat) 0

theorem length_lt_two {hex : List Char} (hshort : ∀ a b rest, hex = a :: b :: rest → False) :
    hex.length < 2 := by
  cases hex with
  | nil => simp
  | cons a hex =>
    cases hex with
    | nil => simp
    | cons b hex => exact (hshort a b hex rfl).elim

theorem length_hexValue (hex : List Char) : (hexValue hex).length = hex.length / 2 := by
  induction hex using hexValue.induct with
  | case1 a b hex ih =>
    simp only [hexValue, length_cons, ih]
    omega
  | case2 hex hshort =>
    have hlen := length_lt_two hshort
    rw [hexValue]
    · show 0 = hex.length / 2
      omega
    · exact hshort

theorem foldl_hexValue {hex : List Char} (heven : hex.length % 2 = 0) (h : AllDigits hex)
    (v : Nat) :
    (hexValue hex).foldl (fun v b => v * 256 + b.toNat) v
      = hex.foldl (fun v c => v * 16 + digitVal c) v := by
  induction hex using hexValue.induct generalizing v with
  | case1 a b hex ih =>
    have ha : digitVal a < 16 := h a (by simp)
    have hb : digitVal b < 16 := h b (by simp)
    have hbyte : (UInt8.ofNat (16 * digitVal a + digitVal b)).toNat
        = 16 * digitVal a + digitVal b := by
      rw [UInt8.toNat_ofNat']
      omega
    have heven' : hex.length % 2 = 0 := by
      simp only [length_cons] at heven
      omega
    rw [hexValue, foldl_cons, hbyte, ih heven' fun c hc => h c (by simp [hc]), foldl_cons,
      foldl_cons]
    congr 1
    ring
  | case2 hex hshort =>
    have hlen := length_lt_two hshort
    obtain rfl : hex = [] := length_eq_zero_iff.mp (by omega)
    rfl

theorem bytesValue_hexValue {hex : List Char} (heven : hex.length % 2 = 0) (h : AllDigits hex) :
    bytesValue (hexValue hex) = numeral 16 hex := foldl_hexValue heven h 0

/-! ## Encoding -/

def hexDigit (n : Nat) : Char := if n < 10 then Char.ofNat (48 + n) else Char.ofNat (87 + n)

def hexEncode (bytes : List UInt8) : List Char :=
  bytes.flatMap fun b => [hexDigit (b.toNat / 16), hexDigit (b.toNat % 16)]

theorem digitVal_hexDigit : ∀ n < 16, digitVal (hexDigit n) = n := by decide

theorem hexEncode_cons (b : UInt8) (bytes : List UInt8) :
    hexEncode (b :: bytes)
      = hexDigit (b.toNat / 16) :: hexDigit (b.toNat % 16) :: hexEncode bytes := rfl

theorem digits_of_byte (b : UInt8) :
    digitVal (hexDigit (b.toNat / 16)) = b.toNat / 16
      ∧ digitVal (hexDigit (b.toNat % 16)) = b.toNat % 16 := by
  have hlt : b.toNat < 256 := b.toNat_lt
  exact ⟨digitVal_hexDigit _ (by omega), digitVal_hexDigit _ (by omega)⟩

theorem allDigits_hexEncode (bytes : List UInt8) : AllDigits (hexEncode bytes) := by
  induction bytes with
  | nil => simp [AllDigits, hexEncode]
  | cons b bytes ih =>
    have hlt : b.toNat < 256 := b.toNat_lt
    obtain ⟨hhigh, hlow⟩ := digits_of_byte b
    rw [hexEncode_cons]
    refine forall_mem_cons.mpr ⟨by omega, forall_mem_cons.mpr ⟨by omega, ih⟩⟩

theorem hexValue_hexEncode (bytes : List UInt8) : hexValue (hexEncode bytes) = bytes := by
  induction bytes with
  | nil => rfl
  | cons b bytes ih =>
    obtain ⟨hhigh, hlow⟩ := digits_of_byte b
    rw [hexEncode_cons, hexValue, ih, hhigh, hlow, Nat.div_add_mod, UInt8.ofNat_toNat]

/-! ## Exactness -/

/-- Decoding the string is exact: it is read if and only if all its characters are digits, the
bytes are half as many as the characters, rounded up, and the digits of the number that the string
denotes, and a string that encodes bytes gives them back. -/
structure HexExact (hex : List Char) : Prop where
  accepts : (hexToBytes hex).isSome = true ↔ AllDigits hex
  length : ∀ bytes, hexToBytes hex = some bytes → bytes.length = (hex.length + 1) / 2
  value : ∀ bytes, hexToBytes hex = some bytes → bytesValue bytes = numeral 16 hex
  inverse : ∀ bytes, hex = hexEncode bytes → hexToBytes hex = some bytes

/-- **Hexadecimal decoding is exact** on a string of digits if their number is even. On any other
string it is exact if the string is refused: its length is odd, or there is a pair that is neither
two digits nor a blank or sign and a digit. -/
theorem hex_exact_iff (hex : List Char) :
    HexExact hex ↔
      if AllDigits hex then hex.length % 2 = 0
      else hex.length % 2 = 1 ∨ ∃ p ∈ pairs hex, ¬ PairRead p.1 p.2 := by
  by_cases hdigits : AllDigits hex
  · rw [if_pos hdigits]
    constructor
    · intro hexact
      exact ((hexToBytes_isSome_iff hex).mp (hexact.accepts.mpr hdigits)).1
    · intro heven
      have hbytes := hexToBytes_of_digits heven hdigits
      refine ⟨by simp [hbytes, hdigits], ?_, ?_, ?_⟩
      · intro bytes hsome
        rw [hbytes, Option.some.injEq] at hsome
        rw [← hsome, length_hexValue]
        omega
      · intro bytes hsome
        rw [hbytes, Option.some.injEq] at hsome
        rw [← hsome, bytesValue_hexValue heven hdigits]
      · rintro bytes rfl
        rw [hbytes, hexValue_hexEncode]
  · rw [if_neg hdigits]
    have hrefused : hexToBytes hex = none ↔
        hex.length % 2 = 1 ∨ ∃ p ∈ pairs hex, ¬ PairRead p.1 p.2 := by
      rw [← Option.not_isSome_iff_eq_none, hexToBytes_isSome_iff, not_and_or,
        Nat.mod_two_not_eq_zero]
      push Not
      rfl
    rw [← hrefused]
    constructor
    · intro hexact
      rw [← Option.not_isSome_iff_eq_none]
      exact fun hsome => hdigits (hexact.accepts.mp hsome)
    · intro hnone
      refine ⟨by simp [hnone, hdigits], ?_, ?_, ?_⟩
      · simp [hnone]
      · simp [hnone]
      · -- an encoding consists of digits
        rintro bytes rfl
        exact absurd (allDigits_hexEncode bytes) hdigits

/-- An odd number of digits is refused, and a sign and a digit are read. -/
theorem odd_digits_refused :
    hexToBytes "abc".toList = none ∧ ¬ HexExact "abc".toList
      ∧ hexToBytes "+5".toList = some [5] ∧ ¬ HexExact "+5".toList := by
  refine ⟨by decide, fun h => ?_, by decide, fun h => ?_⟩
  · have hread := h.accepts.mpr (by decide)
    exact absurd hread (by decide)
  · have hdigits := h.accepts.mp (by decide)
    exact absurd hdigits (by decide)

end RktIo.Shared
