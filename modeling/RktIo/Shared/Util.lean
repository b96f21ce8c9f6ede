import RktIo.Lib.CString

/-!
# Reading numbers and bytes (`shared/sgxlkl_util.c`)

Sizes with a unit (`size_str_to_uint64`), values from the environment (`getenv_uint64`,
`getenv_str`, `getenv_bool`) and bytes in hexadecimal (`hex_to_bytes`).

The environment is a function from names to values.
-/

namespace RktIo.Shared

open CString

abbrev Environ := String → Option (List Char)

def ULONG_MAX : Nat := 2 ^ 64 - 1

/-! ## Sizes -/

def unitFactor : Option Char → Nat
  | some 'G' | some 'g' => 1024 * 1024 * 1024
  | some 'M' | some 'm' => 1024 * 1024
  | some 'K' | some 'k' => 1024
  | _ => 1

def sizeStrToUint64 (str : List Char) (dflt max : Nat) : Nat :=
  let parsed := strtoull 10 str
  let r := if parsed.value = ULONG_MAX ∧ parsed.erange then dflt else parsed.value
  let m := unitFactor str[parsed.consumed]?
  -- Check for potential overflow
  if r > ULONG_MAX / m then max
  else if r * m > max then max
  else r * m

theorem sizeStrToUint64_of_decimal {str : List Char} {dflt max : Nat} (hne : str ≠ [])
    (h : ∀ c ∈ str, digitVal c < 10) (hle : numeral 10 str ≤ max) (hmax : max < 2 ^ 64) :
    sizeStrToUint64 str dflt max = numeral 10 str := by
  have hparse := strtoull_of_digits (show 10 ≤ 16 by decide) hne h
  rw [if_pos (by omega)] at hparse
  have hfactor : unitFactor str[str.length]? = 1 := by simp [unitFactor]
  unfold sizeStrToUint64
  simp only [hparse, hfactor, Bool.false_eq_true, and_false, if_false, Nat.div_one, Nat.mul_one]
  rw [if_neg (by rw [ULONG_MAX]; omega), if_neg (by omega)]

/-! ## The environment -/

def getenvUint64 (env : Environ) (var : String) (dflt max : Nat) : Nat :=
  match env var with
  | none => dflt
  | some val => sizeStrToUint64 val dflt max

def getenvStr (env : Environ) (var : String) (dflt : Option (List Char)) : Option (List Char) :=
  match env var with
  | some val => some val
  | none => dflt

def getenvBool (env : Environ) (var : String) (dflt : Bool) : Bool :=
  match env var with
  | none => dflt
  | some val => if dflt then !startsWith ['0'] val else startsWith ['1'] val

/-! ## Hexadecimal -/

def hexPairs : List Char → Option (List UInt8)
  | a :: b :: hex =>
    let r := strtoull 16 [a, b]
    if r.consumed ≠ 2 then none else (hexPairs hex).map (UInt8.ofNat r.value :: ·)
  | _ => some []

def hexToBytes (hex : List Char) : Option (List UInt8) :=
  if hex.length % 2 ≠ 0 then
    -- `buf[0]` is NUL, so `strtoul` reads an empty string
    if (strtoull 16 []).consumed ≠ 2 then none else hexPairs hex.tail
  else hexPairs hex

def hexValue : List Char → List UInt8
  | a :: b :: hex => UInt8.ofNat (16 * digitVal a + digitVal b) :: hexValue hex
  | _ => []

theorem hexPairs_of_digits (hex : List Char) (h : ∀ c ∈ hex, digitVal c < 16) :
    hexPairs hex = some (hexValue hex) := by
  induction hex using hexValue.induct with
  | case1 a b hex ih =>
    have ha := h a (by simp)
    have hb := h b (by simp)
    have hpair := strtoull_of_digits (s := [a, b]) (show 16 ≤ 16 by decide) (by simp)
      (by simp [ha, hb])
    have hnum : numeral 16 [a, b] = 16 * digitVal a + digitVal b := by
      simp [numeral, Nat.mul_comm]
    rw [hnum, if_pos (by omega)] at hpair
    simp [hexPairs, hexValue, hpair, ih (fun c hc => h c (by simp [hc]))]
  | case2 hex hshort =>
    rw [hexPairs, hexValue]
    · exact hshort
    · exact hshort

theorem hexToBytes_of_digits {hex : List Char} (heven : hex.length % 2 = 0)
    (h : ∀ c ∈ hex, digitVal c < 16) : hexToBytes hex = some (hexValue hex) := by
  rw [hexToBytes, if_neg (by omega)]
  exact hexPairs_of_digits hex h

end RktIo.Shared
