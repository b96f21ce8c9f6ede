import RktIo.Shared.Util

/-!
# Sizes with a unit

`size_str_to_uint64` reads a decimal number and the unit behind it. Below `2 ^ 64` the result is the
product, limited by the maximum, in exact arithmetic: where the product would wrap around, it is
above every maximum, and the test before the multiplication finds that out
(`sizeStrToUint64_in_range`).

A number that is too large is replaced by the default, and then the unit is applied to the default
as well (`sizeStrToUint64_out_of_range`).
-/

namespace RktIo.Shared

open CString

/-! ## Numbers with units -/

def IsUnit (unit : Option Char) : Prop :=
  unit ∈ [none, some 'k', some 'K', some 'm', some 'M', some 'g', some 'G']

theorem IsUnit.decimal {unit : Option Char} (hunit : IsUnit unit) {digits : List Char}
    (hne : digits ≠ []) (hdigits : ∀ c ∈ digits, digitVal c < 10) :
    Decimal digits unit.toList := by
  refine ⟨hne, hdigits, ?_⟩
  intro c hc
  obtain rfl : unit = some c := by
    cases unit with
    | none => simp at hc
    | some u => simpa using hc
  simp only [IsUnit, List.mem_cons, List.not_mem_nil, or_false, reduceCtorEq, false_or,
    Option.some.injEq] at hunit
  rcases hunit with rfl | rfl | rfl | rfl | rfl | rfl <;> decide

theorem IsUnit.factor {unit : Option Char} (hunit : IsUnit unit) :
    (unit = none ∧ unitFactor unit = 1) ∨ (unit ≠ none ∧ 1 < unitFactor unit) := by
  simp only [IsUnit, List.mem_cons, List.not_mem_nil, or_false] at hunit
  rcases hunit with rfl | rfl | rfl | rfl | rfl | rfl | rfl <;> decide

theorem limited_eq_min {r m max : Nat} (hm : 0 < m) (hmax : max ≤ ULONG_MAX) :
    (if r > ULONG_MAX / m then max else if r * m > max then max else r * m) = min (r * m) max := by
  by_cases hover : r > ULONG_MAX / m
  · -- the product does not fit into 64 bits, so it is above the maximum
    have hbig : ULONG_MAX < r * m := (Nat.div_lt_iff_lt_mul hm).mp hover
    rw [if_pos hover, Nat.min_eq_right (by omega)]
  · rw [if_neg hover]
    split
    · rw [Nat.min_eq_right (by omega)]
    · rw [Nat.min_eq_left (by omega)]

/-! ## The two cases -/

section

variable {digits : List Char} {unit : Option Char} {dflt max : Nat}

theorem IsUnit.factor_pos (hunit : IsUnit unit) : 0 < unitFactor unit := by
  rcases hunit.factor with ⟨-, h⟩ | ⟨-, h⟩ <;> omega

theorem getElem?_unit : (digits ++ unit.toList)[digits.length]? = unit := by
  cases unit <;> simp

section

variable (hunit : IsUnit unit) (hdec : Decimal digits unit.toList) (hmax : max < 2 ^ 64)

include hunit hdec hmax

theorem sizeStrToUint64_in_range (hn : numeral 10 digits < 2 ^ 64) :
    sizeStrToUint64 (digits ++ unit.toList) dflt max
      = min (numeral 10 digits * unitFactor unit) max := by
  have hparse := strtoull_decimal hdec
  rw [if_pos hn] at hparse
  unfold sizeStrToUint64
  simp only [hparse, getElem?_unit, Bool.false_eq_true, and_false, if_false]
  exact limited_eq_min hunit.factor_pos (by rw [ULONG_MAX]; omega)

theorem sizeStrToUint64_out_of_range (hn : 2 ^ 64 ≤ numeral 10 digits) :
    sizeStrToUint64 (digits ++ unit.toList) dflt max = min (dflt * unitFactor unit) max := by
  have hparse := strtoull_decimal hdec
  rw [if_neg (by omega)] at hparse
  unfold sizeStrToUint64
  have hmarked : 2 ^ 64 - 1 = ULONG_MAX := rfl
  simp only [hparse, getElem?_unit, hmarked, and_self, if_true]
  exact limited_eq_min hunit.factor_pos (by rw [ULONG_MAX]; omega)

end

end

/-! ## The condition -/

/-- A size is converted without wrap-around: below `2 ^ 64` to the product, limited by the maximum,
and monotonically; from `2 ^ 64` on to the default, limited by the maximum. -/
structure SizeExact (digits : List Char) (unit : Option Char) (dflt max : Nat) : Prop where
  in_range : numeral 10 digits < 2 ^ 64 →
    sizeStrToUint64 (digits ++ unit.toList) dflt max
      = min (numeral 10 digits * unitFactor unit) max
  out_of_range : 2 ^ 64 ≤ numeral 10 digits →
    sizeStrToUint64 (digits ++ unit.toList) dflt max = min dflt max
  monotone : ∀ digits' : List Char, digits' ≠ [] → (∀ c ∈ digits', digitVal c < 10) →
    numeral 10 digits ≤ numeral 10 digits' → numeral 10 digits' < 2 ^ 64 →
      sizeStrToUint64 (digits ++ unit.toList) dflt max
        ≤ sizeStrToUint64 (digits' ++ unit.toList) dflt max

/-- **Sizes are converted without wrap-around** exactly if the number is below `2 ^ 64`, or it has
no unit, or the default is 0 or not below the maximum. -/
theorem size_exact_iff (digits : List Char) (unit : Option Char) (dflt max : Nat)
    (hne : digits ≠ []) (hdigits : ∀ c ∈ digits, digitVal c < 10) (hunit : IsUnit unit)
    (hmax : max < 2 ^ 64) :
    SizeExact digits unit dflt max
      ↔ numeral 10 digits < 2 ^ 64 ∨ unit = none ∨ dflt = 0 ∨ max ≤ dflt := by
  have hdec := hunit.decimal hne hdigits
  have hpos := hunit.factor_pos
  constructor
  · intro h
    by_contra hnot
    simp only [not_or, not_lt, not_le] at hnot
    obtain ⟨hn, hsome, hdflt, hlt⟩ := hnot
    have hsame := h.out_of_range hn
    rw [sizeStrToUint64_out_of_range hunit hdec hmax hn, Nat.min_eq_left hlt.le] at hsame
    have hfactor : 1 < unitFactor unit := by
      rcases hunit.factor with ⟨hnone, -⟩ | ⟨-, hfactor⟩
      · exact absurd hnone hsome
      · exact hfactor
    have hmore : dflt < dflt * unitFactor unit :=
      lt_mul_of_one_lt_right (Nat.pos_of_ne_zero hdflt) hfactor
    omega
  · intro hcond
    refine ⟨sizeStrToUint64_in_range hunit hdec hmax, ?_, ?_⟩
    · intro hn
      rw [sizeStrToUint64_out_of_range hunit hdec hmax hn]
      rcases hcond with hsmall | rfl | rfl | hle
      · omega
      · show min (dflt * 1) max = min dflt max
        rw [Nat.mul_one]
      · rw [Nat.zero_mul]
      · rw [Nat.min_eq_right hle]
        exact Nat.min_eq_right (hle.trans (Nat.le_mul_of_pos_right dflt hpos))
    · intro digits' hne' hdigits' hle hn'
      rw [sizeStrToUint64_in_range hunit hdec hmax (by omega),
        sizeStrToUint64_in_range hunit (hunit.decimal hne' hdigits') hmax hn']
      exact min_le_min (Nat.mul_le_mul_right _ hle) le_rfl

/-- Four kilobytes, limited to three. -/
theorem size_exact_iff_kilobytes :
    SizeExact ['4'] (some 'k') 7 3072 ∧ sizeStrToUint64 ['4', 'k'] 7 3072 = 3072 :=
  ⟨(size_exact_iff ['4'] (some 'k') 7 3072 (by decide) (by simp [digitVal]) (by simp [IsUnit])
    (by decide)).mpr (Or.inl (by decide)), by decide +kernel⟩

/-- `18446744073709551616k` is `2 ^ 64` kilobytes: the result is 1024 times the default. -/
theorem default_multiplied :
    sizeStrToUint64 "18446744073709551616k".toList 5 1000000 = 5120
      ∧ ¬ SizeExact "18446744073709551616".toList (some 'k') 5 1000000 := by
  have hresult : sizeStrToUint64 "18446744073709551616k".toList 5 1000000 = 5120 := by
    decide +kernel
  refine ⟨hresult, fun h => ?_⟩
  have hsame := h.out_of_range (by decide +kernel)
  have hresult' : sizeStrToUint64 ("18446744073709551616".toList ++ (some 'k').toList) 5 1000000
      = 5120 := by
    decide +kernel
  rw [hresult'] at hsame
  exact absurd hsame (by decide)

end RktIo.Shared
