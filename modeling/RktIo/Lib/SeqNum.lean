import Mathlib

/-!
# Counters kept modulo `2 ^ w`

A counter that only grows is kept in a `w`-bit word. Two such words tell the counters apart,
and their signed difference is the difference of the counters, as long as the counters are
near each other.

* **`toInt_sub_ofNat`** — the signed difference, for counters less than `2 ^ (w - 1)` apart;
* **`toNat_and_mask`** — a ring index: the low bits of the word are those of the counter.
-/

namespace SeqNum

variable {w : Nat}

theorem ofNat_eq_iff {a b : Nat} (hab : a ≤ b) (hnear : b - a < 2 ^ w) :
    BitVec.ofNat w a = BitVec.ofNat w b ↔ a = b := by
  constructor
  · intro h
    have hmod : a % 2 ^ w = b % 2 ^ w := by simpa using congrArg BitVec.toNat h
    have hdvd : 2 ^ w ∣ b - a := (Nat.modEq_iff_dvd' hab).mp hmod
    have hzero : b - a = 0 := Nat.eq_zero_of_dvd_of_lt hdvd hnear
    omega
  · rintro rfl
    rfl

theorem toInt_sub_ofNat {a b : Nat} (hlo : -(2 ^ (w - 1) : Int) ≤ (a : Int) - b)
    (hhi : (a : Int) - b < 2 ^ (w - 1)) (hw : 0 < w) :
    (BitVec.ofNat w a - BitVec.ofNat w b).toInt = (a : Int) - b := by
  have hpow : (2 : Int) ^ w = 2 * 2 ^ (w - 1) := by
    obtain ⟨v, rfl⟩ : ∃ v, w = v + 1 := ⟨w - 1, by omega⟩
    rw [Nat.add_sub_cancel, pow_succ]
    ring
  rw [BitVec.toInt_sub, BitVec.toInt_ofNat', BitVec.toInt_ofNat', Int.bmod_sub_bmod,
    Int.sub_bmod_bmod]
  apply Int.bmod_eq_of_le
  · push_cast
    omega
  · push_cast
    omega

theorem toNat_and_mask {k n : Nat} (hk : k ≤ w) :
    (BitVec.ofNat w n &&& BitVec.ofNat w (2 ^ k - 1)).toNat = n % 2 ^ k := by
  have hle : 2 ^ k ≤ 2 ^ w := Nat.pow_le_pow_right (by decide) hk
  have hpos : 0 < 2 ^ k := Nat.two_pow_pos k
  rw [BitVec.toNat_and, BitVec.toNat_ofNat, BitVec.toNat_ofNat, Nat.mod_eq_of_lt (a := 2 ^ k - 1)
    (by omega), Nat.and_two_pow_sub_one_eq_mod, Nat.mod_mod_of_dvd _ (Nat.pow_dvd_pow 2 hk)]

end SeqNum
