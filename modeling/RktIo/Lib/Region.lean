import Mathlib

/-!
# Ranges of addresses that may wrap

An address is a word of `w` bits, and `n` bytes from `p` are the addresses `p + j` for `j < n`,
modulo `2 ^ w`. An interval `[b, b + s)` of natural numbers does not wrap.
-/

namespace Region

open BitVec

variable {w : Nat}

def Mem (p : BitVec w) (n : Nat) (x : BitVec w) : Prop := (x - p).toNat < n

theorem mem_iff {p x : BitVec w} {n : Nat} :
    Mem p n x ↔ p.toNat ≤ x.toNat ∧ x.toNat < p.toNat + n ∨
      x.toNat < p.toNat ∧ x.toNat + 2 ^ w < p.toNat + n := by
  have hp := p.isLt
  have hx := x.isLt
  rw [Mem, toNat_sub]
  by_cases h : p.toNat ≤ x.toNat
  · have heq : 2 ^ w - p.toNat + x.toNat = 2 ^ w + (x.toNat - p.toNat) := by omega
    rw [heq, Nat.add_mod_left, Nat.mod_eq_of_lt (by omega)]
    omega
  · rw [Nat.mod_eq_of_lt (by omega)]
    omega

theorem mem_iff_exists {p x : BitVec w} {n : Nat} :
    Mem p n x ↔ ∃ j < n, x = p + BitVec.ofNat w j := by
  constructor
  · intro h
    refine ⟨(x - p).toNat, h, ?_⟩
    rw [ofNat_toNat, setWidth_eq, add_comm, sub_add_cancel]
  · rintro ⟨j, hj, rfl⟩
    rw [Mem, add_comm, add_sub_cancel, toNat_ofNat]
    exact (Nat.mod_le _ _).trans_lt hj

theorem Mem.add {p x : BitVec w} {k m n : Nat} (h : Mem (p + BitVec.ofNat w k) m x)
    (hle : k + m ≤ n) : Mem p n x := by
  obtain ⟨j, hj, rfl⟩ := mem_iff_exists.mp h
  refine mem_iff_exists.mpr ⟨k + j, by omega, ?_⟩
  rw [add_assoc, ← ofNat_add]

theorem disjoint_interval_iff {p : BitVec w} {n b s : Nat} (hb : b < 2 ^ w) :
    (∀ x : BitVec w, Mem p n x → ¬ (b ≤ x.toNat ∧ x.toNat < b + s)) ↔
      n = 0 ∨ s = 0 ∨ p.toNat + n ≤ b ∨ b + s ≤ p.toNat ∧ p.toNat + n ≤ 2 ^ w + b := by
  have hp := p.isLt
  constructor
  · intro h
    by_contra hno
    push Not at hno
    obtain ⟨hn, hs, hbelow, habove⟩ := hno
    -- the range meets the interval at its own start or at `b`
    by_cases hpb : p.toNat < b + s ∧ b ≤ p.toNat
    · exact h p (mem_iff.mpr (.inl (by omega))) (by omega)
    · refine h (BitVec.ofNat w b) (mem_iff.mpr ?_) ?_
      all_goals rw [toNat_ofNat, Nat.mod_eq_of_lt hb]; omega
  · intro h x hx
    rcases mem_iff.mp hx with hx | hx <;> omega

end Region
