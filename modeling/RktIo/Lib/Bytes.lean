import Mathlib

/-!
# Sequences of bytes

Little-endian numbers of `n` bytes, read from and written to a sequence of bytes, and bytes copied
from one sequence to another.

* **`load_store`** — what is written is read back, modulo `256 ^ n`;
* **`load_congr`** — a number is read from its own bytes only;
* **`copy_copy`** — a copy can be made piece by piece;
* **`slice_copy`** — what is copied is found at its new place;
* **`load_eq_loadBE`** — a big-endian number is the little-endian one of the bytes in reverse.
-/

namespace Bytes

open List

variable {f g : Nat → BitVec 8} {a n v x : Nat}

def load (f : Nat → BitVec 8) (a : Nat) : Nat → Nat
  | 0 => 0
  | n + 1 => (f a).toNat + 256 * load f (a + 1) n

def byte (v i : Nat) : BitVec 8 := BitVec.ofNat 8 (v / 256 ^ i)

def store (f : Nat → BitVec 8) (a n v : Nat) : Nat → BitVec 8 :=
  fun x => if a ≤ x ∧ x < a + n then byte v (x - a) else f x

theorem store_of_notMem (h : ¬ (a ≤ x ∧ x < a + n)) : store f a n v x = f x := if_neg h

theorem load_lt (f : Nat → BitVec 8) (a n : Nat) : load f a n < 256 ^ n := by
  induction n generalizing a with
  | zero => simp [load]
  | succ n ih =>
    have hbyte : (f a).toNat < 256 := (f a).isLt
    have hrest := ih (a + 1)
    rw [load, pow_succ]
    omega

theorem load_congr (h : ∀ x, a ≤ x → x < a + n → f x = g x) : load f a n = load g a n := by
  induction n generalizing a with
  | zero => rfl
  | succ n ih =>
    rw [load, load, h a (Nat.le_refl a) (by omega), ih]
    intro x hlow hhigh
    exact h x (by omega) (by omega)

theorem load_store : load (store f a n v) a n = v % 256 ^ n := by
  induction n generalizing a v with
  | zero => simp [load, Nat.mod_one]
  | succ n ih =>
    -- the bytes behind the first one are those of `v / 256`
    have hrest : load (store f a (n + 1) v) (a + 1) n =
        load (store f (a + 1) n (v / 256)) (a + 1) n := by
      refine load_congr fun x hlow hhigh => ?_
      have hexp : 256 ^ (x - a) = 256 * 256 ^ (x - (a + 1)) := by
        rw [show x - a = x - (a + 1) + 1 by omega, pow_succ, Nat.mul_comm]
      rw [store, store, if_pos (by omega), if_pos (by omega), byte, byte, hexp,
        Nat.div_div_eq_div_mul]
    have hfirst : (store f a (n + 1) v a).toNat = v % 256 := by
      rw [store, if_pos (by omega), Nat.sub_self, byte, BitVec.toNat_ofNat, pow_zero, Nat.div_one]
    rw [load, hrest, ih, hfirst, pow_succ, Nat.mul_comm (256 ^ n), Nat.mod_mul]

theorem load_store_of_disjoint {b m : Nat} (h : b + m ≤ a ∨ a + n ≤ b) :
    load (store f a n v) b m = load f b m :=
  load_congr fun x hlow hhigh => store_of_notMem (by omega)

def copy (n : Nat) (f : Nat → BitVec 8) (a : Nat) (g : Nat → BitVec 8) (b : Nat) :
    Nat → BitVec 8 :=
  fun x => if b ≤ x ∧ x < b + n then f (a + (x - b)) else g x

theorem copy_of_mem {b : Nat} (h : b ≤ x ∧ x < b + n) : copy n f a g b x = f (a + (x - b)) :=
  if_pos h

theorem copy_of_notMem {b : Nat} (h : ¬ (b ≤ x ∧ x < b + n)) : copy n f a g b x = g x :=
  if_neg h

theorem copy_copy {b m : Nat} :
    copy m f (a + n) (copy n f a g b) (b + n) = copy (n + m) f a g b := by
  funext x
  rcases Nat.lt_or_ge x (b + n) with hlow | hhigh
  · rw [copy_of_notMem (by omega)]
    unfold copy
    exact if_congr (by omega) rfl rfl
  · unfold copy
    have hindex : b + n ≤ x → a + n + (x - (b + n)) = a + (x - b) := by omega
    rw [hindex hhigh]
    by_cases hx : x < b + n + m
    · rw [if_pos (by omega), if_pos (by omega)]
    · rw [if_neg (by omega), if_neg (by omega), if_neg (by omega)]

def slice (f : Nat → BitVec 8) (a n : Nat) : List (BitVec 8) :=
  (List.range n).map (fun i => f (a + i))

def ofList (l : List (BitVec 8)) : Nat → BitVec 8 := fun i => l.getD i 0

@[simp] theorem length_slice : (slice f a n).length = n := by
  simp [slice]

theorem slice_congr (h : ∀ x, a ≤ x → x < a + n → f x = g x) : slice f a n = slice g a n := by
  refine map_congr_left fun i hi => ?_
  have hi := mem_range.mp hi
  exact h (a + i) (by omega) (by omega)

theorem slice_add (f : Nat → BitVec 8) (a n m : Nat) :
    slice f a (n + m) = slice f a n ++ slice f (a + n) m := by
  rw [slice, slice, slice, range_add, map_append, map_map]
  simp only [Function.comp_def, Nat.add_assoc]

theorem slice_copy {b : Nat} : slice (copy n f a g b) b n = slice f a n := by
  refine map_congr_left fun i hi => ?_
  have hi := mem_range.mp hi
  rw [copy_of_mem (by omega), Nat.add_sub_cancel_left]

theorem slice_ofList (l : List (BitVec 8)) : slice (ofList l) 0 l.length = l := by
  apply ext_getElem
  · simp
  · intro i h₁ h₂
    simp [slice, ofList, h₂]

/-! ## Big-endian numbers -/

def mirror (f : Nat → BitVec 8) (a n : Nat) : Nat → BitVec 8 := fun k => f (a + (n - 1 - k))

def loadBE (f : Nat → BitVec 8) (a n : Nat) : Nat := load (mirror f a n) 0 n

def bytesBE (v n : Nat) : Nat → BitVec 8 := mirror (byte v) 0 n

theorem load_add (f : Nat → BitVec 8) (a b n : Nat) :
    load f (a + b) n = load (fun k => f (a + k)) b n := by
  induction n generalizing b with
  | zero => rfl
  | succ n ih => rw [load, load, Nat.add_assoc, ih]

theorem loadBE_lt (f : Nat → BitVec 8) (a n : Nat) : loadBE f a n < 256 ^ n := load_lt _ _ _

theorem mirror_mirror {k : Nat} (hk : k < n) : mirror (mirror f a n) 0 n k = f (a + k) := by
  unfold mirror
  congr 1
  omega

theorem load_eq_loadBE {b : Nat} (h : ∀ k < n, f (a + k) = mirror g b n k) :
    load f a n = loadBE g b n := by
  have hshift := load_add f a 0 n
  rw [Nat.add_zero] at hshift
  rw [hshift, loadBE]
  exact load_congr fun k _ hk => h k (by omega)

theorem loadBE_bytesBE (v n : Nat) : loadBE (bytesBE v n) 0 n = v % 256 ^ n := by
  have hload : loadBE (bytesBE v n) 0 n = load (store (fun _ => 0) 0 n v) 0 n := by
    refine load_congr fun k _ hk => ?_
    rw [bytesBE, mirror_mirror (by omega), Nat.zero_add, store, if_pos (by omega), Nat.sub_zero]
  rw [hload, load_store]

end Bytes
