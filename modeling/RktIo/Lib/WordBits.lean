import Mathlib

/-!
# Bit sets packed into lists of machine words

A list of `w`-bit words read as one long bit string: bit `i` sits in word `i / w` at
position `i % w`. The module owns what a packed bit set needs whatever it is used for:

* **`bitAt`** and its behaviour under a single-word store (`bitAt_set`);
* **`firstSet`** — the least set bit of one word, the brick such searches are made of;
* **`FreeRun`** / **`FillsRange`** — a run of clear bits, and the effect of writing a range.
-/

namespace WordBits

open List

variable {w : Nat}

def bitAt (ws : List (BitVec w)) (i : Nat) : Bool :=
  (ws.getD (i / w) 0#w).getLsbD (i % w)

theorem bitAt_set (ws : List (BitVec w)) (p : Nat) (v : BitVec w) (i : Nat)
    (hp : p < ws.length) :
    bitAt (ws.set p v) i = if i / w = p then v.getLsbD (i % w) else bitAt ws i := by
  unfold bitAt
  rw [getD_eq_getElem?_getD, getD_eq_getElem?_getD, getElem?_set]
  by_cases h : p = i / w
  · rw [if_pos h, if_pos hp, if_pos h.symm, Option.getD_some]
  · rw [if_neg h, if_neg (fun h' => h h'.symm)]

/-! ## Searching one word -/

def firstSet (v : BitVec w) : Option Nat :=
  (List.range w).find? (fun k => v.getLsbD k)

theorem firstSet_eq_some {v : BitVec w} {k : Nat} (h : firstSet v = some k) :
    k < w ∧ v.getLsbD k = true ∧ ∀ j < k, v.getLsbD j = false := by
  obtain ⟨hbit, hmem, hmin⟩ := find?_range_eq_some.mp h
  refine ⟨mem_range.mp hmem, hbit, ?_⟩
  intro j hj
  simpa using hmin j hj

theorem exists_firstSet {v : BitVec w} (h : v ≠ 0#w) : ∃ k, firstSet v = some k := by
  rw [← Option.isSome_iff_exists]
  unfold firstSet
  rw [find?_isSome]
  by_contra hnone
  apply h
  apply BitVec.eq_of_getLsbD_eq
  intro i hi
  have hi' : ¬ v.getLsbD i = true := fun hb => hnone ⟨i, mem_range.mpr hi, hb⟩
  simpa using hi'

/-! ## Bounded forward search -/

/-- `r` answers the search for the first index in `[start, size)` satisfying `P`: nothing
before `r` satisfies it, and `r` does if it is in range. A failed search may return any
index at or past `size`. -/
structure IsNext (P : Nat → Bool) (start size r : Nat) : Prop where
  le : start ≤ r ∨ size ≤ r
  miss : ∀ i, start ≤ i → i < r → i < size → P i = false
  hit : r < size → P r = true

variable {P : Nat → Bool} {start size r n : Nat}

theorem IsNext.of_skip {mid : Nat} (hmid : start ≤ mid)
    (hskip : ∀ i, start ≤ i → i < mid → i < size → P i = false) (h : IsNext P mid size r) :
    IsNext P start size r := by
  refine ⟨?_, ?_, h.hit⟩
  · rcases h.le with hle | hle
    · exact Or.inl (by omega)
    · exact Or.inr hle
  · intro i hstart hi hsize
    by_cases hlt : i < mid
    · exact hskip i hstart hlt hsize
    · exact h.miss i (by omega) hi hsize

theorem IsNext.start_le (h : IsNext P start size r) (hr : r < size) : start ≤ r := by
  rcases h.le with hle | hle
  · exact hle
  · omega

theorem IsNext.none (h : IsNext P start size r) (hr : size ≤ r) :
    ∀ i, start ≤ i → i < size → P i = false :=
  fun i hi hs => h.miss i hi (by omega) hs

theorem IsNext.at_end (P : Nat → Bool) (h : size ≤ start) : IsNext P start size size := by
  refine ⟨Or.inr (Nat.le_refl _), ?_, ?_⟩
  · intro i hi hlt _
    omega
  · intro hlt
    omega

/-! ## Runs of clear bits and range writes -/

def FreeRun (P : Nat → Bool) (start n : Nat) : Prop :=
  ∀ i, start ≤ i → i < start + n → P i = false

theorem FreeRun.next_le {j : Nat} (hrun : FreeRun P j n) (h : IsNext (fun i => !P i) start size r)
    (hn : 0 < n) (hj : start ≤ j) (hsize : j < size) : r ≤ j := by
  by_contra hlt
  have hset := h.miss j hj (by omega) hsize
  have hclear := hrun j (by omega) (by omega)
  simp [hclear] at hset

theorem FreeRun.lt_of_set {index i j : Nat} (hrun : FreeRun P j n) (hj : index ≤ j)
    (hi : i < index + n) (hset : P i = true) : i < j := by
  by_contra hle
  have hclear := hrun i (by omega) (by omega)
  rw [hset] at hclear
  cases hclear

def FillsRange (b : Bool) (P Q : Nat → Bool) (start n : Nat) : Prop :=
  ∀ i, Q i = if start ≤ i ∧ i < start + n then b else P i

theorem FillsRange.inside {b : Bool} {Q : Nat → Bool} {i : Nat} (h : FillsRange b P Q start n)
    (hlo : start ≤ i) (hhi : i < start + n) : Q i = b := by
  rw [h i, if_pos ⟨hlo, hhi⟩]

theorem FillsRange.empty (b : Bool) (P : Nat → Bool) (start : Nat) :
    FillsRange b P P start 0 := by
  intro i
  rw [if_neg (by omega)]

theorem FillsRange.append {b : Bool} {Q R : Nat → Bool} {m : Nat} (h₁ : FillsRange b P Q start m)
    (h₂ : FillsRange b Q R (start + m) n) : FillsRange b P R start (m + n) := by
  intro i
  rw [h₂ i, h₁ i]
  by_cases hhi : start + m ≤ i ∧ i < start + m + n
  · rw [if_pos hhi, if_pos (by omega)]
  · rw [if_neg hhi]
    by_cases hlo : start ≤ i ∧ i < start + m
    · rw [if_pos hlo, if_pos (by omega)]
    · rw [if_neg hlo, if_neg (by omega)]

/-! ## Counting set bits in a range -/

def setCount (P : Nat → Bool) (start n : Nat) : Nat :=
  (List.range' start n).countP P

theorem setCount_append (P : Nat → Bool) (start m n : Nat) :
    setCount P start (m + n) = setCount P start m + setCount P (start + m) n := by
  unfold setCount
  rw [← List.range'_append_1, countP_append]

theorem setCount_eq_zero : setCount P start n = 0 ↔ FreeRun P start n := by
  unfold setCount FreeRun
  rw [countP_eq_zero]
  constructor
  · intro h i hlo hhi
    simpa using h i (mem_range'_1.mpr ⟨hlo, hhi⟩)
  · intro h i hi
    obtain ⟨hlo, hhi⟩ := mem_range'_1.mp hi
    simp [h i hlo hhi]

theorem setCount_of_isNext {stop : Nat} (h : IsNext P start size r) (hstop : stop ≤ size)
    (hr : r < stop) :
    setCount P start (stop - start) = setCount P (r + 1) (stop - (r + 1)) + 1 := by
  have hle : start ≤ r := h.start_le (by omega)
  have hfree : setCount P start (r - start) = 0 :=
    setCount_eq_zero.mpr (fun i hlo hhi => h.miss i hlo (by omega) (by omega))
  have hone : setCount P r 1 = 1 := by
    simp [setCount, List.range'_one, h.hit (by omega)]
  calc setCount P start (stop - start)
      = setCount P start (r - start + (1 + (stop - (r + 1)))) := by congr 1; omega
    _ = setCount P r 1 + setCount P (r + 1) (stop - (r + 1)) := by
        rw [setCount_append, hfree, show start + (r - start) = r from by omega,
          setCount_append, Nat.zero_add]
    _ = setCount P (r + 1) (stop - (r + 1)) + 1 := by rw [hone, Nat.add_comm]

theorem setCount_of_isNext_none {stop : Nat} (h : IsNext P start size r) (hstop : stop ≤ size)
    (hr : stop ≤ r) : setCount P start (stop - start) = 0 :=
  setCount_eq_zero.mpr (fun i hlo hhi => h.miss i hlo (by omega) (by omega))

end WordBits
