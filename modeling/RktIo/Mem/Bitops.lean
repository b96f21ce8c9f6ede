import RktIo.Lib.WordBits

/-!
# Bitmap operations (`src/include/bitops.h`)

The enclave page allocator keeps its pages in an array of `unsigned long`. This module
embeds the operations it uses: the two forward searches `find_next_bit` and
`find_next_zero_bit`, and the two range writes `bitmap_set` and `bitmap_clear`.

The two searches differ only in how a word is loaded (`*addr` or `~(*addr)`) and the two
writes only in how a mask is applied (`|=` or `&= ~`), so each pair is one definition with
that operation as a parameter.

Shifts are the x86-64 instructions: the count is taken modulo 64. `BITMAP_LAST_WORD_MASK`
is applied to a bit count that may exceed 64 (`size` in `bitmap_set`), where only this
reading gives the mask of the last word.

The `int` locals of the searches never leave `[0, 2^31)` for bitmaps below `2^31` bits, the
sizes the allocator hands them, so they are natural numbers here. The `int` *parameters* of
the range writes are integers: the allocator truncates 64-bit page counts into them.
-/

namespace RktIo.Mem

open WordBits BitVec

abbrev Word := BitVec 64

def bitmapFirstWordMask (start : Int) : Word :=
  BitVec.allOnes 64 <<< (start.tmod 64 % 64).toNat

def bitmapLastWordMask (n : Int) : Word :=
  BitVec.allOnes 64 >>> ((64 - n) % 64).toNat

def ffsl (mask : Word) : Nat := (firstSet mask).getD 0

/-! ## The searches -/

/-- The `for (size -= bit; size >= BITS_PER_LONG; ..)` loop of a search and its tail:
`full` whole words are left from word `p` (first bit `bit`), then `size` bits of one more. -/
def findNextWords (load : Word → Word) (addr : List Word) : Nat → Nat → Nat → Nat → Nat
  | 0, p, bit, size =>
    if size = 0 then bit
    else
      let mask := load (addr.getD p 0#64) &&& bitmapLastWordMask size
      if mask = 0 then bit + size else bit + ffsl mask
  | full + 1, p, bit, size =>
    if load (addr.getD p 0#64) = 0 then findNextWords load addr full (p + 1) (bit + 64) size
    else bit + ffsl (load (addr.getD p 0#64))

def findNext (load : Word → Word) (addr : List Word) (size offset : Nat) : Nat :=
  if offset ≥ size then size
  else
    let pos := offset / 64
    let offs := offset % 64
    let bit := 64 * pos
    if offs ≠ 0 then
      let mask := load (addr.getD pos 0#64) &&& ~~~ bitmapLastWordMask offs
      if mask ≠ 0 then bit + ffsl mask
      else if size - bit ≤ 64 then size
      else
        findNextWords load addr ((size - (bit + 64)) / 64) (pos + 1) (bit + 64)
          ((size - (bit + 64)) % 64)
    else findNextWords load addr ((size - bit) / 64) pos bit ((size - bit) % 64)

def findNextBit : List Word → Nat → Nat → Nat := findNext id

def findNextZeroBit : List Word → Nat → Nat → Nat := findNext (~~~ ·)

/-! ## The range writes -/

def rmwAt (upd : Word → Word → Word) (map : List Word) (p : Int) (mask : Word) :
    Option (List Word) :=
  if 0 ≤ p ∧ p.toNat < map.length then
    some (map.set p.toNat (upd (map.getD p.toNat 0#64) mask))
  else none

/-- The `while` loop and the tail of a range write, from the pointer `p` on. The loop
consumes at least one bit a turn, so fuel above `nr` is never exhausted. -/
def bitmapWalk (upd : Word → Word → Word) (size : Int) :
    Nat → List Word → Int → Int → Int → Word → Option (List Word)
  | 0, _, _, _, _, _ => none
  | fuel + 1, map, p, nr, bits, mask =>
    if nr - bits ≥ 0 then do
      let map ← rmwAt upd map p mask
      bitmapWalk upd size fuel map (p + 1) (nr - bits) 64 (BitVec.allOnes 64)
    else if nr ≠ 0 then rmwAt upd map p (mask &&& bitmapLastWordMask size)
    else some map

def bitmapUpdate (upd : Word → Word → Word) (map : List Word) (start nr : Int) :
    Option (List Word) :=
  bitmapWalk upd (start + nr) (nr.toNat + 1) map (start.tdiv 64) nr (64 - start.tmod 64)
    (bitmapFirstWordMask start)

def bitmapSet : List Word → Int → Int → Option (List Word) :=
  bitmapUpdate (fun old mask => old ||| mask)

def bitmapClear : List Word → Int → Int → Option (List Word) :=
  bitmapUpdate (fun old mask => old &&& ~~~ mask)

/-! ## Masks, bit by bit -/

theorem getLsbD_shiftLeft_allOnes {off k : Nat} (hk : k < 64) :
    (BitVec.allOnes 64 <<< off).getLsbD k = decide (off ≤ k) := by
  rw [getLsbD_shiftLeft, getLsbD_allOnes]
  by_cases h : off ≤ k
  · simp [hk, h, show k - off < 64 from by omega]
  · simp [h, show k < off from by omega]

theorem getLsbD_bitmapLastWordMask {n k : Nat} (hn : n % 64 ≠ 0) :
    (bitmapLastWordMask n).getLsbD k = decide (k < n % 64) := by
  unfold bitmapLastWordMask
  have hcount : ((64 - (n : Int)) % 64).toNat = 64 - n % 64 := by omega
  rw [hcount, getLsbD_ushiftRight, getLsbD_allOnes]
  by_cases h : k < n % 64
  · simp [h, show 64 - n % 64 + k < 64 from by omega]
  · simp [h, show ¬ 64 - n % 64 + k < 64 from by omega]

theorem bitmapFirstWordMask_natCast (start : Nat) :
    bitmapFirstWordMask start = BitVec.allOnes 64 <<< (start % 64) := by
  unfold bitmapFirstWordMask
  rw [show ((start : Int).tmod 64 % 64).toNat = start % 64 from by
    rw [Int.tmod_eq_emod_of_nonneg (by omega)]; omega]

variable {mask : Word}

theorem ffsl_spec (h : mask ≠ 0) :
    ffsl mask < 64 ∧ mask.getLsbD (ffsl mask) = true
      ∧ ∀ j < ffsl mask, mask.getLsbD j = false := by
  obtain ⟨k, hk⟩ := exists_firstSet h
  have hffs : ffsl mask = k := by rw [ffsl, hk, Option.getD_some]
  rw [hffs]
  exact firstSet_eq_some hk

/-! ## What the searches return

`seen load addr i` is the bit at index `i` of the loaded words: the bit itself for
`find_next_bit`, its complement for `find_next_zero_bit`. -/

def seen (load : Word → Word) (addr : List Word) (i : Nat) : Bool :=
  (load (addr.getD (i / 64) 0#64)).getLsbD (i % 64)

theorem seen_not (addr : List Word) (i : Nat) :
    seen (~~~ ·) addr i = !(bitAt addr i) := by
  unfold seen bitAt
  rw [getLsbD_not, decide_eq_true (Nat.mod_lt i (by decide)), Bool.true_and]

section

variable (load : Word → Word) (addr : List Word)

include load addr

theorem seen_mul_add {p k : Nat} (hk : k < 64) :
    seen load addr (64 * p + k) = (load (addr.getD p 0#64)).getLsbD k := by
  unfold seen
  rw [show (64 * p + k) / 64 = p from by omega, show (64 * p + k) % 64 = k from by omega]

theorem isNext_of_masked (size : Nat) {p lo hi : Nat}
    (hmask : ∀ k < 64, mask.getLsbD k = ((load (addr.getD p 0#64)).getLsbD k && decide (lo ≤ k ∧ k < hi)))
    (hne : mask ≠ 0) : IsNext (seen load addr) (64 * p + lo) size (64 * p + ffsl mask) := by
  obtain ⟨hlt, hset, hmin⟩ := ffsl_spec hne
  rw [hmask _ hlt] at hset
  simp only [Bool.and_eq_true, decide_eq_true_eq] at hset
  refine ⟨Or.inl (by omega), ?_, ?_⟩
  · intro i hstart hi' _
    obtain ⟨k, rfl⟩ : ∃ k, i = 64 * p + k := ⟨i - 64 * p, by omega⟩
    have hk := hmin k (by omega)
    rw [hmask k (by omega)] at hk
    rw [seen_mul_add load addr (by omega)]
    simpa [show lo ≤ k ∧ k < hi from by omega] using hk
  · intro _
    rw [seen_mul_add load addr hlt]
    exact hset.1

theorem seen_eq_false_of_masked {p lo hi : Nat}
    (hmask : ∀ k < 64, mask.getLsbD k = ((load (addr.getD p 0#64)).getLsbD k && decide (lo ≤ k ∧ k < hi)))
    (hz : mask = 0) (hhi : hi ≤ 64) {i : Nat} (hlo : 64 * p + lo ≤ i) (hi' : i < 64 * p + hi) :
    seen load addr i = false := by
  obtain ⟨k, rfl⟩ : ∃ k, i = 64 * p + k := ⟨i - 64 * p, by omega⟩
  have hk := hmask k (by omega)
  rw [hz] at hk
  rw [seen_mul_add load addr (by omega)]
  simpa [show lo ≤ k ∧ k < hi from by omega] using hk.symm

/-- **The word loop.** From word `p` on, with `full` whole words and then `rem` bits left,
the loop answers the search that starts at bit `64 * p`. Induction on `full`. -/
theorem findNextWords_isNext :
    ∀ full p rem, rem < 64 →
      IsNext (seen load addr) (64 * p) (64 * p + 64 * full + rem)
        (findNextWords load addr full p (64 * p) rem) := by
  intro full
  induction full with
  | zero =>
    intro p rem hrem
    unfold findNextWords
    by_cases hz : rem = 0
    · rw [if_pos hz]
      exact ⟨Or.inl (Nat.le_refl _), by intro i _ _ _; omega, by intro h; omega⟩
    · rw [if_neg hz]
      have hmask : ∀ k < 64, (load (addr.getD p 0#64) &&& bitmapLastWordMask rem).getLsbD k
          = ((load (addr.getD p 0#64)).getLsbD k && decide (0 ≤ k ∧ k < rem)) := by
        intro k hk
        rw [getLsbD_and, getLsbD_bitmapLastWordMask (by omega),
          Nat.mod_eq_of_lt hrem]
        simp
      simp only
      split
      · rename_i hzero
        refine ⟨Or.inl (by omega), ?_, by intro h; omega⟩
        intro i hlo hhi _
        exact seen_eq_false_of_masked load addr hmask hzero (by omega) (by omega) hhi
      · rename_i hne
        exact isNext_of_masked load addr _ hmask hne
  | succ full ih =>
    intro p rem hrem
    unfold findNextWords
    have hmask : ∀ k < 64, (load (addr.getD p 0#64)).getLsbD k
        = ((load (addr.getD p 0#64)).getLsbD k && decide (0 ≤ k ∧ k < 64)) := by
      intro k hk
      simp [hk]
    by_cases hz : load (addr.getD p 0#64) = 0
    · -- an empty word is skipped whole
      rw [if_pos hz]
      have h := ih (p + 1) rem hrem
      rw [show 64 * (p + 1) + 64 * full + rem = 64 * p + 64 * (full + 1) + rem from by omega,
        show 64 * (p + 1) = 64 * p + 64 from by omega] at h
      refine IsNext.of_skip (by omega) ?_ h
      intro i hlo hhi _
      exact seen_eq_false_of_masked load addr hmask hz (Nat.le_refl _) (by omega) hhi
    · rw [if_neg hz]
      exact isNext_of_masked load addr _ hmask hz

/-- **The searches are exact.** `findNext` answers the search for the first bit at or after
`offset` that the load sees set. -/
theorem findNext_isNext (size offset : Nat) :
    IsNext (seen load addr) offset size (findNext load addr size offset) := by
  unfold findNext
  by_cases hge : offset ≥ size
  · rw [if_pos hge]
    exact IsNext.at_end _ hge
  · rw [if_neg hge]
    simp only
    have hdiv : 64 * (offset / 64) + offset % 64 = offset := by omega
    by_cases hoffs : offset % 64 = 0
    · -- a search that starts on a word boundary goes straight to the loop
      rw [if_neg (by simpa using hoffs)]
      have h := findNextWords_isNext load addr ((size - 64 * (offset / 64)) / 64) (offset / 64)
        ((size - 64 * (offset / 64)) % 64) (by omega)
      rw [show 64 * (offset / 64) + 64 * ((size - 64 * (offset / 64)) / 64)
          + (size - 64 * (offset / 64)) % 64 = size from by omega] at h
      rwa [show 64 * (offset / 64) = offset from by omega] at h ⊢
    · rw [if_pos hoffs]
      have hmask : ∀ k < 64,
          (load (addr.getD (offset / 64) 0#64) &&& ~~~ bitmapLastWordMask (offset % 64 : Nat)).getLsbD k
            = ((load (addr.getD (offset / 64) 0#64)).getLsbD k
                && decide (offset % 64 ≤ k ∧ k < 64)) := by
        intro k hk
        rw [getLsbD_and, getLsbD_not,
          getLsbD_bitmapLastWordMask (by omega), Nat.mod_mod]
        by_cases h : offset % 64 ≤ k
        · simp [hk, h, show ¬ k < offset % 64 from by omega]
        · simp [h, show k < offset % 64 from by omega]
      split
      · rename_i hne
        have h := isNext_of_masked load addr size hmask hne
        rwa [hdiv] at h
      · rename_i hzero
        have hzero' : load (addr.getD (offset / 64) 0#64)
            &&& ~~~ bitmapLastWordMask (offset % 64 : Nat) = 0 := by
          simpa using hzero
        have hskip : ∀ i, offset ≤ i → i < 64 * (offset / 64) + 64 → i < size →
            seen load addr i = false := by
          intro i hlo hhi _
          exact seen_eq_false_of_masked load addr hmask hzero' (Nat.le_refl _) (by omega) hhi
        split
        · -- the range ends inside this word
          refine ⟨Or.inr (Nat.le_refl _), ?_, by intro h; omega⟩
          intro i hlo _ hsize
          exact hskip i hlo (by omega) hsize
        · rename_i hlong
          have h := findNextWords_isNext load addr ((size - (64 * (offset / 64) + 64)) / 64)
            (offset / 64 + 1) ((size - (64 * (offset / 64) + 64)) % 64) (by omega)
          rw [show 64 * (offset / 64 + 1) = 64 * (offset / 64) + 64 from by omega,
            show 64 * (offset / 64) + 64 + 64 * ((size - (64 * (offset / 64) + 64)) / 64)
              + (size - (64 * (offset / 64) + 64)) % 64 = size from by omega] at h
          exact IsNext.of_skip (by omega) hskip h

end

theorem findNextBit_isNext (addr : List Word) (size offset : Nat) :
    IsNext (bitAt addr) offset size (findNextBit addr size offset) :=
  findNext_isNext id addr size offset

theorem findNextZeroBit_isNext (addr : List Word) (size offset : Nat) :
    IsNext (fun i => !(bitAt addr i)) offset size (findNextZeroBit addr size offset) := by
  have h := findNext_isNext (~~~ ·) addr size offset
  rwa [show seen (~~~ ·) addr = fun i => !(bitAt addr i) from funext (seen_not addr)] at h

section

variable (load : Word → Word) (addr : List Word)

include load addr

theorem findNextWords_lt :
    ∀ full p bit rem, findNextWords load addr full p bit rem < bit + 64 * full + rem + 64 := by
  intro full
  induction full with
  | zero =>
    intro p bit rem
    unfold findNextWords
    simp only
    split
    · omega
    · split
      · omega
      · rename_i hne
        have := (ffsl_spec hne).1
        omega
  | succ full ih =>
    intro p bit rem
    unfold findNextWords
    split
    · have := ih (p + 1) (bit + 64) rem
      omega
    · rename_i hne
      have := (ffsl_spec hne).1
      omega

theorem findNext_lt (size offset : Nat) : findNext load addr size offset < size + 64 := by
  unfold findNext
  split
  · omega
  · simp only
    split
    · split
      · rename_i hne
        have := (ffsl_spec hne).1
        omega
      · split
        · omega
        · have := findNextWords_lt load addr ((size - (64 * (offset / 64) + 64)) / 64)
            (offset / 64 + 1) (64 * (offset / 64) + 64) ((size - (64 * (offset / 64) + 64)) % 64)
          omega
    · have := findNextWords_lt load addr ((size - 64 * (offset / 64)) / 64) (offset / 64)
        (64 * (offset / 64)) ((size - 64 * (offset / 64)) % 64)
      omega

theorem findNextWords_le {rem : Nat} (hrem : rem < 64) :
    ∀ full p bit, findNextWords load addr full p bit rem ≤ bit + 64 * full + rem := by
  intro full
  induction full with
  | zero =>
    intro p bit
    unfold findNextWords
    simp only
    split
    · omega
    · rename_i hpos
      split
      · omega
      · rename_i hne
        -- the bit that was found is under the mask of the last word
        have hbit := (ffsl_spec hne).2.1
        rw [getLsbD_and, Bool.and_eq_true, getLsbD_bitmapLastWordMask (by omega)] at hbit
        have hlt := of_decide_eq_true hbit.2
        omega
  | succ full ih =>
    intro p bit
    unfold findNextWords
    split
    · have := ih (p + 1) (bit + 64)
      omega
    · rename_i hne
      have := (ffsl_spec hne).1
      omega

theorem findNext_zero_le (size : Nat) : findNext load addr size 0 ≤ size := by
  unfold findNext
  split
  · omega
  · simp only [Nat.zero_mod, ne_eq, not_true_eq_false, if_false, Nat.zero_div, Nat.mul_zero,
      Nat.sub_zero]
    have := findNextWords_le load addr (show size % 64 < 64 by omega) (size / 64) 0 0
    omega

end

/-! ## What the range writes do

Both writes give every bit under the mask one value (`true` for `bitmap_set`, `false` for
`bitmap_clear`) and keep the rest; `Writes b upd` says so of the word operation. -/

def Writes (b : Bool) (upd : Word → Word → Word) : Prop :=
  ∀ old mask : Word, ∀ k < 64,
    (upd old mask).getLsbD k = if mask.getLsbD k then b else old.getLsbD k

theorem writes_or : Writes true (fun old mask => old ||| mask) := by
  intro old mask k _
  rw [getLsbD_or]
  cases mask.getLsbD k <;> simp

theorem writes_andNot : Writes false (fun old mask => old &&& ~~~ mask) := by
  intro old mask k hk
  rw [getLsbD_and, getLsbD_not]
  cases mask.getLsbD k <;> simp [hk]

variable {upd : Word → Word → Word}

theorem rmwAt_fills {b : Bool} (hupd : Writes b upd) (map : List Word) (p lo hi : Nat) (mask : Word)
    (hp : p < map.length) (hhi : hi ≤ 64) (hlo : lo ≤ hi)
    (hmask : ∀ k < 64, mask.getLsbD k = decide (lo ≤ k ∧ k < hi)) :
    ∃ map', rmwAt upd map p mask = some map' ∧ map'.length = map.length
      ∧ FillsRange b (bitAt map) (bitAt map') (64 * p + lo) (hi - lo) := by
  refine ⟨map.set p (upd (map.getD p 0#64) mask), ?_, List.length_set, ?_⟩
  · unfold rmwAt
    rw [Int.toNat_natCast, if_pos ⟨by omega, hp⟩]
  · intro i
    have hk : i % 64 < 64 := Nat.mod_lt _ (by decide)
    rw [bitAt_set map p _ i hp]
    by_cases hword : i / 64 = p
    · rw [if_pos hword, hupd _ _ _ hk, hmask _ hk]
      by_cases hin : lo ≤ i % 64 ∧ i % 64 < hi
      · rw [if_pos (by simpa using hin), if_pos (by omega)]
      · rw [if_neg (by simpa using hin), if_neg (by omega), ← hword]
        rfl
    · rw [if_neg hword, if_neg (by omega)]

theorem rmwAt_length {map map' : List Word} {p : Int} (h : rmwAt upd map p mask = some map') :
    map'.length = map.length := by
  unfold rmwAt at h
  split at h
  · rw [← Option.some.inj h, List.length_set]
  · cases h

theorem bitmapWalk_length {size : Int} :
    ∀ {fuel : Nat} {map map' : List Word} {p nr bits : Int} {mask : Word},
      bitmapWalk upd size fuel map p nr bits mask = some map' → map'.length = map.length := by
  intro fuel
  induction fuel with
  | zero => intro map map' p nr bits mask h; cases h
  | succ fuel ih =>
    intro map map' p nr bits mask h
    unfold bitmapWalk at h
    split at h
    · obtain ⟨map₁, hrmw, hwalk⟩ := Option.bind_eq_some_iff.mp h
      rw [ih hwalk, rmwAt_length hrmw]
    · split at h
      · exact rmwAt_length h
      · rw [Option.some.inj h]

theorem bitmapUpdate_length {map map' : List Word} {start nr : Int}
    (h : bitmapUpdate upd map start nr = some map') : map'.length = map.length :=
  bitmapWalk_length h

/-- **The write loop.** From bit `off` of word `p` on, the loop fills the next `nr` bits.
Induction on the fuel: a turn of the loop fills the rest of a word, and the tail fills the
beginning of the last one. -/
theorem bitmapWalk_fills {b : Bool} (hupd : Writes b upd) :
    ∀ (fuel : Nat) (map : List Word) (p off nr : Nat), nr < fuel → off < 64 →
      64 * p + off + nr ≤ 64 * map.length →
      ∃ map', bitmapWalk upd (64 * p + off + nr : Nat) fuel map p nr (64 - (off : Int))
            (BitVec.allOnes 64 <<< off) = some map'
        ∧ map'.length = map.length
        ∧ FillsRange b (bitAt map) (bitAt map') (64 * p + off) nr := by
  intro fuel
  induction fuel with
  | zero => intro map p off nr hfuel; omega
  | succ fuel ih =>
    intro map p off nr hfuel hoff hroom
    unfold bitmapWalk
    by_cases hloop : (nr : Int) - (64 - (off : Int)) ≥ 0
    · -- the range reaches the end of word `p`
      rw [if_pos hloop]
      obtain ⟨map₁, hrmw, hlen₁, hfill₁⟩ := rmwAt_fills hupd map p off 64
        (BitVec.allOnes 64 <<< off) (by omega) (Nat.le_refl _) (by omega)
        (by intro k hk; rw [getLsbD_shiftLeft_allOnes hk]; simp [hk])
      obtain ⟨map₂, hwalk, hlen₂, hfill₂⟩ := ih map₁ (p + 1) 0 (nr - (64 - off)) (by omega)
        (by omega) (by omega)
      rw [show ((64 * (p + 1) + 0 + (nr - (64 - off)) : Nat) : Int)
            = ((64 * p + off + nr : Nat) : Int) from by omega,
        show ((nr - (64 - off) : Nat) : Int) = (nr : Int) - (64 - (off : Int)) from by omega,
        show ((p + 1 : Nat) : Int) = (p : Int) + 1 from by omega,
        shiftLeft_zero] at hwalk
      refine ⟨map₂, ?_, by omega, ?_⟩
      · rw [hrmw]
        simpa using hwalk
      · rw [show 64 * (p + 1) + 0 = 64 * p + off + (64 - off) from by omega] at hfill₂
        have hfill := hfill₁.append hfill₂
        rwa [show 64 - off + (nr - (64 - off)) = nr from by omega] at hfill
    · rw [if_neg hloop]
      by_cases hnr : nr = 0
      · rw [if_neg (by simpa using hnr)]
        refine ⟨map, rfl, rfl, ?_⟩
        rw [hnr]
        exact FillsRange.empty _ _ _
      · -- the range ends inside word `p`
        rw [if_pos (by simpa using hnr)]
        have hend : (64 * p + off + nr) % 64 = off + nr := by omega
        obtain ⟨map', hrmw, hlen, hfill⟩ := rmwAt_fills hupd map p off (off + nr)
          (BitVec.allOnes 64 <<< off &&& bitmapLastWordMask (64 * p + off + nr : Nat))
          (by omega) (by omega) (by omega) (by
            intro k hk
            rw [getLsbD_and, getLsbD_shiftLeft_allOnes hk,
              getLsbD_bitmapLastWordMask (by omega), hend, ← Bool.decide_and])
        refine ⟨map', hrmw, hlen, ?_⟩
        rwa [show off + nr - off = nr from by omega] at hfill

/-- **The range writes are exact**: inside the bitmap they succeed and fill exactly the
requested bits, across any number of words. -/
theorem bitmapUpdate_fills {b : Bool} (hupd : Writes b upd) (map : List Word) {start nr : Nat}
    (hroom : start + nr ≤ 64 * map.length) :
    ∃ map', bitmapUpdate upd map start nr = some map' ∧ map'.length = map.length
      ∧ FillsRange b (bitAt map) (bitAt map') start nr := by
  have hdiv : 64 * (start / 64) + start % 64 = start := by omega
  have h := bitmapWalk_fills hupd (nr + 1) map (start / 64) (start % 64) nr (by omega)
    (by omega) (by omega)
  rw [hdiv] at h
  have htdiv : (start : Int).tdiv 64 = ((start / 64 : Nat) : Int) := by
    rw [Int.tdiv_eq_ediv_of_nonneg (by omega)]; omega
  have htmod : (start : Int).tmod 64 = ((start % 64 : Nat) : Int) := by
    rw [Int.tmod_eq_emod_of_nonneg (by omega)]; omega
  unfold bitmapUpdate
  rw [htdiv, htmod, bitmapFirstWordMask_natCast, Int.toNat_natCast,
    show (start : Int) + (nr : Int) = ((start + nr : Nat) : Int) from by omega]
  exact h

theorem bitmapSet_fills (map : List Word) {start nr : Nat}
    (hroom : start + nr ≤ 64 * map.length) :
    ∃ map', bitmapSet map start nr = some map' ∧ map'.length = map.length
      ∧ FillsRange true (bitAt map) (bitAt map') start nr :=
  bitmapUpdate_fills writes_or map hroom

theorem bitmapClear_fills (map : List Word) {start nr : Nat}
    (hroom : start + nr ≤ 64 * map.length) :
    ∃ map', bitmapClear map start nr = some map' ∧ map'.length = map.length
      ∧ FillsRange false (bitAt map) (bitAt map') start nr :=
  bitmapUpdate_fills writes_andNot map hroom

end RktIo.Mem
