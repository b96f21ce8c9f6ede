import RktIo.Lib.Bytes
import RktIo.Lib.Region

/-!
# Memory of which a part belongs to someone else

A memory has a byte for every address. The addresses outside a trusted part are under the control
of another party, which may change them between any two reads: a read there gives what that party
shows at the moment of the read (`seen`). Writes are lists of cells, and a later cell wins.

* **`write_apply`** — what an address holds after a list of writes;
* **`write_congr`** — equal writes keep two memories equal where they were equal;
* **`map_write_zip`** — what is written to distinct addresses is found there;
* **`loadWord_congr`**, **`fetch_congr`** — a read depends on its own bytes only.
-/

namespace SharedMem

open List

abbrev Memory := BitVec 64 → BitVec 8

variable {m m' : Memory} {inside : BitVec 64 → Bool} {x a : BitVec 64} {n : Nat}

def seen (inside : BitVec 64 → Bool) (m h : Memory) : Memory :=
  fun x => if inside x then m x else h x

def addrs (a : BitVec 64) (n : Nat) : List (BitVec 64) :=
  (List.range n).map (fun i => a + BitVec.ofNat 64 i)

@[simp] theorem length_addrs : (addrs a n).length = n := by
  simp [addrs]

theorem mem_addrs : x ∈ addrs a n ↔ Region.Mem a n x := by
  rw [Region.mem_iff_exists, addrs, mem_map]
  exact exists_congr fun i => by rw [mem_range, @eq_comm _ x]

theorem addrs_mono {k : Nat} (h : k ≤ n) (hx : x ∈ addrs a k) : x ∈ addrs a n := by
  rw [mem_addrs] at hx ⊢
  exact Nat.lt_of_lt_of_le hx h

theorem nodup_addrs (h : n ≤ 2 ^ 64) : (addrs a n).Nodup := by
  refine List.Nodup.map_on ?_ nodup_range
  intro i hi j hj heq
  have hi := mem_range.mp hi
  have hj := mem_range.mp hj
  have hword := add_left_cancel heq
  have hnat := congrArg BitVec.toNat hword
  rwa [BitVec.toNat_ofNat, BitVec.toNat_ofNat, Nat.mod_eq_of_lt (by omega),
    Nat.mod_eq_of_lt (by omega)] at hnat

def write (m : Memory) (cells : List (BitVec 64 × BitVec 8)) : Memory :=
  cells.foldl (fun m c => Function.update m c.1 c.2) m

theorem write_append (cs ds : List (BitVec 64 × BitVec 8)) :
    write m (cs ++ ds) = write (write m cs) ds :=
  foldl_append

theorem write_apply (cells : List (BitVec 64 × BitVec 8)) :
    write m cells x = (cells.reverse.lookup x).getD (m x) := by
  induction cells using List.reverseRecOn with
  | nil => rfl
  | append_singleton cs c ih =>
    rw [write_append, reverse_append]
    show Function.update (write m cs) c.1 c.2 x = ((c :: cs.reverse).lookup x).getD (m x)
    by_cases hx : x = c.1
    · subst hx
      rw [Function.update_self, lookup_cons, beq_self_eq_true]
      rfl
    · rw [Function.update_of_ne hx, ih, lookup_cons, beq_eq_false_iff_ne.mpr hx]

theorem write_congr {cells : List (BitVec 64 × BitVec 8)} (h : m x = m' x) :
    write m cells x = write m' cells x := by
  rw [write_apply, write_apply, h]

theorem lookup_eq_none {cells : List (BitVec 64 × BitVec 8)} (h : x ∉ cells.map Prod.fst) :
    cells.reverse.lookup x = none := by
  rw [lookup_eq_none_iff]
  intro c hc
  have hne : x ≠ c.1 := fun hx => h (mem_map.mpr ⟨c, mem_reverse.mp hc, hx.symm⟩)
  exact bne_iff_ne.mpr hne

theorem lookup_isSome {cells : List (BitVec 64 × BitVec 8)} (h : x ∈ cells.map Prod.fst) :
    ∃ v, cells.reverse.lookup x = some v := by
  obtain ⟨c, hc, rfl⟩ := mem_map.mp h
  cases hl : cells.reverse.lookup c.1 with
  | some v => exact ⟨v, rfl⟩
  | none =>
    have hne := lookup_eq_none_iff.mp hl c (mem_reverse.mpr hc)
    simp at hne

theorem write_of_notMem {cells : List (BitVec 64 × BitVec 8)} (h : x ∉ cells.map Prod.fst) :
    write m cells x = m x := by
  rw [write_apply, lookup_eq_none h, Option.getD_none]

def cells (a : BitVec 64) (bytes : List (BitVec 8)) : List (BitVec 64 × BitVec 8) :=
  (addrs a bytes.length).zip bytes

@[simp] theorem map_fst_cells (bytes : List (BitVec 8)) :
    (cells a bytes).map Prod.fst = addrs a bytes.length := by
  rw [cells, map_fst_zip]
  exact length_addrs.le

theorem map_write_zip {as : List (BitVec 64)} {bytes : List (BitVec 8)} (hnodup : as.Nodup)
    (hlen : bytes.length = as.length) : as.map (write m (as.zip bytes)) = bytes := by
  induction as generalizing m bytes with
  | nil =>
    rw [length_eq_zero_iff.mp hlen]
    rfl
  | cons a as ih =>
    cases bytes with
    | nil => cases hlen
    | cons b bytes =>
      obtain ⟨hnot, hnodup⟩ := nodup_cons.mp hnodup
      have hlen : bytes.length = as.length := Nat.succ.inj hlen
      have hfst : (as.zip bytes).map Prod.fst = as := map_fst_zip hlen.ge
      show write (Function.update m a b) (as.zip bytes) a ::
        as.map (write (Function.update m a b) (as.zip bytes)) = b :: bytes
      rw [ih hnodup hlen, write_of_notMem (by rwa [hfst]), Function.update_self]

/-! ## Words -/

@[irreducible] def loadWord (m : Memory) (a : BitVec 64) : BitVec 64 :=
  BitVec.ofNat 64 (Bytes.load (fun i => m (a + BitVec.ofNat 64 i)) 0 8)

theorem loadWord_congr (h : ∀ x, Region.Mem a 8 x → m x = m' x) : loadWord m a = loadWord m' a := by
  have hload : Bytes.load (fun i => m (a + BitVec.ofNat 64 i)) 0 8 =
      Bytes.load (fun i => m' (a + BitVec.ofNat 64 i)) 0 8 :=
    Bytes.load_congr fun i _ hi => h _ (Region.mem_iff_exists.mpr ⟨i, by omega, rfl⟩)
  rw [loadWord, loadWord, hload]

def wordBytes (v : BitVec 64) : List (BitVec 8) := (List.range 8).map (Bytes.byte v.toNat)

@[simp] theorem length_wordBytes (v : BitVec 64) : (wordBytes v).length = 8 := by
  simp [wordBytes]

/-! ## Copies -/

def fetch (inside : BitVec 64 → Bool) (m : Memory) (h : Nat → Memory) (a : BitVec 64) (n : Nat) :
    List (BitVec 8) :=
  (List.range n).map (fun i => seen inside m (h i) (a + BitVec.ofNat 64 i))

@[simp] theorem length_fetch {h : Nat → Memory} : (fetch inside m h a n).length = n := by
  simp [fetch]

theorem fetch_outside {h : Memory} (hout : ∀ x ∈ addrs a n, inside x = false) :
    fetch inside m (fun _ => h) a n = (addrs a n).map h := by
  rw [fetch, addrs, map_map]
  refine map_congr_left fun i hi => ?_
  have hx : a + BitVec.ofNat 64 i ∈ addrs a n := mem_map_of_mem hi
  exact if_neg (by rw [hout _ hx]; decide)

theorem loadWord_outside {h : Memory} (hout : ∀ x, Region.Mem a 8 x → inside x = false) :
    loadWord (seen inside m h) a = loadWord h a :=
  loadWord_congr fun x hx => if_neg (by rw [hout x hx]; decide)

end SharedMem
