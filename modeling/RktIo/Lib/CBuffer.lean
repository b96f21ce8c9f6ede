import RktIo.Lib.CString

/-!
# Character buffers

A string in memory, as the characters of its buffer up to and including the terminator; a pointer
is an index. Looking for a character fails if the end of the buffer is passed on the way, for what
is behind it is not part of the string.

* **`scan_append`** — what is looked for is found behind characters that are passed;
* **`scan_of_forall`** — if all characters are passed, so is the end;
* **`strAt_append`** — the string at a pointer goes up to the next terminator.
-/

namespace CBuffer

open List

def nul : Char := Char.ofNat 0

def scan (stop : Char → Bool) (buf : List Char) (p : Nat) : Option Nat :=
  ((buf.drop p).findIdx? stop).map (p + ·)

def strchrnul (buf : List Char) (c : Char) (p : Nat) : Option Nat :=
  scan (fun d => d == c || d == nul) buf p

def strAt (buf : List Char) (p : Nat) : List Char := (buf.drop p).takeWhile (fun d => d != nul)

variable {stop : Char → Bool} {l t r : List Char} {c d : Char}

theorem scan_append (ht : ∀ d ∈ t, stop d = false) (hd : stop d = true) :
    scan stop (l ++ (t ++ d :: r)) l.length = some (l.length + t.length) := by
  have hidx : (t ++ d :: r).findIdx? stop = some t.length := by
    induction t with
    | nil => simp [findIdx?_cons, hd]
    | cons c t ih =>
      rw [forall_mem_cons] at ht
      rw [cons_append, findIdx?_cons, ht.1, ih ht.2]
      rfl
  rw [scan, drop_left, hidx]
  rfl

theorem scan_skip {kind : Char → Bool} (hd : kind d = false) :
    scan (fun c => !kind c) (l ++ (t ++ d :: r)) l.length
      = some (l ++ t.takeWhile kind).length := by
  have hskip : ∀ c ∈ t.takeWhile kind, (!kind c) = false := by
    intro c hc
    rw [mem_takeWhile_imp hc]
    rfl
  have hsplit : t ++ d :: r = t.takeWhile kind ++ (t.dropWhile kind ++ d :: r) := by
    rw [← append_assoc, takeWhile_append_dropWhile]
  rw [length_append, hsplit]
  cases hrest : t.dropWhile kind with
  | nil => exact scan_append hskip (by simp [hd])
  | cons e es =>
    have he := head?_dropWhile_not kind t
    rw [hrest] at he
    exact scan_append hskip (by simpa using he)

theorem scan_of_forall (ht : ∀ d ∈ t, stop d = false) : scan stop (l ++ t) l.length = none := by
  rw [scan, drop_left, findIdx?_eq_none_iff.mpr ht]
  rfl

theorem strchrnul_append (hc : c ∉ t) (hnul : nul ∉ t) (hd : d = c ∨ d = nul) :
    strchrnul (l ++ (t ++ d :: r)) c l.length = some (l.length + t.length) := by
  refine scan_append (fun e he => ?_) ?_
  · rw [Bool.or_eq_false_iff, beq_eq_false_iff_ne, beq_eq_false_iff_ne]
    exact ⟨ne_of_mem_of_not_mem he hc, ne_of_mem_of_not_mem he hnul⟩
  · rcases hd with rfl | rfl <;> simp

theorem strchrnul_length (buf : List Char) (c : Char) : strchrnul buf c buf.length = none := by
  have h := @scan_of_forall (fun d => d == c || d == nul) buf [] (by simp)
  rwa [append_nil] at h

theorem strAt_append (hnul : nul ∉ t) : strAt (l ++ (t ++ nul :: r)) l.length = t := by
  have hall : ∀ d ∈ t, (d != nul) = true := fun d hd =>
    bne_iff_ne.mpr (ne_of_mem_of_not_mem hd hnul)
  rw [strAt, drop_left, takeWhile_append_of_pos hall,
    takeWhile_cons_of_neg (by simp), append_nil]

theorem set_append : (l ++ (t ++ d :: r)).set (l.length + t.length) c = l ++ (t ++ c :: r) := by
  rw [set_append_right _ _ (by omega), Nat.add_sub_cancel_left,
    set_append_right _ _ le_rfl, Nat.sub_self, set_cons_zero]

end CBuffer
