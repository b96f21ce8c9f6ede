import Mathlib

/-!
# C strings

The string functions of the C library, on lists of characters. A list is the contents of a
string up to its terminating NUL; a buffer with NULs in it is cut by `content`.

* **`strtoull_decimal`**, **`strtol_decimal`** — in front of something else, digits are read up to
  where they end.
* **`strsep_cases`**, **`splitOn_eq_strsep`** — a text up to its first separator, as the step of a
  loop over the parts.
-/

namespace CString

open List

/-! ## Buffers -/

def content (buf : List Char) : List Char := buf.takeWhile (fun c => c.toNat != 0)

def strstr (needle : List Char) : List Char → Option (List Char)
  | [] => if needle = [] then some [] else none
  | c :: s => if needle.isPrefixOf (c :: s) then some (c :: s) else strstr needle s

def before (c : Char) (s : List Char) : Option (List Char) :=
  if c ∈ s then some (s.takeWhile (fun d => d != c)) else none

def strsep (c : Char) : List Char → List Char × Option (List Char)
  | [] => ([], none)
  | d :: s => if d = c then ([], some s) else (d :: (strsep c s).1, (strsep c s).2)

def startsWith (t s : List Char) : Bool := t.isPrefixOf s

/-! ## Numbers -/

def isspace (c : Char) : Bool := c.toNat == 32 || (decide (9 ≤ c.toNat) && decide (c.toNat ≤ 13))

def digitVal (c : Char) : Nat :=
  if 48 ≤ c.toNat ∧ c.toNat ≤ 57 then c.toNat - 48
  else if 97 ≤ c.toNat ∧ c.toNat ≤ 122 then c.toNat - 87
  else if 65 ≤ c.toNat ∧ c.toNat ≤ 90 then c.toNat - 55
  else 36

def numeral (base : Nat) (s : List Char) : Nat :=
  s.foldl (fun v c => v * base + digitVal c) 0

/-- What `strtoull` returns: the value, how many characters it consumed, and whether it set
`errno` to `ERANGE`. -/
structure Strtoull where
  value : Nat
  consumed : Nat
  erange : Bool
  deriving Repr, DecidableEq

def signOf : List Char → Bool × List Char
  | '-' :: s => (true, s)
  | '+' :: s => (false, s)
  | s => (false, s)

def skipHexMark (base : Nat) : List Char → List Char
  | '0' :: x :: d :: s =>
    if base = 16 ∧ (x = 'x' ∨ x = 'X') ∧ digitVal d < 16 then d :: s else '0' :: x :: d :: s
  | s => s

def strtoull (base : Nat) (s : List Char) : Strtoull :=
  let (neg, t) := signOf (s.dropWhile isspace)
  let t := skipHexMark base t
  let digits := t.takeWhile (fun c => decide (digitVal c < base))
  if digits = [] then ⟨0, 0, false⟩
  else
    let consumed := s.length - (t.length - digits.length)
    let v := numeral base digits
    if v ≥ 2 ^ 64 then ⟨2 ^ 64 - 1, consumed, true⟩
    else ⟨if neg then (2 ^ 64 - v) % 2 ^ 64 else v, consumed, false⟩

/-- What `strtol` returns: the value and how many characters it consumed. -/
structure Strtol where
  value : Int
  consumed : Nat
  deriving Repr, DecidableEq

def strtol (base : Nat) (s : List Char) : Strtol :=
  let (neg, t) := signOf (s.dropWhile isspace)
  let t := skipHexMark base t
  let digits := t.takeWhile (fun c => decide (digitVal c < base))
  if digits = [] then ⟨0, 0⟩
  else
    let consumed := s.length - (t.length - digits.length)
    let v := numeral base digits
    if neg then ⟨-(min v (2 ^ 63) : Nat), consumed⟩ else ⟨(min v (2 ^ 63 - 1) : Nat), consumed⟩

/-! ## What they do on well-formed input -/

variable {c : Char} {s : List Char}

theorem startsWith_snoc_iff {t : List Char} (ht : c ∉ t) :
    startsWith (t ++ [c]) s = true ↔ before c s = some t := by
  have hiff : startsWith (t ++ [c]) s = true ↔ c ∈ s ∧ s.takeWhile (fun d => d != c) = t := by
    rw [startsWith, isPrefixOf_iff_prefix]
    induction t generalizing s with
    | nil =>
      cases s with
      | nil => simp
      | cons d s =>
        rcases eq_or_ne d c with rfl | hne
        · simp
        · simp [hne, hne.symm]
    | cons b t ih =>
      rw [mem_cons, not_or] at ht
      obtain ⟨hbc, ht⟩ := ht
      cases s with
      | nil => simp
      | cons d s =>
        rcases eq_or_ne d c with rfl | hne
        · simp [Ne.symm hbc]
        · rw [cons_append, cons_prefix_cons, ih ht, takeWhile_cons,
            if_pos (by simpa using hne), List.cons.injEq, mem_cons]
          constructor
          · rintro ⟨rfl, hmem, htake⟩
            exact ⟨Or.inr hmem, rfl, htake⟩
          · rintro ⟨hmem, rfl, htake⟩
            exact ⟨rfl, hmem.resolve_left hne.symm, htake⟩
  rw [hiff, before]
  split
  · rename_i hmem
    simp [hmem]
  · rename_i hmem
    simp [hmem]

theorem strsep_of_not_mem (h : c ∉ s) : strsep c s = (s, none) := by
  induction s with
  | nil => rfl
  | cons d s ih =>
    rw [mem_cons, not_or] at h
    rw [strsep, if_neg (Ne.symm h.1), ih h.2]

theorem strsep_append {t : List Char} (h : c ∉ t) (s : List Char) :
    strsep c (t ++ c :: s) = (t, some s) := by
  induction t with
  | nil => rw [nil_append, strsep, if_pos rfl]
  | cons d t ih =>
    rw [mem_cons, not_or] at h
    rw [cons_append, strsep, if_neg (Ne.symm h.1), ih h.2]

theorem strsep_cases (c : Char) (s : List Char) :
    (c ∉ s ∧ strsep c s = (s, none))
      ∨ ∃ t r, c ∉ t ∧ s = t ++ c :: r ∧ strsep c s = (t, some r) := by
  by_cases h : c ∈ s
  · obtain ⟨t, r, rfl, ht⟩ := eq_append_cons_of_mem h
    exact Or.inr ⟨t, r, ht, rfl, strsep_append ht r⟩
  · exact Or.inl ⟨h, strsep_of_not_mem h⟩

theorem splitOn_eq_strsep (c : Char) (s : List Char) :
    s.splitOn c = (strsep c s).1 :: (strsep c s).2.elim [] (List.splitOn c) := by
  rcases strsep_cases c s with ⟨hc, hsep⟩ | ⟨t, r, hc, rfl, hsep⟩
  · rw [hsep, List.splitOn, splitOnP_eq_singleton]
    · rfl
    · intro d hd
      exact beq_false_of_ne (fun heq => hc (heq ▸ hd))
  · rw [hsep, List.splitOn, splitOnP_append_cons_of_forall_mem]
    · rfl
    · intro d hd
      exact beq_false_of_ne (fun heq => hc (heq ▸ hd))
    · exact beq_self_eq_true c

theorem not_isspace_of_digit (h : digitVal c < 36) : isspace c = false := by
  unfold digitVal at h
  unfold isspace
  simp only [Bool.or_eq_false_iff, Bool.and_eq_false_iff, beq_eq_false_iff_ne,
    decide_eq_false_iff_not]
  split_ifs at h <;> omega

theorem signOf_of_digit (h : digitVal c < 36) :
    signOf (c :: s) = (false, c :: s) := by
  unfold signOf
  split
  · rename_i heq
    cases heq
    exact absurd h (by decide)
  · rename_i heq
    cases heq
    exact absurd h (by decide)
  · rfl

variable {base : Nat}

theorem skipHexMark_of_digits (hbase : base ≤ 16)
    (h : ∀ c ∈ s, digitVal c < base) : skipHexMark base s = s := by
  unfold skipHexMark
  split
  · rename_i x d s
    have hx := h x (by simp)
    rw [if_neg]
    rintro ⟨-, rfl | rfl, -⟩
    · have h33 : digitVal 'x' = 33 := by decide
      omega
    · have h33 : digitVal 'X' = 33 := by decide
      omega
  · rfl

theorem strtoull_of_digits (hbase : base ≤ 16) (hne : s ≠ []) (h : ∀ c ∈ s, digitVal c < base) :
    strtoull base s =
      if numeral base s < 2 ^ 64 then ⟨numeral base s, s.length, false⟩
      else ⟨2 ^ 64 - 1, s.length, true⟩ := by
  obtain ⟨c, s, rfl⟩ := exists_cons_of_ne_nil hne
  have hc : digitVal c < 36 := by
    have := h c (by simp)
    omega
  have hdrop : (c :: s).dropWhile isspace = c :: s :=
    dropWhile_cons_of_neg (by simp [not_isspace_of_digit hc])
  have htake : (c :: s).takeWhile (fun c => decide (digitVal c < base)) = c :: s := by
    rw [takeWhile_eq_self_iff]
    intro d hd
    exact decide_eq_true (h d hd)
  unfold strtoull
  rw [hdrop, signOf_of_digit hc]
  dsimp only
  rw [skipHexMark_of_digits hbase h, htake, if_neg (by simp)]
  simp only [Nat.sub_self, Nat.sub_zero, Bool.false_eq_true, if_false, ge_iff_le]
  split_ifs with h1 h2
  · omega
  · rfl
  · rfl
  · omega

theorem skipHexMark_of_ne (hbase : base ≠ 16) (s : List Char) :
    skipHexMark base s = s := by
  unfold skipHexMark
  split
  · rw [if_neg]
    rintro ⟨h16, -⟩
    exact hbase h16
  · rfl

structure Decimal (digits rest : List Char) : Prop where
  ne_nil : digits ≠ []
  digit : ∀ c ∈ digits, digitVal c < 10
  ends : ∀ c ∈ rest.head?, ¬ digitVal c < 10

namespace Decimal

variable {digits rest : List Char}

theorem dropWhile_isspace (h : Decimal digits rest) :
    (digits ++ rest).dropWhile isspace = digits ++ rest := by
  obtain ⟨c, cs, rfl⟩ := exists_cons_of_ne_nil h.ne_nil
  have hc : digitVal c < 36 := lt_trans (h.digit c (by simp)) (by decide)
  exact dropWhile_cons_of_neg (by simp [not_isspace_of_digit hc])

theorem signOf_append (h : Decimal digits rest) :
    signOf (digits ++ rest) = (false, digits ++ rest) := by
  obtain ⟨c, cs, rfl⟩ := exists_cons_of_ne_nil h.ne_nil
  exact signOf_of_digit (lt_trans (h.digit c (by simp)) (by decide))

theorem takeWhile_append (h : Decimal digits rest) :
    (digits ++ rest).takeWhile (fun c => decide (digitVal c < 10)) = digits := by
  rw [takeWhile_append_of_pos (fun c hc => decide_eq_true (h.digit c hc))]
  cases rest with
  | nil => simp
  | cons c rest => simp [h.ends c rfl]

theorem length_consumed (digits rest : List Char) :
    (digits ++ rest).length - ((digits ++ rest).length - digits.length) = digits.length := by
  rw [length_append]
  omega

end Decimal

variable {rest : List Char}

theorem decimal_of_digit (hc : digitVal c < 10) :
    Decimal ((c :: rest).takeWhile fun d => decide (digitVal d < 10))
      ((c :: rest).dropWhile fun d => decide (digitVal d < 10)) := by
  refine ⟨?_, ?_, ?_⟩
  · rw [takeWhile_cons_of_pos (by simpa using hc)]
    simp
  · intro d hd
    simpa using mem_takeWhile_imp hd
  · intro d hd
    have hstop := head?_dropWhile_not (fun d => decide (digitVal d < 10)) (c :: rest)
    rw [hd] at hstop
    simpa using hstop

/-- **Decimal digits are read up to where they end**, as the number that they denote, or they
overflow. -/
theorem strtoull_decimal {digits : List Char} (h : Decimal digits rest) :
    strtoull 10 (digits ++ rest) =
      if numeral 10 digits < 2 ^ 64 then ⟨numeral 10 digits, digits.length, false⟩
      else ⟨2 ^ 64 - 1, digits.length, true⟩ := by
  unfold strtoull
  rw [h.dropWhile_isspace, h.signOf_append]
  dsimp only
  rw [skipHexMark_of_ne (by decide), h.takeWhile_append, if_neg h.ne_nil,
    Decimal.length_consumed]
  by_cases hfits : numeral 10 digits < 2 ^ 64
  · rw [if_neg (by omega), if_pos hfits]
    rfl
  · rw [if_pos (by omega), if_neg hfits]

theorem strtol_decimal {digits : List Char} (h : Decimal digits rest) :
    strtol 10 (digits ++ rest)
      = ⟨(min (numeral 10 digits) (2 ^ 63 - 1) : Nat), digits.length⟩ := by
  unfold strtol
  rw [h.dropWhile_isspace, h.signOf_append]
  dsimp only
  rw [skipHexMark_of_ne (by decide), h.takeWhile_append, if_neg h.ne_nil,
    Decimal.length_consumed]
  rfl

end CString
