import Mathlib

/-!
# Chains of linked elements

A function `next` gives the element behind another one, if there is one. The chain from an element
is the list of the elements up to one without a successor; if the links run in a circle there is
none.

* **`Chain.unique`** — there is at most one chain;
* **`chain_of_follow`**, **`chain_iff_of_follow`** — what the chain is if following has ended, or
  has been cut off.

A list that is given by a pointer to its first element is a `Path` to no element.
-/

namespace Links

open List

variable {α : Type*} {next : α → Option α} {a b : α} {l l' : List α} {n : Nat}

/-- `Chain next a l`: the elements from `a` to the last one. -/
inductive Chain (next : α → Option α) : α → List α → Prop where
  | last {a : α} (h : next a = none) : Chain next a [a]
  | link {a b : α} {l : List α} (h : next a = some b) (hl : Chain next b l) : Chain next a (a :: l)

theorem Chain.unique (h : Chain next a l) (h' : Chain next a l') : l = l' := by
  induction h generalizing l' with
  | last hnone =>
    cases h' with
    | last => rfl
    | link hsome => simp [hnone] at hsome
  | link hsome _ ih =>
    cases h' with
    | last hnone => simp [hsome] at hnone
    | link hsome' hl' =>
      rw [hsome, Option.some.injEq] at hsome'
      subst hsome'
      rw [ih hl']

theorem Chain.length_pos (h : Chain next a l) : 0 < l.length := by
  cases h <;> simp

theorem Chain.length_eq_one_iff (h : Chain next a l) : l.length = 1 ↔ next a = none := by
  cases h with
  | last hnone => simp [hnone]
  | link hsome hl =>
    have hpos := hl.length_pos
    simp [hsome, ne_nil_of_length_pos hpos]

def follow (next : α → Option α) : Nat → α → List α × Option α
  | 0, a => ([], some a)
  | n + 1, a =>
    match next a with
    | none => ([a], none)
    | some b => (a :: (follow next n b).1, (follow next n b).2)

theorem follow_last (h : next a = none) : follow next (n + 1) a = ([a], none) := by
  rw [follow, h]

theorem follow_link (h : next a = some b) :
    follow next (n + 1) a = (a :: (follow next n b).1, (follow next n b).2) := by
  rw [follow, h]

theorem follow_length_le (next : α → Option α) (n : Nat) (a : α) :
    (follow next n a).1.length ≤ n := by
  induction n generalizing a with
  | zero => simp [follow]
  | succ n ih =>
    cases h : next a with
    | none => simp [follow_last h]
    | some b => simpa [follow_link h] using ih b

theorem chain_of_follow (h : (follow next n a).2 = none) : Chain next a (follow next n a).1 := by
  induction n generalizing a with
  | zero => simp [follow] at h
  | succ n ih =>
    cases hnext : next a with
    | none =>
      rw [follow_last hnext]
      exact .last hnext
    | some b =>
      rw [follow_link hnext] at h ⊢
      exact .link hnext (ih h)

theorem length_follow (h : (follow next n a).2 = some b) : (follow next n a).1.length = n := by
  induction n generalizing a with
  | zero => rfl
  | succ n ih =>
    cases hnext : next a with
    | none => simp [follow_last hnext] at h
    | some c =>
      rw [follow_link hnext] at h ⊢
      simp [ih h]

theorem chain_iff_of_follow (h : (follow next n a).2 = some b) :
    Chain next a l ↔ ∃ rest, l = (follow next n a).1 ++ rest ∧ Chain next b rest := by
  induction n generalizing a l with
  | zero =>
    obtain rfl : a = b := by simpa [follow] using h
    simp [follow]
  | succ n ih =>
    cases hnext : next a with
    | none => simp [follow_last hnext] at h
    | some c =>
      rw [follow_link hnext] at h ⊢
      constructor
      · intro hl
        cases hl with
        | last hnone => simp [hnext] at hnone
        | link hsome hl =>
          rw [hnext, Option.some.injEq] at hsome
          subst hsome
          obtain ⟨rest, rfl, hrest⟩ := (ih h).mp hl
          exact ⟨rest, rfl, hrest⟩
      · rintro ⟨rest, rfl, hrest⟩
        exact .link hnext ((ih h).mpr ⟨rest, rfl, hrest⟩)

/-! ## Lists with a pointer to the first element -/

variable {next' : α → Option α} {first behind behind' : Option α}

/-- `Path next first l behind`: from `first`, the links run through `l` to `behind`. -/
inductive Path (next : α → Option α) : Option α → List α → Option α → Prop where
  | nil {behind : Option α} : Path next behind [] behind
  | cons {a : α} {l : List α} {behind : Option α} (h : Path next (next a) l behind) :
      Path next (some a) (a :: l) behind

namespace Path

theorem eq_of_nil (h : Path next first [] behind) : first = behind := by
  cases h
  rfl

section

variable (h : Path next first l behind)

include h

theorem isSome_of_ne_nil (hl : l ≠ []) : first.isSome = true := by
  cases h with
  | nil => exact absurd rfl hl
  | cons => rfl

theorem getLast?_bind (hl : l ≠ []) : l.getLast?.bind next = behind := by
  induction h with
  | nil => exact absurd rfl hl
  | @cons a l behind h ih =>
    cases l with
    | nil => simpa using h.eq_of_nil
    | cons b l =>
      rw [getLast?_cons_cons]
      exact ih (by simp)

theorem append (h' : Path next behind l' behind') : Path next first (l ++ l') behind' := by
  induction h with
  | nil => exact h'
  | cons _ ih => exact .cons (ih h')

end

theorem of_append (h : Path next first (l ++ l') behind) :
    ∃ mid, Path next first l mid ∧ Path next mid l' behind := by
  induction l generalizing first with
  | nil => exact ⟨first, .nil, h⟩
  | cons a l ih =>
    cases h with
    | cons h =>
      obtain ⟨mid, hl, hl'⟩ := ih h
      exact ⟨mid, .cons hl, hl'⟩

theorem isPrefix (h : Path next first l behind) (hlist : Path next first l' none) :
    ∃ rest, l' = l ++ rest ∧ Path next behind rest none := by
  induction h generalizing l' with
  | nil => exact ⟨l', rfl, hlist⟩
  | cons _ ih =>
    cases hlist with
    | cons hlist =>
      obtain ⟨rest, rfl, hrest⟩ := ih hlist
      exact ⟨rest, rfl, hrest⟩

theorem nodup (h : Path next first l none) : l.Nodup := by
  generalize hnone : (none : Option α) = behind at h
  induction h with
  | nil => exact nodup_nil
  | @cons a l behind h ih =>
    subst hnone
    refine nodup_cons.mpr ⟨?_, ih rfl⟩
    intro hmem
    obtain ⟨s, t, rfl⟩ := append_of_mem hmem
    obtain ⟨mid, -, hmid⟩ := of_append h
    cases hmid with
    | cons hmid =>
      obtain ⟨rest, heq, -⟩ := h.isPrefix hmid
      have hlength := congrArg List.length heq
      simp at hlength
      omega

theorem congr (h : Path next first l behind) (heq : ∀ a ∈ l, next' a = next a) :
    Path next' first l behind := by
  induction h with
  | nil => exact .nil
  | @cons a l behind h ih =>
    refine .cons ?_
    rw [heq a (by simp)]
    exact ih (fun b hb => heq b (mem_cons_of_mem a hb))

/-- **The last element is made to point to another one**, which is then the last. -/
theorem snoc (h : Path next first (l ++ [a]) behind) (heq : ∀ c ∈ l, next' c = next c)
    (ha : next' a = some b) : Path next' first (l ++ [a] ++ [b]) (next' b) := by
  obtain ⟨mid, hl, hmid⟩ := of_append h
  cases hmid with
  | cons =>
    rw [append_assoc]
    refine (hl.congr heq).append (.cons ?_)
    rw [ha]
    exact .cons .nil

end Path

end Links
