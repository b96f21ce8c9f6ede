import RktIo.Lib.CString

/-!
# Textual internet addresses

The texts that `inet_pton` takes for an address of a family: four octets in decimal for IPv4, eight
groups in hexadecimal for IPv6, of which a run may be left out with `::` and the last two may be an
IPv4 address.

* **`Ip4Text.mem`**, **`Ip6Text.mem`** — the characters that occur in one;
* **`Ip6Text.colon_mem`** — a colon tells the families apart.
-/

namespace InetText

open List

open CString (digitVal numeral)

/-- A number of 8 bits in decimal, without leading zeros. -/
structure Octet (s : List Char) : Prop where
  ne_nil : s ≠ []
  digit : ∀ c ∈ s, digitVal c < 10
  le : numeral 10 s ≤ 255
  no_zeros : s.length = 1 ∨ s.head? ≠ some '0'

instance (s : List Char) : Decidable (Octet s) :=
  decidable_of_iff (s ≠ [] ∧ s.all (fun c => decide (digitVal c < 10)) = true ∧ numeral 10 s ≤ 255
      ∧ (s.length = 1 ∨ s.head? ≠ some '0'))
    ⟨fun ⟨h₁, h₂, h₃, h₄⟩ => ⟨h₁, by simpa using h₂, h₃, h₄⟩,
      fun ⟨h₁, h₂, h₃, h₄⟩ => ⟨h₁, by simpa using h₂, h₃, h₄⟩⟩

structure Group (s : List Char) : Prop where
  ne_nil : s ≠ []
  digit : ∀ c ∈ s, digitVal c < 16
  length_le : s.length ≤ 4

instance (s : List Char) : Decidable (Group s) :=
  decidable_of_iff (s ≠ [] ∧ s.all (fun c => decide (digitVal c < 16)) = true ∧ s.length ≤ 4)
    ⟨fun ⟨h₁, h₂, h₃⟩ => ⟨h₁, by simpa using h₂, h₃⟩,
      fun ⟨h₁, h₂, h₃⟩ => ⟨h₁, by simpa using h₂, h₃⟩⟩

def Ip4Text (s : List Char) : Prop :=
  ∃ os : List (List Char), os.length = 4 ∧ (∀ o ∈ os, Octet o) ∧ s = ['.'].intercalate os

/-- `Groups n s`: what stands for `n` groups, with an IPv4 address for the last two or without. -/
inductive Groups : Nat → List Char → Prop where
  | one {g : List Char} (h : Group g) : Groups 1 g
  | ip4 {s : List Char} (h : Ip4Text s) : Groups 2 s
  | cons {g s : List Char} {n : Nat} (h : Group g) (hs : Groups n s) :
      Groups (n + 1) (g ++ ':' :: s)

inductive Ip6Text : List Char → Prop where
  | all {s : List Char} (h : Groups 8 s) : Ip6Text s
  | run {gs : List (List Char)} {s : List Char} {n : Nat} (hgs : ∀ g ∈ gs, Group g)
      (hs : (n = 0 ∧ s = []) ∨ Groups n s) (hlength : gs.length + n ≤ 7) :
      Ip6Text ([':'].intercalate gs ++ ':' :: ':' :: s)

/-! ## Which characters occur -/

variable {s : List Char} {c : Char}

theorem mem_intercalate_singleton {sep : Char} {ls : List (List Char)}
    (h : c ∈ [sep].intercalate ls) : c = sep ∨ ∃ l ∈ ls, c ∈ l := by
  induction ls with
  | nil => simp at h
  | cons l ls ih =>
    cases ls with
    | nil => exact Or.inr ⟨l, by simp, by simpa using h⟩
    | cons l' ls =>
      rw [intercalate_cons_cons, mem_append, mem_append] at h
      rcases h with (h | h) | h
      · exact Or.inr ⟨l, by simp, h⟩
      · exact Or.inl (mem_singleton.mp h)
      · rcases ih h with h | ⟨l'', hmem, h⟩
        · exact Or.inl h
        · exact Or.inr ⟨l'', mem_cons_of_mem l hmem, h⟩

theorem Ip4Text.mem (h : Ip4Text s) (hc : c ∈ s) : digitVal c < 10 ∨ c = '.' := by
  obtain ⟨os, -, hos, rfl⟩ := h
  rcases mem_intercalate_singleton hc with h | ⟨o, ho, h⟩
  · exact Or.inr h
  · exact Or.inl ((hos o ho).digit c h)

theorem Groups.mem {n : Nat} (h : Groups n s) (hc : c ∈ s) :
    digitVal c < 16 ∨ c = '.' ∨ c = ':' := by
  induction h with
  | one hg => exact Or.inl (hg.digit c hc)
  | ip4 hs =>
    rcases hs.mem hc with h | h
    · exact Or.inl (by omega)
    · exact Or.inr (Or.inl h)
  | cons hg _ ih =>
    rw [mem_append, mem_cons] at hc
    rcases hc with hc | hc | hc
    · exact Or.inl (hg.digit c hc)
    · exact Or.inr (Or.inr hc)
    · exact ih hc

theorem Ip6Text.mem (h : Ip6Text s) (hc : c ∈ s) : digitVal c < 16 ∨ c = '.' ∨ c = ':' := by
  cases h with
  | all h => exact h.mem hc
  | run hgs hs _ =>
    rw [mem_append, mem_cons, mem_cons] at hc
    rcases hc with hc | hc | hc | hc
    · rcases mem_intercalate_singleton hc with h | ⟨g, hg, h⟩
      · exact Or.inr (Or.inr h)
      · exact Or.inl ((hgs g hg).digit c h)
    · exact Or.inr (Or.inr hc)
    · exact Or.inr (Or.inr hc)
    · rcases hs with ⟨-, rfl⟩ | hs
      · simp at hc
      · exact hs.mem hc

theorem Ip6Text.colon_mem (h : Ip6Text s) : ':' ∈ s := by
  cases h with
  | all h =>
    cases h with
    | cons => simp
  | run => simp

theorem Ip4Text.colon_not_mem (h : Ip4Text s) : ':' ∉ s := by
  intro hc
  rcases h.mem hc with h | h
  · exact absurd h (by decide)
  · exact absurd h (by decide)

end InetText
