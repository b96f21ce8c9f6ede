import RktIo.Cmd.AppConfig

/-!
# Arrays of objects in the application configuration

Disks and peers are arrays of objects, each of which is parsed by a callback into a zeroed
structure. Both callbacks refuse a member that has an unknown name or the wrong type, and whether
they do so does not depend on the structure (`Checks`).

An array is parsed to its end, or one of its objects is refused, or json-c is handed something that
is not an object, which is undefined behaviour.
-/

namespace RktIo.Cmd

open CString Shared List

variable {α : Type} {cb : ParseJsonCallback (Parsing α)} {accepted : String × Json → Prop}
  {m : String × Json} {members : List (String × Json)} {vals : List Json}

/-! ## Members -/

structure Checks (cb : ParseJsonCallback (Parsing α)) (accepted : String × Json → Prop) : Prop where
  takes {m : String × Json} (h : accepted m) (s : Parsing α) : ∃ s', cb m.1 m.2 s = some (0, s')
  refuses {m : String × Json} (h : ¬ accepted m) (s : Parsing α) :
    ∃ s', cb m.1 m.2 s = some (1, s')

theorem visited_of_null (h : m.2.isNull = true) : visited (m :: members) = [] := by
  simp [visited, h]

theorem visited_of_not_null (h : m.2.isNull = false) :
    visited (m :: members) = m :: visited members := by
  simp [visited, h]

theorem parseJson_of_null {σ : Type} {cb : ParseJsonCallback σ} (h : m.2.isNull = true) (s : σ) :
    parseJson cb (m :: members) s = some (0, s) := by
  simp [parseJson, h]

theorem Checks.parseJson_of_accepted (hcb : Checks cb accepted)
    (h : ∀ m ∈ visited members, accepted m) (s : Parsing α) :
    ∃ s', parseJson cb members s = some (0, s') := by
  induction members generalizing s with
  | nil => exact ⟨s, rfl⟩
  | cons m members ih =>
    cases hnull : m.2.isNull with
    | true => exact ⟨s, parseJson_of_null hnull s⟩
    | false =>
      rw [visited_of_not_null hnull, forall_mem_cons] at h
      obtain ⟨s₁, hentry⟩ := hcb.takes h.1 s
      obtain ⟨s₂, hparse⟩ := ih h.2 s₁
      exact ⟨s₂, by simp [parseJson, hnull, hentry, hparse]⟩

theorem Checks.parseJson_of_refused (hcb : Checks cb accepted)
    (h : ¬ ∀ m ∈ visited members, accepted m) (s : Parsing α) :
    ∃ s', parseJson cb members s = some (1, s') := by
  induction members generalizing s with
  | nil => exact absurd (by simp [visited]) h
  | cons m members ih =>
    cases hnull : m.2.isNull with
    | true => exact absurd (by simp [visited_of_null hnull]) h
    | false =>
      rw [visited_of_not_null hnull, forall_mem_cons, not_and] at h
      by_cases hm : accepted m
      · obtain ⟨s₁, hentry⟩ := hcb.takes hm s
        obtain ⟨s₂, hparse⟩ := ih (h hm) s₁
        exact ⟨s₂, by simp [parseJson, hnull, hentry, hparse]⟩
      · obtain ⟨s₁, hentry⟩ := hcb.refuses hm s
        exact ⟨s₁, by simp [parseJson, hnull, hentry]⟩

/-! ## Arrays -/

def AllAccepted (accepted : String × Json → Prop) (vals : List Json) : Prop :=
  ∀ v ∈ vals, ∃ members, v = .object members ∧ ∀ m ∈ visited members, accepted m

def SomeRefused (accepted : String × Json → Prop) (vals : List Json) : Prop :=
  ∃ pre members post, vals = pre ++ .object members :: post
    ∧ AllAccepted accepted pre ∧ ¬ ∀ m ∈ visited members, accepted m

def parsedElement (cb : ParseJsonCallback (Parsing α)) (zero : α) : Json → α
  | .object members => ((parseJson cb members ⟨zero, []⟩).map fun r => r.2.val).getD zero
  | _ => zero

theorem Checks.parseElements_of_objects (hcb : Checks cb accepted) (zero : α)
    (h : AllAccepted accepted vals) :
    ∃ stderr, parseElements cb zero vals = some (0, vals.map (parsedElement cb zero), stderr) := by
  induction vals with
  | nil => exact ⟨[], rfl⟩
  | cons v vals ih =>
    obtain ⟨⟨members, rfl, haccepted⟩, hrest⟩ := forall_mem_cons.mp h
    obtain ⟨stderr, ih⟩ := ih hrest
    obtain ⟨s, hparse⟩ := hcb.parseJson_of_accepted haccepted ⟨zero, []⟩
    exact ⟨s.stderr ++ stderr, by simp [parseElements, hparse, ih, parsedElement]⟩

theorem Checks.parseElements_of_refused (hcb : Checks cb accepted) (zero : α)
    (h : SomeRefused accepted vals) :
    ∃ parsed stderr, parseElements cb zero vals = some (1, parsed, stderr) := by
  obtain ⟨pre, members, post, rfl, hpre, hmembers⟩ := h
  induction pre with
  | nil =>
    obtain ⟨s, hparse⟩ := hcb.parseJson_of_refused hmembers ⟨zero, []⟩
    exact ⟨[], s.stderr, by simp [parseElements, hparse]⟩
  | cons v pre ih =>
    obtain ⟨⟨before, rfl, haccepted⟩, hrest⟩ := forall_mem_cons.mp hpre
    obtain ⟨parsed, stderr, ih⟩ := ih hrest
    obtain ⟨s, hparse⟩ := hcb.parseJson_of_accepted haccepted ⟨zero, []⟩
    exact ⟨s.val :: parsed, s.stderr ++ stderr, by simp [parseElements, hparse, ih]⟩

theorem not_someRefused_cons (h : ¬ SomeRefused accepted (.object members :: vals)) :
    (∀ m ∈ visited members, accepted m) ∧ ¬ SomeRefused accepted vals := by
  have haccepted : ∀ m ∈ visited members, accepted m := by
    by_contra hmembers
    exact h ⟨[], members, vals, rfl, by simp [AllAccepted], hmembers⟩
  refine ⟨haccepted, ?_⟩
  rintro ⟨pre, before, post, rfl, hpre, hbefore⟩
  refine h ⟨.object members :: pre, before, post, rfl, ?_, hbefore⟩
  exact forall_mem_cons.mpr ⟨⟨members, rfl, haccepted⟩, hpre⟩

theorem allAccepted_of_not_refused (hrefused : ¬ SomeRefused accepted vals)
    (hobjects : ∀ v ∈ vals, ∃ members, v = .object members) : AllAccepted accepted vals := by
  induction vals with
  | nil => simp [AllAccepted]
  | cons v vals ih =>
    obtain ⟨⟨members, rfl⟩, hrest⟩ := forall_mem_cons.mp hobjects
    obtain ⟨haccepted, htail⟩ := not_someRefused_cons hrefused
    exact forall_mem_cons.mpr ⟨⟨members, rfl, haccepted⟩, ih htail hrest⟩

/-- **An array that is neither**: json-c is handed something that is not an object. -/
theorem Checks.parseElements_eq_none (hcb : Checks cb accepted) (zero : α)
    (hrefused : ¬ SomeRefused accepted vals) (haccepted : ¬ AllAccepted accepted vals) :
    parseElements cb zero vals = none := by
  induction vals with
  | nil => exact absurd (by simp [AllAccepted]) haccepted
  | cons v vals ih =>
    cases v with
    | object members =>
      obtain ⟨hmembers, htail⟩ := not_someRefused_cons hrefused
      have hrest : ¬ AllAccepted accepted vals := fun h =>
        haccepted (forall_mem_cons.mpr ⟨⟨members, rfl, hmembers⟩, h⟩)
      obtain ⟨s, hparse⟩ := hcb.parseJson_of_accepted hmembers ⟨zero, []⟩
      simp [parseElements, hparse, ih htail hrest]
    | _ => rfl

end RktIo.Cmd
