import Mathlib

/-!
# Walking a list and unlinking elements

The loop `SLIST_FOREACH_SAFE` with a body that may unlink or update the current element:
`body a s` gets an element and the loop's variables and returns the element that stays in
the list, if any, and the new variables.

* **`kept_of_mem`** — every element that stays comes from one turn of the body.
* **`walk_filterMap`**, **`filterMap_eq_iff`** — a body without variables, and when two such
  bodies keep the same.
* **`filterMap_perm`** — going through two lists of names gives the same, up to the order, if
  they have the names in common that matter.
-/

namespace Walk

open List

variable {α β σ : Type*}

/-- The result of a walk: the list, the unlinked elements in order, the loop's variables. -/
structure Walked (α σ : Type*) where
  kept : List α
  unlinked : List α
  acc : σ

def walk (body : α → σ → Option α × σ) : List α → σ → Walked α σ
  | [], s => ⟨[], [], s⟩
  | a :: as, s =>
    match body a s with
    | (some a', s') =>
      let r := walk body as s'
      ⟨a' :: r.kept, r.unlinked, r.acc⟩
    | (none, s') =>
      let r := walk body as s'
      ⟨r.kept, a :: r.unlinked, r.acc⟩

variable {body : α → σ → Option α × σ} {a a' : α} {as : List α} {s s' : σ}

@[simp] theorem walk_nil : walk body [] s = ⟨[], [], s⟩ := rfl

theorem walk_cons_kept (h : body a s = (some a', s')) :
    walk body (a :: as) s =
      ⟨a' :: (walk body as s').kept, (walk body as s').unlinked, (walk body as s').acc⟩ := by
  simp only [walk, h]

theorem walk_cons_unlinked (h : body a s = (none, s')) :
    walk body (a :: as) s =
      ⟨(walk body as s').kept, a :: (walk body as s').unlinked, (walk body as s').acc⟩ := by
  simp only [walk, h]

theorem walk_perm {body : α → σ → Option α × σ} (f : α → β)
    (hf : ∀ a s a' s', body a s = (some a', s') → f a' = f a) (as : List α) : ∀ s, ((walk body as s).kept.map f ++ (walk body as s).unlinked.map f).Perm
      (as.map f) := by
  induction as with
  | nil => intro s; simp
  | cons a as ih =>
    intro s
    rcases hb : body a s with ⟨_ | a', s'⟩
    · rw [walk_cons_unlinked hb]
      simp only [map_cons]
      exact perm_middle.trans ((ih s').cons _)
    · rw [walk_cons_kept hb]
      simp only [map_cons, hf a s a' s' hb, cons_append]
      exact (ih s').cons _

theorem kept_of_mem (as : List α) : ∀ {s}, a' ∈ (walk body as s).kept →
    ∃ a ∈ as, ∃ t t', body a t = (some a', t') := by
  induction as with
  | nil => intro s h; simp at h
  | cons a as ih =>
    intro s h
    rcases hb : body a s with ⟨_ | b, s'⟩
    · rw [walk_cons_unlinked hb] at h
      obtain ⟨c, hc, hbody⟩ := ih h
      exact ⟨c, by simp [hc], hbody⟩
    · rw [walk_cons_kept hb] at h
      rcases mem_cons.mp h with rfl | h
      · exact ⟨a, by simp, s, s', hb⟩
      · obtain ⟨c, hc, hbody⟩ := ih h
        exact ⟨c, by simp [hc], hbody⟩

theorem length_kept_add_unlinked (body : α → σ → Option α × σ) (as : List α) (s : σ) :
    (walk body as s).kept.length + (walk body as s).unlinked.length = as.length := by
  have hperm : ((walk body as s).kept.map (fun _ => ()) ++
      (walk body as s).unlinked.map (fun _ => ())).Perm (as.map (fun _ => ())) :=
    walk_perm _ (fun _ _ _ _ _ => rfl) as s
  simpa using hperm.length_eq

theorem walk_filterMap {f : α → Option α} (hbody : ∀ a s, body a s = (f a, s)) (as : List α)
    (s : σ) : walk body as s = ⟨as.filterMap f, as.filter (fun a => (f a).isNone), s⟩ := by
  induction as with
  | nil => rfl
  | cons a as ih =>
    cases hf : f a with
    | none =>
      rw [walk_cons_unlinked (by rw [hbody, hf]), ih, filterMap_cons_none hf,
        filter_cons_of_pos (by simp [hf])]
    | some a' =>
      rw [walk_cons_kept (by rw [hbody, hf]), ih, filterMap_cons_some hf,
        filter_cons_of_neg (by simp [hf])]

theorem filterMap_eq_iff {γ : Type*} {f g : α → Option β} (key : β → γ) (name : α → γ)
    (hf : ∀ a b, f a = some b → key b = name a) (hg : ∀ a b, g a = some b → key b = name a)
    {as : List α} (hnodup : (as.map name).Nodup) :
    as.filterMap f = as.filterMap g ↔ ∀ a ∈ as, f a = g a := by
  constructor
  · induction as with
    | nil => simp
    | cons a as ih =>
      obtain ⟨hnot, hnodup⟩ := nodup_cons.mp hnodup
      -- what is kept of a later element does not have the name of this one
      have hlater {h : α → Option β} (hh : ∀ a b, h a = some b → key b = name a) {b : β}
          (hb : b ∈ as.filterMap h) : key b ≠ name a := by
        obtain ⟨c, hc, hcb⟩ := mem_filterMap.mp hb
        rw [hh c b hcb]
        intro heq
        exact hnot (heq ▸ mem_map_of_mem hc)
      intro heq
      cases hfa : f a with
      | none =>
        cases hga : g a with
        | none =>
          rw [filterMap_cons_none hfa, filterMap_cons_none hga] at heq
          simpa [hfa, hga] using ih hnodup heq
        | some b =>
          rw [filterMap_cons_none hfa, filterMap_cons_some hga] at heq
          exact absurd (hg a b hga) (hlater hf (heq ▸ mem_cons_self))
      | some b =>
        cases hga : g a with
        | none =>
          rw [filterMap_cons_some hfa, filterMap_cons_none hga] at heq
          exact absurd (hf a b hfa) (hlater hg (heq ▸ mem_cons_self))
        | some c =>
          rw [filterMap_cons_some hfa, filterMap_cons_some hga] at heq
          obtain ⟨rfl, htail⟩ := List.cons.inj heq
          simpa [hfa, hga] using ih hnodup htail
  · intro h
    exact filterMap_congr h

theorem find?_of_mem {γ : Type*} [DecidableEq γ] {name : α → γ} {as : List α}
    (h : (as.map name).Nodup) (ha : a ∈ as) : as.find? (fun b => name b = name a) = some a := by
  induction as with
  | nil => cases ha
  | cons c as ih =>
    obtain ⟨hnot, hnodup⟩ := nodup_cons.mp h
    rcases mem_cons.mp ha with rfl | ha
    · exact find?_cons_of_pos (by simp)
    · have hne : ¬ name c = name a := fun heq => hnot (heq ▸ mem_map_of_mem ha)
      rw [find?_cons_of_neg (by simpa using hne)]
      exact ih hnodup ha

theorem find?_of_notMem {γ : Type*} [DecidableEq γ] {name : α → γ} {as : List α} {n : γ}
    (h : n ∉ as.map name) : as.find? (fun b => name b = n) = none := by
  rw [find?_eq_none]
  intro b hb heq
  exact h (mem_map.mpr ⟨b, hb, by simpa using heq⟩)

theorem filterMap_perm {f : α → Option β} {as bs : List α} (ha : as.Nodup) (hb : bs.Nodup)
    (h : ∀ a, f a ≠ none → (a ∈ as ↔ a ∈ bs)) : (as.filterMap f).Perm (bs.filterMap f) := by
  have hsome (cs : List α) : cs.filterMap f = (cs.filter (fun c => (f c).isSome)).filterMap f := by
    rw [filterMap_filter]
    congr 1
    funext c
    cases f c <;> rfl
  rw [hsome as, hsome bs]
  apply List.Perm.filterMap
  rw [perm_ext_iff_of_nodup (ha.filter _) (hb.filter _)]
  intro a
  simp only [mem_filter, Option.isSome_iff_ne_none]
  exact and_congr_left (fun hne => h a hne)

end Walk
