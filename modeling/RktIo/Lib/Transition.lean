import Mathlib

/-!
# Runs of a step function

A system is a step function `step : σ → ℓ → Option σ`: the label says which party does what,
`none` that it cannot. `Reaches step ok` are the states reached by steps that all meet the
condition `ok`, which speaks about the state before the step and its label.

* **`exec_reaches`** — replaying a list of labels is such a run.
* **`leadsTo_of_rank`** — what an infinite run reaches.
-/

namespace Transition

variable {σ ℓ : Type*} {step : σ → ℓ → Option σ} {ok : σ → ℓ → Prop} {s s' s'' : σ}

/-- `Reaches step ok s s'`: a run from `s` to `s'` whose steps all meet `ok`. -/
inductive Reaches (step : σ → ℓ → Option σ) (ok : σ → ℓ → Prop) (s : σ) : σ → Prop where
  | refl : Reaches step ok s s
  | tail {s' s'' : σ} (l : ℓ) (h : Reaches step ok s s') (hok : ok s' l)
      (hstep : step s' l = some s'') : Reaches step ok s s''

theorem Reaches.trans (h : Reaches step ok s s') (h' : Reaches step ok s' s'') :
    Reaches step ok s s'' := by
  induction h' with
  | refl => exact h
  | tail l _ hok hstep ih => exact .tail l ih hok hstep

/-- **The invariant rule.** -/
theorem Reaches.invariant (inv : σ → Prop)
    (hstep : ∀ s l s', inv s → ok s l → step s l = some s' → inv s')
    (h : Reaches step ok s s') (hs : inv s) : inv s' := by
  induction h with
  | refl => exact hs
  | tail l _ hok hst ih => exact hstep _ l _ ih hok hst

def exec (step : σ → ℓ → Option σ) (ok : σ → ℓ → Prop) [∀ s l, Decidable (ok s l)] :
    σ → List ℓ → Option σ
  | s, [] => some s
  | s, l :: ls => if ok s l then (step s l).bind (fun s' => exec step ok s' ls) else none

theorem exec_reaches [∀ s l, Decidable (ok s l)] (ls : List ℓ) :
    ∀ {s s' : σ}, exec step ok s ls = some s' → Reaches step ok s s' := by
  induction ls with
  | nil =>
    intro s s' h
    cases h
    exact .refl
  | cons l ls ih =>
    intro s s' h
    rw [exec] at h
    split at h
    · rename_i hok
      obtain ⟨s₁, hstep, hrest⟩ := Option.bind_eq_some_iff.mp h
      exact Reaches.trans (.tail l .refl hok hstep) (ih hrest)
    · cases h

/-- **The rank rule**: in an infinite run in which the party that has the turn always moves again,
and nobody else's moves take the turn away, the goal is reached. -/
theorem leadsTo_of_rank {π : Type*} {party : ℓ → π} {turn : Nat → π → σ → Prop} {goal : σ → Prop}
    (hstep : ∀ {k p s l s'}, turn k p s → step s l = some s' →
      goal s' ∨ (∃ k' < k, ∃ p', turn k' p' s') ∨ party l ≠ p ∧ turn k p s')
    {st : Nat → σ} {act : Nat → ℓ} (hrun : ∀ i, step (st i) (act i) = some (st (i + 1)))
    (hfair : ∀ {k p i}, turn k p (st i) → ∃ j ≥ i, party (act j) = p) {k : Nat} :
    ∀ {p i}, turn k p (st i) → ∃ j ≥ i, goal (st j) := by
  induction k using Nat.strong_induction_on with
  | _ k ih =>
    intro p i hi
    have hnext {i : Nat} (hi : turn k p (st i)) :
        (∃ j ≥ i, goal (st j)) ∨ party (act i) ≠ p ∧ turn k p (st (i + 1)) := by
      rcases hstep hi (hrun i) with hgoal | ⟨k', hk, p', hi'⟩ | hwait
      · exact .inl ⟨i + 1, by omega, hgoal⟩
      · obtain ⟨j, hj, hgoal⟩ := ih k' hk hi'
        exact .inl ⟨j, by omega, hgoal⟩
      · exact .inr hwait
    obtain ⟨j, hj, hmove⟩ := hfair hi
    obtain ⟨d, rfl⟩ := Nat.exists_eq_add_of_le hj
    -- by induction on the steps until `p` moves
    induction d generalizing i with
    | zero => exact (hnext hi).resolve_right fun h => h.1 hmove
    | succ d ihd =>
      rcases hnext hi with hgoal | ⟨-, hi'⟩
      · exact hgoal
      · obtain ⟨j, hj', hgoal⟩ := ihd hi' (by omega) (by rwa [Nat.add_assoc, Nat.add_comm 1])
        exact ⟨j, by omega, hgoal⟩

end Transition
