import Mathlib

/-!
# Runs of calls

A component with calls is a function `step : σ → κ → Option (ρ × σ)`: a call either returns a
reply and the next state or does not return. `Visits step s cs t` are the states that a run
of the calls `cs` from `s` passes through, `Makes step s cs t c` the calls that it makes,
each with the state it is made in; a call that does not return is the last one. `Ends step s cs t`
says that all of them return.
-/

namespace CallRun

variable {σ κ ρ : Type*} {step : σ → κ → Option (ρ × σ)} {s s' t t' : σ} {c : κ} {cs : List κ}
  {r : ρ}

def Visits (step : σ → κ → Option (ρ × σ)) : σ → List κ → σ → Prop
  | s, [], t => t = s
  | s, c :: cs, t => t = s ∨ ∃ r s', step s c = some (r, s') ∧ Visits step s' cs t

def Makes (step : σ → κ → Option (ρ × σ)) : σ → List κ → σ → κ → Prop
  | _, [], _, _ => False
  | s, c :: cs, t, c' =>
    (t = s ∧ c' = c) ∨ ∃ r s', step s c = some (r, s') ∧ Makes step s' cs t c'

def Ends (step : σ → κ → Option (ρ × σ)) : σ → List κ → σ → Prop
  | s, [], t => t = s
  | s, c :: cs, t => ∃ r s', step s c = some (r, s') ∧ Ends step s' cs t

theorem visits_start (step : σ → κ → Option (ρ × σ)) (s : σ) (cs : List κ) :
    Visits step s cs s := by
  cases cs with
  | nil => exact rfl
  | cons c cs => exact Or.inl rfl

/-- **The invariant rule.** Induction on the calls. -/
theorem Visits.invariant (inv : σ → Prop)
    (hstep : ∀ s c r s', inv s → step s c = some (r, s') → inv s')
    (h : Visits step s cs t) (hs : inv s) : inv t := by
  induction cs generalizing s with
  | nil =>
    obtain rfl : t = s := h
    exact hs
  | cons c cs ih =>
    rcases h with rfl | ⟨r, s', hc, h⟩
    · exact hs
    · exact ih h (hstep s c r s' hs hc)

theorem Makes.visits (h : Makes step s cs t c) : Visits step s cs t := by
  induction cs generalizing s with
  | nil => exact h.elim
  | cons c' cs ih =>
    rcases h with ⟨rfl, -⟩ | ⟨r, s', hc, h⟩
    · exact Or.inl rfl
    · exact Or.inr ⟨r, s', hc, ih h⟩

theorem Makes.mem (h : Makes step s cs t c) : c ∈ cs := by
  induction cs generalizing s with
  | nil => exact h.elim
  | cons c' cs ih =>
    rcases h with ⟨-, rfl⟩ | ⟨r, s', hc, h⟩
    · exact List.mem_cons_self
    · exact List.mem_cons_of_mem _ (ih h)

theorem Makes.next (h : Makes step s cs t c) (hc : step t c = some (r, t')) :
    Visits step s cs t' := by
  induction cs generalizing s with
  | nil => exact h.elim
  | cons c' cs ih =>
    rcases h with ⟨rfl, rfl⟩ | ⟨r₁, s', hc₁, h⟩
    · exact Or.inr ⟨r, t', hc, visits_start step t' cs⟩
    · exact Or.inr ⟨r₁, s', hc₁, ih h⟩

theorem visits_of_not_bad {inv : σ → Prop} (bad : σ → κ → Prop) (hs : inv s)
    (hstep : ∀ t c r t', Makes step s cs t c → inv t → ¬ bad t c → step t c = some (r, t') →
      inv t')
    (hbad : ∀ t c, Makes step s cs t c → ¬ bad t c) (h : Visits step s cs t) : inv t := by
  induction cs generalizing s with
  | nil =>
    obtain rfl : t = s := h
    exact hs
  | cons c cs ih =>
    rcases h with rfl | ⟨r, s', hc, h⟩
    · exact hs
    · have hfirst : Makes step s (c :: cs) s c := Or.inl ⟨rfl, rfl⟩
      have hlater : ∀ {t c'}, Makes step s' cs t c' → Makes step s (c :: cs) t c' :=
        fun hm => Or.inr ⟨r, s', hc, hm⟩
      refine ih (hstep s c r s' hfirst hs (hbad s c hfirst) hc) ?_ ?_ h
      · intro t c' r' t' hm
        exact hstep t c' r' t' (hlater hm)
      · intro t c' hm
        exact hbad t c' (hlater hm)

end CallRun
