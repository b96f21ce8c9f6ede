import RktIo.Lib.CallRun

/-!
# The table of syscall slots (`host/sgx_hostcall_interface.c`)

Every lthread and every scheduler owns a slot of the syscall page. `allocslot` hands out the
first free one, `freeslot` takes one back. The slots in use are marked in `freeslots`, their
owners are in `slotlthreads`, and `nthreads` is the number of slots in use; both functions
hold `slotslock`, so a run of the table is a sequence of calls.

The two arrays are the memory that starts at their addresses: an entry at `maxsyscalls` or
behind is whatever lies behind the array. `allocslot` returns `none` when it crashes.

`freeslot` is meant to ignore every slot number that is not in the table, and lets
`maxsyscalls` itself pass. `slotTable_consistent_iff` says that nothing else goes wrong.
-/

namespace RktIo.Host

open CallRun Function

variable {Lt : Type}

structure SlotTable (Lt : Type) where
  maxsyscalls : Nat
  nthreads : Nat
  freeslots : Nat → Nat
  slotlthreads : Nat → Option Lt

def SlotTable.init (maxsyscalls : Nat) (behindFree : Nat → Nat) (behindLt : Nat → Option Lt) :
    SlotTable Lt where
  maxsyscalls := maxsyscalls
  nthreads := 0
  freeslots := fun i => if i < maxsyscalls then 0 else behindFree i
  slotlthreads := fun i => if i < maxsyscalls then none else behindLt i

def SlotTable.firstFree (t : SlotTable Lt) : Nat :=
  (List.range t.maxsyscalls).findIdx (fun i => t.freeslots i == 0)

def allocslot (t : SlotTable Lt) (lt : Lt) : Option (Nat × SlotTable Lt) :=
  -- a_crash
  if t.nthreads ≥ t.maxsyscalls then none
  else
    let i := t.firstFree
    let t := { t with nthreads := (t.nthreads + 1) % 2 ^ 64 }
    if i < t.maxsyscalls then
      some (i, { t with
        freeslots := update t.freeslots i 1
        slotlthreads := update t.slotlthreads i (some lt) })
    else some (i, t)

def freeslot (t : SlotTable Lt) (slotno : Nat) : SlotTable Lt :=
  if slotno > t.maxsyscalls then t
  else
    { t with
      slotlthreads := update t.slotlthreads slotno none
      nthreads := (t.nthreads + (2 ^ 64 - 1)) % 2 ^ 64
      freeslots := update t.freeslots slotno 0 }

/-! ## Calls -/

inductive SlotCall (Lt : Type) where
  | allocslot (lt : Lt)
  | freeslot (slotno : Nat)
  deriving Repr, DecidableEq

def SlotCall.exec (t : SlotTable Lt) : SlotCall Lt → Option (Option Nat × SlotTable Lt)
  | .allocslot lt => (Host.allocslot t lt).map (fun r => (some r.1, r.2))
  | .freeslot slotno => some (none, Host.freeslot t slotno)

def SlotCall.Allowed (t : SlotTable Lt) : SlotCall Lt → Prop
  | .allocslot _ => True
  | .freeslot slotno => (slotno < t.maxsyscalls ∧ t.freeslots slotno = 1) ∨ t.maxsyscalls ≤ slotno

def SlotTable.inUse (t : SlotTable Lt) : Nat :=
  Nat.count (fun i => t.freeslots i = 1) t.maxsyscalls

/-- What a call is to do: `allocslot` takes a free slot and gives it to its argument,
`freeslot` ignores a number that is no slot. -/
def SlotCall.Ok (t : SlotTable Lt) : SlotCall Lt → Option Nat → SlotTable Lt → Prop
  | .allocslot lt, some i, t' =>
    i < t.maxsyscalls ∧ t.freeslots i = 0
      ∧ t'.freeslots = update t.freeslots i 1
      ∧ t'.slotlthreads = update t.slotlthreads i (some lt)
  | .freeslot slotno, none, t' => t.maxsyscalls ≤ slotno → t' = t
  | _, _, _ => False

/-! ## Counting -/

theorem count_mark {f : Nat → Nat} {i n : Nat} (hi : i < n) (hfree : f i ≠ 1) :
    Nat.count (fun k => update f i 1 k = 1) n = Nat.count (fun k => f k = 1) n + 1 := by
  rw [Nat.count_eq_card_filter_range, Nat.count_eq_card_filter_range]
  have hset : {k ∈ Finset.range n | update f i 1 k = 1}
      = insert i {k ∈ Finset.range n | f k = 1} := by
    ext k
    rcases eq_or_ne k i with rfl | hne
    · simp [hi]
    · simp [hne]
  rw [hset, Finset.card_insert_of_notMem (by simp [hfree])]

theorem count_clear {f : Nat → Nat} {i n : Nat} (hi : i < n) (hused : f i = 1) :
    Nat.count (fun k => update f i 0 k = 1) n + 1 = Nat.count (fun k => f k = 1) n := by
  have hmark := count_mark (f := update f i 0) hi (by simp)
  rw [update_idem, ← hused, update_eq_self] at hmark
  rw [hused] at hmark
  exact hmark.symm

/-- The entries of the table are 0 or 1, and `nthreads` counts the ones. -/
structure SlotTable.Consistent (maxsyscalls : Nat) (t : SlotTable Lt) : Prop where
  max_eq : t.maxsyscalls = maxsyscalls
  entries : ∀ i < t.maxsyscalls, t.freeslots i = 0 ∨ t.freeslots i = 1
  counted : t.nthreads = t.inUse

theorem SlotTable.Consistent.init (maxsyscalls : Nat) (behindFree : Nat → Nat)
    (behindLt : Nat → Option Lt) :
    (SlotTable.init maxsyscalls behindFree behindLt).Consistent maxsyscalls where
  max_eq := rfl
  entries := by
    intro i hi
    exact Or.inl (if_pos hi)
  counted := by
    symm
    rw [SlotTable.inUse, Nat.count_eq_card_filter_range, SlotTable.init, Finset.card_eq_zero,
      Finset.filter_eq_empty_iff]
    intro i hi
    simp [Finset.mem_range.mp hi]

variable {t t' : SlotTable Lt} {maxsyscalls : Nat}

section

variable (h : t.Consistent maxsyscalls)

include h

theorem SlotTable.Consistent.firstFree (hroom : t.nthreads < t.maxsyscalls) :
    t.firstFree < t.maxsyscalls ∧ t.freeslots t.firstFree = 0 := by
  have hex : ∃ i < t.maxsyscalls, t.freeslots i = 0 := by
    by_contra hno
    have hall : ∀ i ∈ Finset.range t.maxsyscalls, t.freeslots i = 1 := by
      intro i hi
      have hi := Finset.mem_range.mp hi
      exact (h.entries i hi).resolve_left (fun h0 => hno ⟨i, hi, h0⟩)
    have hfull : t.inUse = t.maxsyscalls := by
      rw [SlotTable.inUse, Nat.count_eq_card_filter_range, Finset.filter_true_of_mem hall,
        Finset.card_range]
    rw [h.counted, hfull] at hroom
    exact Nat.lt_irrefl _ hroom
  obtain ⟨i, hi, h0⟩ := hex
  unfold SlotTable.firstFree
  have hlt : (List.range t.maxsyscalls).findIdx (fun i => t.freeslots i == 0)
      < (List.range t.maxsyscalls).length :=
    List.findIdx_lt_length_of_exists ⟨i, List.mem_range.mpr hi, by simp [h0]⟩
  have hfree := List.findIdx_getElem (w := hlt)
  rw [List.getElem_range, beq_iff_eq] at hfree
  exact ⟨by simpa using hlt, hfree⟩

theorem SlotTable.Consistent.allocslot (hmax : maxsyscalls < 2 ^ 64) {lt : Lt} {i : Nat}
    (halloc : Host.allocslot t lt = some (i, t')) :
    t'.Consistent maxsyscalls ∧ (SlotCall.allocslot lt).Ok t (some i) t' := by
  unfold Host.allocslot at halloc
  split at halloc
  · cases halloc
  · rename_i hroom
    obtain ⟨hlt, hfree⟩ := h.firstFree (Nat.lt_of_not_le hroom)
    simp only [if_pos hlt, Option.some.injEq, Prod.mk.injEq] at halloc
    obtain ⟨rfl, rfl⟩ := halloc
    refine ⟨⟨h.max_eq, ?_, ?_⟩, hlt, hfree, rfl, rfl⟩
    · intro k hk
      rcases eq_or_ne k t.firstFree with rfl | hne
      · exact Or.inr (update_self ..)
      · simp only [update_of_ne hne]
        exact h.entries k hk
    · have hcount := count_mark hlt (show t.freeslots t.firstFree ≠ 1 by omega)
      have hused : t.nthreads = Nat.count (fun i => t.freeslots i = 1) t.maxsyscalls := h.counted
      have hmax_eq := h.max_eq
      rw [SlotTable.inUse, hcount, ← hused]
      exact Nat.mod_eq_of_lt (by omega)

theorem SlotTable.Consistent.freeslot (hmax : maxsyscalls < 2 ^ 64) {slotno : Nat}
    (hallowed : (SlotCall.freeslot slotno : SlotCall Lt).Allowed t) (hne : slotno ≠ maxsyscalls) :
    (Host.freeslot t slotno).Consistent maxsyscalls
      ∧ (SlotCall.freeslot slotno : SlotCall Lt).Ok t none (Host.freeslot t slotno) := by
  have hmax_eq := h.max_eq
  unfold Host.freeslot
  rcases hallowed with ⟨hlt, hused⟩ | hout
  · rw [if_neg (by omega)]
    refine ⟨⟨hmax_eq, ?_, ?_⟩, ?_⟩
    · intro k hk
      rcases eq_or_ne k slotno with rfl | hne
      · exact Or.inl (update_self ..)
      · simp only [update_of_ne hne]
        exact h.entries k hk
    · have hcount := count_clear hlt hused
      have hle := Nat.count_le (p := fun k => t.freeslots k = 1) (n := t.maxsyscalls)
      have hcounted : t.nthreads = Nat.count (fun i => t.freeslots i = 1) t.maxsyscalls :=
        h.counted
      rw [SlotTable.inUse]
      dsimp only
      omega
    · intro hout
      omega
  · rw [if_pos (by omega)]
    exact ⟨h, fun _ => rfl⟩

end

theorem freeslot_max_ne (t : SlotTable Lt) : Host.freeslot t t.maxsyscalls ≠ t := by
  intro heq
  have hn := congrArg SlotTable.nthreads heq
  unfold Host.freeslot at hn
  rw [if_neg (by omega)] at hn
  dsimp only at hn
  omega

theorem exec_max {c : SlotCall Lt} {r : Option Nat} (h : c.exec t = some (r, t')) :
    t'.maxsyscalls = t.maxsyscalls := by
  cases c with
  | allocslot lt =>
    obtain ⟨⟨i, t₁⟩, halloc, heq⟩ := Option.map_eq_some_iff.mp h
    cases heq
    unfold Host.allocslot at halloc
    split at halloc
    · cases halloc
    · dsimp only at halloc
      split at halloc <;> cases halloc <;> rfl
  | freeslot slotno =>
    cases h
    unfold Host.freeslot
    split <;> rfl

/-- **The slot table is consistent unless `maxsyscalls` is freed.** For every `maxsyscalls` and
every sequence of calls that frees slots in use and numbers that are no slots: `nthreads` is the
number of slots in use in every state, every `allocslot` that returns hands out a free slot,
and `freeslot` ignores every number that is no slot, exactly if `freeslot(maxsyscalls)` is
not called. -/
theorem slotTable_consistent_iff (maxsyscalls : Nat) (hmax : maxsyscalls < 2 ^ 64)
    (behindFree : Nat → Nat) (behindLt : Nat → Option Lt) (calls : List (SlotCall Lt))
    (hallowed : ∀ t c, Makes SlotCall.exec (SlotTable.init maxsyscalls behindFree behindLt) calls t c →
      c.Allowed t) :
    ((∀ t, Visits SlotCall.exec (SlotTable.init maxsyscalls behindFree behindLt) calls t →
          t.nthreads = t.inUse)
        ∧ ∀ t c r t', Makes SlotCall.exec (SlotTable.init maxsyscalls behindFree behindLt) calls t c →
          c.exec t = some (r, t') → c.Ok t r t')
      ↔ ∀ t c, Makes SlotCall.exec (SlotTable.init maxsyscalls behindFree behindLt) calls t c →
          c ≠ .freeslot maxsyscalls := by
  have hinit := SlotTable.Consistent.init maxsyscalls behindFree behindLt
  constructor
  · rintro ⟨-, hok⟩ t c hmakes rfl
    have htmax : t.maxsyscalls = maxsyscalls := hmakes.visits.invariant
      (fun t => t.maxsyscalls = maxsyscalls) (fun _ _ _ _ h hexec => (exec_max hexec).trans h) rfl
    have hsame := hok t _ none _ hmakes rfl (le_of_eq htmax)
    rw [← htmax] at hsame
    exact freeslot_max_ne t hsame
  · intro hnot
    -- the step lemma, for both calls
    have hstep : ∀ t c r t', Makes SlotCall.exec (SlotTable.init maxsyscalls behindFree behindLt) calls
        t c → t.Consistent maxsyscalls → c.exec t = some (r, t') →
        t'.Consistent maxsyscalls ∧ c.Ok t r t' := by
      intro t c r t' hmakes ht hexec
      cases c with
      | allocslot lt =>
        obtain ⟨⟨i, t₁⟩, halloc, heq⟩ := Option.map_eq_some_iff.mp hexec
        cases heq
        exact ht.allocslot hmax halloc
      | freeslot slotno =>
        cases hexec
        exact ht.freeslot hmax (hallowed t _ hmakes)
          (fun heq => hnot t _ hmakes (by rw [heq]))
    have hall : ∀ t, Visits SlotCall.exec (SlotTable.init maxsyscalls behindFree behindLt) calls t →
        t.Consistent maxsyscalls := by
      intro t h
      exact visits_of_not_bad (fun _ _ => False) hinit
        (fun t c r t' hmakes ht _ hexec => (hstep t c r t' hmakes ht hexec).1)
        (fun _ _ _ => id) h
    refine ⟨fun t h => (hall t h).counted, ?_⟩
    intro t c r t' hmakes hexec
    exact (hstep t c r t' hmakes (hall t hmakes.visits) hexec).2

/-- A slot is taken, and a number far behind the table is ignored. -/
theorem slotTable_consistent_iff_two :
    2 < 2 ^ 64
      ∧ ∀ t, Visits SlotCall.exec (SlotTable.init 2 (fun _ => 0) (fun _ => none))
        [.allocslot 7, .freeslot 9] t → t.nthreads = t.inUse := by
  refine ⟨by decide, ?_⟩
  refine ((slotTable_consistent_iff 2 (by decide) (fun _ => 0) (fun _ => none)
    [.allocslot 7, .freeslot 9] ?_).mpr ?_).1
  · intro t c hmakes
    have hmax : t.maxsyscalls = 2 := hmakes.visits.invariant
      (fun t => t.maxsyscalls = 2) (fun _ _ _ _ h hexec => (exec_max hexec).trans h) rfl
    have hmem := hmakes.mem
    simp only [List.mem_cons, List.not_mem_nil, or_false] at hmem
    rcases hmem with rfl | rfl
    · trivial
    · exact Or.inr (by omega)
  · intro t c hmakes
    have hmem := hmakes.mem
    simp only [List.mem_cons, List.not_mem_nil, or_false] at hmem
    rcases hmem with rfl | rfl <;> simp

/-- With a table of one slot, `freeslot(1)` after an `allocslot` leaves `nthreads` at 0 with
the slot in use, and the next `allocslot` returns 1, which is no slot. -/
theorem freeslot_max_breaks_table :
    ((allocslot (SlotTable.init 1 (fun _ => 0) (fun _ => none)) 7).bind fun r =>
        (allocslot (freeslot r.2 1) 8).map fun r' =>
          (r.1, (freeslot r.2 1).nthreads, (freeslot r.2 1).inUse, r'.1))
      = some (0, 0, 1, 1) := by
  decide

end RktIo.Host
