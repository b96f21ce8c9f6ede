import RktIo.Lkl.VirtioQueue

/-!
# Processing a virtio queue (`async_virtio_process_queue`)

The loop hands the available entries to the device, one after another, until it has caught up with
the driver or the device refuses one. It goes on by what the device returns: a device that has
queued a request returns 0 or a positive value, and that value is added to the index of 16 bits.
Only a value that is 1 modulo `2 ^ 16` is one entry further: with 0 the loop never ends, and with
any other value entries are skipped or handed over again.

What the device answers is a function of the number of the call, so every device is covered.
-/

namespace RktIo.Lkl.Virtio

open List

/-! ## The loop -/

structure Processing where
  q : VirtioQueue
  submits : List (VirtioReq × Int) := []

def VirtioQueue.seek (q : VirtioQueue) (idx : BitVec 16) : VirtioQueue :=
  { q with lastQueuedIdx := idx }

def processLoop (enqueue : Nat → Int) : Nat → Processing → Option (Except VirtioPanic Processing)
  | 0, _ => none
  | rounds + 1, p =>
    if p.q.lastQueuedIdx ≠ p.q.availIdx then
      match virtioProcessOne p.q with
      | .error e => some (.error e)
      | .ok req =>
        let bufCount := enqueue p.submits.length
        let submits := p.submits ++ [(req, bufCount)]
        if bufCount < 0 then some (.ok ⟨p.q, submits⟩)
        else processLoop enqueue rounds
          ⟨p.q.seek (p.q.lastQueuedIdx + BitVec.ofInt 16 bufCount), submits⟩
    else some (.ok p)

structure VirtioDevOps where
  acquireQueue : Bool
  releaseQueue : Bool
  enqueue : Nat → Int

/-- What a call leaves: whether the lock has been acquired and released, the calls of `enqueue` and
the queue. -/
structure Processed where
  acquired : Bool
  released : Bool
  submits : List (VirtioReq × Int)
  q : VirtioQueue

def asyncVirtioProcessQueue (rounds : Nat) (ops : VirtioDevOps) (q : VirtioQueue) :
    Option (Except VirtioPanic Processed) :=
  if !q.ready then some (.ok ⟨false, false, [], q⟩)
  else (processLoop ops.enqueue rounds ⟨q, []⟩).map fun r =>
    r.map fun p => ⟨ops.acquireQueue, ops.releaseQueue, p.submits, p.q⟩

/-! ## Entries -/

def VirtioQueue.entry (q : VirtioQueue) (j : Nat) : BitVec 16 := q.lastQueuedIdx + BitVec.ofNat 16 j

def VirtioQueue.available (q : VirtioQueue) : Nat := (q.availIdx - q.lastQueuedIdx).toNat

variable {q : VirtioQueue} {enqueue : Nat → Int}

theorem available_lt (q : VirtioQueue) : q.available < 2 ^ 16 := BitVec.isLt _

theorem entry_zero (q : VirtioQueue) : q.entry 0 = q.lastQueuedIdx := BitVec.add_zero _

theorem entry_available (q : VirtioQueue) : q.entry q.available = q.availIdx := by
  rw [VirtioQueue.entry, VirtioQueue.available, BitVec.ofNat_toNat, BitVec.setWidth_eq,
    BitVec.add_comm, BitVec.sub_add_cancel]

variable {j : Nat}

theorem entry_inj {i : Nat} (hi : i < 2 ^ 16) (hj : j < 2 ^ 16) (h : q.entry i = q.entry j) :
    i = j := by
  have hsame : BitVec.ofNat 16 i = BitVec.ofNat 16 j := (BitVec.add_right_inj _).mp h
  have hnat := congrArg BitVec.toNat hsame
  rw [BitVec.toNat_ofNat, BitVec.toNat_ofNat] at hnat
  omega

theorem entry_ne_availIdx (hj : j < q.available) : q.entry j ≠ q.availIdx := by
  intro h
  rw [← entry_available] at h
  have hlt := available_lt q
  have := entry_inj (by omega) hlt h
  omega

theorem entry_add_ofInt (q : VirtioQueue) (j : Nat) (ret : Int) :
    q.entry j + BitVec.ofInt 16 ret = q.entry (j + 1) ↔ ret % 2 ^ 16 = 1 := by
  have hsucc : q.entry (j + 1) = q.entry j + BitVec.ofInt 16 1 := by
    rw [VirtioQueue.entry, VirtioQueue.entry, BitVec.add_assoc, BitVec.ofNat_add]
    rfl
  rw [hsucc, BitVec.add_right_inj, ← BitVec.toNat_inj, BitVec.toNat_ofInt, BitVec.toNat_ofInt]
  omega

variable {req : VirtioReq}

variable {idx : BitVec 16}

theorem gather_idx {room : Nat} {req' : VirtioReq} {d : VringDesc} {rest : Option VringDesc}
    (h : gather q room req d idx = .ok (req', rest)) : req'.idx = req.idx := by
  induction room generalizing req d idx with
  | zero =>
    rw [gather, Except.ok.injEq, Prod.mk.injEq] at h
    rw [h.1]
  | succ room ih =>
    rw [gather] at h
    cases hadd : addDevBufFromVringDesc req d with
    | error e =>
      rw [hadd] at h
      cases h
    | ok req₁ =>
      have hidx : req₁.idx = req.idx := by
        unfold addDevBufFromVringDesc at hadd
        split at hadd
        · rw [← Except.ok.inj hadd]
        · cases hadd
      rw [hadd] at h
      dsimp only at h
      split at h
      · rw [Except.ok.injEq, Prod.mk.injEq] at h
        rw [← h.1, hidx]
      · split at h
        · rw [Except.ok.injEq, Prod.mk.injEq] at h
          rw [← h.1, hidx]
        · rw [ih h, hidx]

theorem virtioProcessOne_idx (h : virtioProcessOne q = .ok req) : req.idx = q.lastQueuedIdx := by
  unfold virtioProcessOne at h
  dsimp only at h
  split at h
  · cases h
  · rename_i hgather
    split at h
    · cases h
    · rw [← Except.ok.inj h, gather_idx hgather]
  · rename_i hgather
    rw [← Except.ok.inj h, gather_idx hgather]

/-! ## One round -/

variable {rounds : Nat} {p : Processing}

theorem processLoop_caught_up (h : p.q.lastQueuedIdx = p.q.availIdx) :
    processLoop enqueue (rounds + 1) p = some (.ok p) := by
  rw [processLoop, if_neg (not_not.mpr h)]

section

variable (h : p.q.lastQueuedIdx ≠ p.q.availIdx) (hone : virtioProcessOne p.q = .ok req)

include h hone

theorem processLoop_refused (hret : enqueue p.submits.length < 0) :
    processLoop enqueue (rounds + 1) p
      = some (.ok ⟨p.q, p.submits ++ [(req, enqueue p.submits.length)]⟩) := by
  rw [processLoop, if_pos h, hone]
  exact if_pos hret

theorem processLoop_accepted (hret : 0 ≤ enqueue p.submits.length) :
    processLoop enqueue (rounds + 1) p
      = processLoop enqueue rounds
        ⟨p.q.seek (p.q.lastQueuedIdx + BitVec.ofInt 16 (enqueue p.submits.length)),
          p.submits ++ [(req, enqueue p.submits.length)]⟩ := by
  rw [processLoop, if_pos h, hone]
  exact if_neg (by omega)

end

/-- **How a run starts**: the calls of before are kept, and the first new one is for the entry at
which the loop stands. Induction on the rounds. -/
theorem processLoop_submits {p' : Processing} (h : processLoop enqueue rounds p = some (.ok p')) :
    ∃ extra, p'.submits = p.submits ++ extra
      ∧ (p.q.lastQueuedIdx = p.q.availIdx → p' = p)
      ∧ (p.q.lastQueuedIdx ≠ p.q.availIdx →
        ∃ s, extra.head? = some s ∧ s.1.idx = p.q.lastQueuedIdx) := by
  induction rounds generalizing p with
  | zero => cases h
  | succ rounds ih =>
    by_cases hcaught : p.q.lastQueuedIdx = p.q.availIdx
    · rw [processLoop_caught_up hcaught, Option.some.injEq, Except.ok.injEq] at h
      exact ⟨[], by simp [h], fun _ => h.symm, fun hne => absurd hcaught hne⟩
    cases hone : virtioProcessOne p.q with
    | error e =>
      rw [processLoop, if_pos hcaught, hone] at h
      cases h
    | ok req =>
      have hidx := virtioProcessOne_idx hone
      by_cases hret : enqueue p.submits.length < 0
      · rw [processLoop_refused hcaught hone hret, Option.some.injEq, Except.ok.injEq] at h
        subst h
        exact ⟨_, rfl, fun heq => absurd heq hcaught, fun _ => ⟨_, rfl, hidx⟩⟩
      · rw [processLoop_accepted hcaught hone (by omega)] at h
        obtain ⟨extra, hextra, -⟩ := ih h
        refine ⟨(req, enqueue p.submits.length) :: extra, by simp [hextra],
          fun heq => absurd heq hcaught, fun _ => ⟨_, rfl, hidx⟩⟩

/-! ## Each entry once -/

def InOrder (q : VirtioQueue) (enqueue : Nat → Int) (submits : List (VirtioReq × Int)) : Prop :=
  ∀ j s, submits[j]? = some s →
    virtioProcessOne (q.seek (q.entry j)) = .ok s.1 ∧ s.2 = enqueue j

def EndsRight (q : VirtioQueue) (enqueue : Nat → Int) (submits : List (VirtioReq × Int))
    (lastQueuedIdx : BitVec 16) : Prop :=
  (∃ j < q.available, enqueue j < 0 ∧ (∀ i < j, 0 ≤ enqueue i) ∧ submits.length = j + 1
      ∧ lastQueuedIdx = q.entry j)
    ∨ ((∀ j < q.available, 0 ≤ enqueue j) ∧ submits.length = q.available
      ∧ lastQueuedIdx = q.availIdx)

/-- Every available request is submitted once: the call ends, the entries are handed over in the
order of the ring, no place of the ring twice, and the loop ends as it is to. -/
def SubmitsOnce (ops : VirtioDevOps) (q : VirtioQueue) : Prop :=
  ∃ rounds done, asyncVirtioProcessQueue rounds ops q = some (.ok done)
    ∧ InOrder q ops.enqueue done.submits
    ∧ (done.submits.map fun s => q.slot s.1.idx).Nodup
    ∧ EndsRight q ops.enqueue done.submits done.q.lastQueuedIdx

/-- The device takes the `j`-th entry as one entry: it can be handed over, and if it is accepted the
answer is 1 modulo `2 ^ 16`. -/
def Advances (q : VirtioQueue) (enqueue : Nat → Int) (j : Nat) : Prop :=
  (∃ req, virtioProcessOne (q.seek (q.entry j)) = .ok req)
    ∧ (0 ≤ enqueue j → enqueue j % 2 ^ 16 = 1)

variable {submits : List (VirtioReq × Int)}

theorem InOrder.snoc (h : InOrder q enqueue submits)
    (hone : virtioProcessOne (q.seek (q.entry submits.length)) = .ok req) :
    InOrder q enqueue (submits ++ [(req, enqueue submits.length)]) := by
  intro j s hs
  rcases lt_trichotomy j submits.length with hlt | rfl | hgt
  · rw [getElem?_append_left hlt] at hs
    exact h j s hs
  · obtain rfl : (req, enqueue submits.length) = s := by simpa using hs
    exact ⟨hone, rfl⟩
  · rw [getElem?_eq_none (by simp; omega)] at hs
    cases hs

theorem seek_seek (q : VirtioQueue) (i j : BitVec 16) : (q.seek i).seek j = q.seek j := rfl

theorem processLoop_entry (hj : j < q.available) (hadv : Advances q enqueue j)
    (haccepted : 0 ≤ enqueue j) (hlen : submits.length = j) :
    ∃ req, virtioProcessOne (q.seek (q.entry j)) = .ok req
      ∧ processLoop enqueue (rounds + 1) ⟨q.seek (q.entry j), submits⟩
        = processLoop enqueue rounds ⟨q.seek (q.entry (j + 1)), submits ++ [(req, enqueue j)]⟩ := by
  obtain ⟨⟨req, hone⟩, hret⟩ := hadv
  refine ⟨req, hone, ?_⟩
  have hnext := (entry_add_ofInt q j (enqueue j)).mpr (hret haccepted)
  rw [processLoop_accepted (entry_ne_availIdx hj) hone (by rw [hlen]; exact haccepted)]
  dsimp only
  rw [hlen, seek_seek]
  show processLoop enqueue rounds ⟨q.seek (q.entry j + BitVec.ofInt 16 (enqueue j)), _⟩ = _
  rw [hnext]

/-- **With the right answers** the loop gets from the `j`-th entry to its end. Induction on the
number of entries that are left. -/
theorem processLoop_of_advances
    (hadv : ∀ j < q.available, (∀ i < j, 0 ≤ enqueue i) → Advances q enqueue j) (left : Nat) :
    ∀ j submits, j + left = q.available → (∀ i < j, 0 ≤ enqueue i) → submits.length = j →
      InOrder q enqueue submits →
      ∃ p, processLoop enqueue (left + 1) ⟨q.seek (q.entry j), submits⟩ = some (.ok p)
        ∧ InOrder q enqueue p.submits ∧ EndsRight q enqueue p.submits p.q.lastQueuedIdx := by
  induction left with
  | zero =>
    intro j submits hj hbefore hlen horder
    obtain rfl : j = q.available := by omega
    refine ⟨_, processLoop_caught_up (entry_available q), horder, Or.inr ⟨hbefore, hlen, ?_⟩⟩
    exact entry_available q
  | succ left ih =>
    intro j submits hj hbefore hlen horder
    have hlt : j < q.available := by omega
    have hhere := hadv j hlt hbefore
    by_cases haccepted : 0 ≤ enqueue j
    · obtain ⟨req, hone, hround⟩ := @processLoop_entry q enqueue j (left + 1) submits hlt hhere
        haccepted hlen
      rw [hround]
      refine ih (j + 1) _ (by omega) ?_ (by simp [hlen]) ?_
      · intro i hi
        rcases Nat.lt_succ_iff_lt_or_eq.mp hi with hi | rfl
        · exact hbefore i hi
        · exact haccepted
      · subst hlen
        exact horder.snoc hone
    · obtain ⟨⟨req, hone⟩, -⟩ := hhere
      subst hlen
      refine ⟨_, processLoop_refused (entry_ne_availIdx hlt) hone (not_le.mp haccepted),
        horder.snoc hone, ?_⟩
      exact Or.inl ⟨submits.length, hlt, by omega, hbefore, by simp, rfl⟩

theorem processLoop_reaches (hj : j ≤ q.available)
    (hadv : ∀ i < j, 0 ≤ enqueue i ∧ Advances q enqueue i)
    (h : processLoop enqueue rounds ⟨q, []⟩ = some (.ok p)) :
    ∃ rounds' submits, submits.length = j
      ∧ processLoop enqueue rounds' ⟨q.seek (q.entry j), submits⟩ = some (.ok p) := by
  induction j with
  | zero =>
    refine ⟨rounds, [], rfl, ?_⟩
    rw [entry_zero]
    exact h
  | succ j ih =>
    obtain ⟨rounds', submits, hlen, hrun⟩ := ih (by omega) fun i hi => hadv i (by omega)
    obtain ⟨haccepted, hhere⟩ := hadv j (by omega)
    cases rounds' with
    | zero => cases hrun
    | succ rounds' =>
      obtain ⟨req, -, hround⟩ := @processLoop_entry q enqueue j rounds' submits (by omega)
        hhere haccepted hlen
      rw [hround] at hrun
      exact ⟨rounds', _, by simp [hlen], hrun⟩

theorem EndsRight.goes_on (h : EndsRight q enqueue submits idx)
    (hbefore : ∀ i < j, 0 ≤ enqueue i) (haccepted : 0 ≤ enqueue j) (hj : j < q.available) :
    q.available = j + 1 ∨ j + 2 ≤ submits.length := by
  rcases h with ⟨j', hj', hrefused, -, hlen, -⟩ | ⟨-, hlen, -⟩
  · right
    rcases lt_trichotomy j' j with hlt | rfl | hgt
    · exact absurd (hbefore j' hlt) (by omega)
    · omega
    · omega
  · omega

theorem advances_of_run (hj : j < q.available)
    (hadv : ∀ i < j, 0 ≤ enqueue i ∧ Advances q enqueue i)
    (h : processLoop enqueue rounds ⟨q, []⟩ = some (.ok p)) (horder : InOrder q enqueue p.submits)
    (hends : EndsRight q enqueue p.submits p.q.lastQueuedIdx) : Advances q enqueue j := by
  obtain ⟨rounds', submits, hlen, hrun⟩ := processLoop_reaches hj.le hadv h
  have hne : (q.seek (q.entry j)).lastQueuedIdx ≠ (q.seek (q.entry j)).availIdx :=
    entry_ne_availIdx hj
  cases rounds' with
  | zero => cases hrun
  | succ rounds' =>
    cases hone : virtioProcessOne (q.seek (q.entry j)) with
    | error e =>
      rw [processLoop, if_pos hne, hone] at hrun
      cases hrun
    | ok req =>
      refine ⟨⟨req, hone⟩, fun haccepted => ?_⟩
      rw [← entry_add_ofInt q j (enqueue j)]
      by_contra hwrong
      -- the loop goes on at an entry that is not the next one
      rw [processLoop_accepted hne hone (by rw [hlen]; exact haccepted)] at hrun
      obtain ⟨extra, hsubmits, hcaught, hmore⟩ := processLoop_submits hrun
      dsimp only at hsubmits hcaught hmore
      rw [hlen, seek_seek] at hcaught hmore
      have hcount : p.submits.length = j + 1 + extra.length := by
        rw [hsubmits]
        simp [hlen]
        omega
      have hlong := hends.goes_on (fun i hi => (hadv i hi).1) haccepted hj
      by_cases hend : q.entry j + BitVec.ofInt 16 (enqueue j) = q.availIdx
      · -- it has caught up by the wrong step
        have hp := hcaught hend
        have hshort : p.submits.length = j + 1 := by
          rw [hp]
          simp [hlen]
        rcases hlong with havail | hlong
        · rw [← entry_available, havail] at hend
          exact hwrong hend
        · omega
      · -- it hands over a wrong entry
        obtain ⟨s, hs, hidx⟩ := hmore hend
        obtain ⟨extra', rfl⟩ : ∃ extra', extra = s :: extra' := by
          cases extra with
          | nil => cases hs
          | cons s' extra' => exact ⟨extra', by simpa using hs⟩
        have hat : p.submits[j + 1]? = some s := by
          rw [hsubmits, getElem?_append_right (by simp [hlen])]
          simp [hlen]
        have hidx' := virtioProcessOne_idx (horder (j + 1) s hat).1
        exact hwrong (hidx.symm.trans hidx')

theorem slot_entry_inj (hpow : q.PowerOfTwo) {i : Nat} (hi : i < q.available) (hj : j < q.available)
    (hfit : q.available ≤ q.num.toNat) (h : q.slot (q.entry i) = q.slot (q.entry j)) : i = j := by
  obtain ⟨k, -, hnum⟩ := hpow.toNat_num
  have hlt := available_lt q
  have hentry : ∀ n, n < q.available →
      (q.entry n).toNat = (q.lastQueuedIdx.toNat + n) % 2 ^ 16 := by
    intro n hn
    have hn16 : n < 2 ^ 16 := by omega
    rw [VirtioQueue.entry, BitVec.toNat_add, BitVec.toNat_ofNat, Nat.mod_eq_of_lt hn16]
  rw [slot_eq hpow, slot_eq hpow, hentry i hi, hentry j hj, hnum] at h
  rw [hnum] at hfit
  by_cases hk : k ≤ 16
  · have hdvd : 2 ^ k ∣ 2 ^ 16 := Nat.pow_dvd_pow 2 hk
    rw [Nat.mod_mod_of_dvd _ hdvd, Nat.mod_mod_of_dvd _ hdvd] at h
    have hmod : i ≡ j [MOD 2 ^ k] := Nat.ModEq.add_left_cancel' _ h
    exact hmod.eq_of_lt_of_lt (by omega) (by omega)
  · have hbig : 2 ^ 16 < 2 ^ k := Nat.pow_lt_pow_right (by decide) (by omega)
    have hsmall : ∀ n, n % 2 ^ 16 % 2 ^ k = n % 2 ^ 16 := fun n =>
      Nat.mod_eq_of_lt (lt_trans (Nat.mod_lt _ (by decide)) hbig)
    rw [hsmall, hsmall] at h
    omega

theorem EndsRight.length_le (h : EndsRight q enqueue submits idx) :
    submits.length ≤ q.available := by
  rcases h with ⟨j, hj, -, -, hlen, -⟩ | ⟨-, hlen, -⟩ <;> omega

theorem InOrder.slots_nodup (hpow : q.PowerOfTwo) (hfit : q.available ≤ q.num.toNat)
    (h : InOrder q enqueue submits) (hlen : submits.length ≤ q.available) :
    (submits.map fun s => q.slot s.1.idx).Nodup := by
  rw [nodup_iff_getElem?_ne_getElem?]
  intro i j hij hj
  rw [length_map] at hj
  have hslot : ∀ n, n < submits.length →
      (submits.map fun s => q.slot s.1.idx)[n]? = some (q.slot (q.entry n)) := by
    intro n hn
    have hget := getElem?_eq_getElem hn
    have hidx := virtioProcessOne_idx (h n _ hget).1
    rw [getElem?_map, hget, Option.map_some, hidx]
    rfl
  rw [hslot i (by omega), hslot j hj]
  intro hsame
  have := slot_entry_inj hpow (by omega) (by omega) hfit (Option.some.inj hsame)
  omega

variable {q : VirtioQueue}

theorem asyncVirtioProcessQueue_of_not_ready (ops : VirtioDevOps)
    (hready : q.ready = false) (rounds : Nat) :
    asyncVirtioProcessQueue rounds ops q = some (.ok ⟨false, false, [], q⟩) := by
  rw [asyncVirtioProcessQueue, hready]
  rfl

theorem asyncVirtioProcessQueue_of_ready (ops : VirtioDevOps)
    (hready : q.ready = true) (rounds : Nat) :
    asyncVirtioProcessQueue rounds ops q = (processLoop ops.enqueue rounds ⟨q, []⟩).map fun r =>
      r.map fun p => ⟨ops.acquireQueue, ops.releaseQueue, p.submits, p.q⟩ := by
  rw [asyncVirtioProcessQueue, hready]
  rfl

theorem submitsOnce_iff_of_not_ready (ops : VirtioDevOps)
    (hready : q.ready = false) : SubmitsOnce ops q ↔ q.available = 0 := by
  constructor
  · rintro ⟨rounds, done, hdone, -, -, hends⟩
    rw [asyncVirtioProcessQueue_of_not_ready ops hready, Option.some.injEq,
      Except.ok.injEq] at hdone
    subst hdone
    rcases hends with ⟨j, -, -, -, hlen, -⟩ | ⟨-, hlen, -⟩
    · cases hlen
    · exact hlen.symm
  · intro hnone
    refine ⟨0, _, asyncVirtioProcessQueue_of_not_ready ops hready 0, by simp [InOrder], by simp,
      Or.inr ⟨by simp [hnone], hnone.symm, ?_⟩⟩
    rw [← entry_available, hnone, entry_zero]

theorem SubmitsOnce.advances {ops : VirtioDevOps} (hready : q.ready = true)
    (h : SubmitsOnce ops q) (j : Nat) :
    j < q.available → (∀ i < j, 0 ≤ ops.enqueue i) → Advances q ops.enqueue j := by
  obtain ⟨rounds, done, hdone, horder, -, hends⟩ := h
  rw [asyncVirtioProcessQueue_of_ready ops hready] at hdone
  obtain ⟨r, hr, hmap⟩ := Option.map_eq_some_iff.mp hdone
  cases r with
  | error e => cases hmap
  | ok p =>
    obtain rfl := Except.ok.inj hmap
    -- each entry advances because those before it do
    induction j using Nat.strongRecOn with
    | ind j ih =>
      intro hj hbefore
      refine advances_of_run hj (fun i hi => ⟨hbefore i hi, ?_⟩) hr horder hends
      exact ih i hi (by omega) fun i' hi' => hbefore i' (by omega)

theorem submitsOnce_of_advances {ops : VirtioDevOps} (hpow : q.PowerOfTwo)
    (hfit : q.available ≤ q.num.toNat) (hready : q.ready = true)
    (hadv : ∀ j < q.available, (∀ i < j, 0 ≤ ops.enqueue i) → Advances q ops.enqueue j) :
    SubmitsOnce ops q := by
  obtain ⟨p, hrun, horder, hends⟩ := processLoop_of_advances hadv q.available 0 [] (by omega)
    (by simp) rfl (by simp [InOrder])
  rw [entry_zero] at hrun
  refine ⟨q.available + 1, ⟨ops.acquireQueue, ops.releaseQueue, p.submits, p.q⟩, ?_, horder,
    horder.slots_nodup hpow hfit hends.length_le, hends⟩
  rw [asyncVirtioProcessQueue_of_ready ops hready]
  show (processLoop ops.enqueue (q.available + 1) ⟨q.seek q.lastQueuedIdx, []⟩).map _ = _
  rw [hrun]
  rfl

/-- **Every available request is submitted once** exactly if none is available, or the queue is
ready and every entry up to the first one that is refused can be handed over, and is accepted by an
answer that is 1 modulo `2 ^ 16`. -/
theorem submits_once_iff (ops : VirtioDevOps) (q : VirtioQueue) (hpow : q.PowerOfTwo)
    (hfit : q.available ≤ q.num.toNat) :
    SubmitsOnce ops q ↔ q.available = 0
      ∨ (q.ready = true
        ∧ ∀ j < q.available, (∀ i < j, 0 ≤ ops.enqueue i) → Advances q ops.enqueue j) := by
  cases hready : q.ready with
  | false => simp [submitsOnce_iff_of_not_ready ops hready]
  | true =>
    constructor
    · intro h
      exact Or.inr ⟨rfl, h.advances hready⟩
    · rintro (hnone | ⟨-, hadv⟩)
      · refine submitsOnce_of_advances hpow hfit hready fun j hj => ?_
        omega
      · exact submitsOnce_of_advances hpow hfit hready hadv

theorem chainQueue_processOne : ∃ req, virtioProcessOne (chainQueue 1) = .ok req := by
  rw [virtioProcessOne_eq (chainQueue_powerOfTwo 1) rfl (chainQueue_filled 1)]
  exact ⟨_, rfl⟩

/-- A device that answers 1. -/
theorem submits_once_iff_one : SubmitsOnce ⟨false, false, fun _ => 1⟩ (chainQueue 1) := by
  refine (submits_once_iff _ _ (chainQueue_powerOfTwo 1) (by decide)).mpr (Or.inr ⟨rfl, ?_⟩)
  intro j hj _
  obtain rfl : j = 0 := by
    have havail : (chainQueue 1).available = 1 := rfl
    omega
  exact ⟨chainQueue_processOne, fun _ => by decide⟩

/-- A device that has queued the request and answers 0 is handed the same entry again and again: the
loop does not end. -/
theorem answer_zero_never_ends :
    (∀ rounds, asyncVirtioProcessQueue rounds ⟨false, false, fun _ => 0⟩ (chainQueue 1) = none)
      ∧ ¬ SubmitsOnce ⟨false, false, fun _ => 0⟩ (chainQueue 1) := by
  obtain ⟨req, hone⟩ := chainQueue_processOne
  have hbehind : (chainQueue 1).lastQueuedIdx ≠ (chainQueue 1).availIdx := by decide
  have hloop : ∀ rounds submits,
      processLoop (fun _ => 0) rounds ⟨chainQueue 1, submits⟩ = none := by
    intro rounds
    induction rounds with
    | zero =>
      intro submits
      rfl
    | succ rounds ih =>
      intro submits
      rw [processLoop_accepted hbehind hone le_rfl]
      exact ih _
  have hnone : ∀ rounds,
      asyncVirtioProcessQueue rounds ⟨false, false, fun _ => 0⟩ (chainQueue 1) = none := by
    intro rounds
    show (processLoop (fun _ => 0) rounds ⟨chainQueue 1, []⟩).map _ = none
    rw [hloop]
    rfl
  refine ⟨hnone, ?_⟩
  rintro ⟨rounds, done, hdone, -⟩
  rw [hnone] at hdone
  cases hdone

end RktIo.Lkl.Virtio
