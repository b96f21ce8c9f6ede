import RktIo.Queue.Mpmc

/-!
# The cells of the MPMC queue

A cell passes through the positions that are a multiple of the capacity apart. It is at the
first of them that has not been released, and its sequence number says which one that is, and
whether it has been published.

## The architecture

* `Shared` — what holds of the queue and of the record of the run;
* `Shared.claimEnq` … `Shared.release` — the steps on the queue keep `Shared`.
-/

namespace RktIo.Queue

open Function MpmcSys

variable {α : Type} {k : Nat} {s : MpmcSys α}

/-! ## Positions of one cell -/

theorem add_lap_le {n m : Nat} (hcell : n % 2 ^ k = m % 2 ^ k) (hlt : n < m) : n + 2 ^ k ≤ m := by
  have hdvd : 2 ^ k ∣ m - n := (Nat.modEq_iff_dvd' hlt.le).mp hcell
  have hle : 2 ^ k ≤ m - n := Nat.le_of_dvd (by omega) hdvd
  omega

def MpmcSys.Current (k : Nat) (s : MpmcSys α) (n : Nat) : Prop :=
  s.released n = false ∧ (n < 2 ^ k ∨ s.released (n - 2 ^ k) = true)

structure Shared (k : Nat) (s : MpmcSys α) : Prop where
  pos : 0 < k
  small : k ≤ 59
  mask : s.q.bufferMask = BitVec.ofNat 64 (2 ^ k - 1)
  enqPos : s.q.enqueuePos = BitVec.ofNat 64 s.enqLog.length
  deqPos : s.q.dequeuePos = BitVec.ofNat 64 s.deqLog.length
  /-- A position is claimed by an enqueue when its cell has been released one lap earlier. -/
  lap : ∀ n, n + 2 ^ k < s.enqLog.length → s.released n = true
  /-- A position is claimed by a dequeue when it has been published. -/
  claimed : ∀ n, n < s.deqLog.length → s.published n = true
  published_lt : ∀ n, s.published n = true → n < s.enqLog.length
  released_lt : ∀ n, s.released n = true → n < s.deqLog.length
  seq : ∀ n, s.Current k n →
    (s.q.buffer (n % 2 ^ k)).seq = BitVec.ofNat 64 (if s.published n then n + 1 else n)
  data : ∀ n, s.published n = true → s.released n = false →
    s.enqLog[n]? = some (s.q.buffer (n % 2 ^ k)).data
  unread : ∀ c, (s.q.buffer c).unread = true →
    ∃ n, n % 2 ^ k = c ∧ s.published n = true ∧ s.released n = false
  log : ∀ (n : Nat) x, s.deqLog[n]? = some (some x) → s.enqLog[n]? = some x
  returns : ∀ n x, (n, x) ∈ s.returns → s.released n = true ∧ s.deqLog[n]? = some (some x)
  nodup : (s.returns.map Prod.fst).Nodup
  kept : s.overwritten = false

namespace Shared

section

variable (hs : Shared k s)

include hs

theorem lap_le : 2 ≤ 2 ^ k ∧ 2 ^ k ≤ 2 ^ 59 :=
  ⟨Nat.le_self_pow (by have := hs.pos; omega) 2, Nat.pow_le_pow_right (by decide) hs.small⟩

theorem deq_le_enq : s.deqLog.length ≤ s.enqLog.length := by
  by_contra hlt
  have hpub := hs.claimed s.enqLog.length (by omega)
  have hself := hs.published_lt _ hpub
  omega

theorem enq_le_deq : s.enqLog.length ≤ s.deqLog.length + 2 ^ k := by
  by_contra hlt
  have hrel := hs.lap s.deqLog.length (by omega)
  have hself := hs.released_lt _ hrel
  omega

theorem published_of_released {n : Nat} (h : s.released n = true) : s.published n = true :=
  hs.claimed n (hs.released_lt n h)

theorem index_ofNat (n : Nat) : s.q.index (BitVec.ofNat 64 n) = n % 2 ^ k := by
  rw [Mpmcq.index, hs.mask]
  exact SeqNum.toNat_and_mask (hs.small.trans (by decide))

theorem cell_ofNat (n : Nat) : s.q.cell (BitVec.ofNat 64 n) = s.q.buffer (n % 2 ^ k) := by
  rw [Mpmcq.cell, hs.index_ofNat]

theorem capacity_eq : s.capacity = 2 ^ k := by
  have hle := hs.lap_le
  rw [capacity, hs.mask, BitVec.toNat_ofNat, Nat.mod_eq_of_lt (by omega)]
  omega

theorem vacant_iff (n : Nat) : s.vacant n = true ↔ n < 2 ^ k ∨ s.released (n - 2 ^ k) = true := by
  simp [vacant, hs.capacity_eq]

theorem current {n : Nat} (hn : n < s.enqLog.length) (hrel : s.released n = false) :
    s.Current k n := by
  refine ⟨hrel, ?_⟩
  by_cases hlap : n < 2 ^ k
  · exact Or.inl hlap
  · exact Or.inr (hs.lap (n - 2 ^ k) (by omega))

theorem current_of_unpublished {n : Nat} (hn : n < s.enqLog.length) (hpub : s.published n = false) :
    s.Current k n := by
  refine hs.current hn ?_
  by_contra hrel
  rw [hs.published_of_released (by simpa using hrel)] at hpub
  cases hpub

theorem current_unique {n m : Nat} (hn : s.Current k n) (hm : s.Current k m)
    (hcell : n % 2 ^ k = m % 2 ^ k) : n = m := by
  -- the later of two would have been reached over the release of the earlier
  have hlt : ∀ {a b : Nat}, s.Current k a → s.Current k b → a % 2 ^ k = b % 2 ^ k → ¬ a < b := by
    intro a b ha hb hab hlt
    have hle := add_lap_le hab hlt
    have hrel : s.released (b - 2 ^ k) = true := hb.2.resolve_left (by omega)
    have hbelow := hs.released_lt _ hrel
    have hde := hs.deq_le_enq
    have hrela : s.released a = true := by
      by_cases heq : a = b - 2 ^ k
      · rw [heq]
        exact hrel
      · have hnext : a + 2 ^ k ≤ b - 2 ^ k := by
          refine add_lap_le ?_ (by omega)
          rw [hab, ← Nat.add_mod_right (b - 2 ^ k), Nat.sub_add_cancel (by omega)]
        exact hs.lap a (by omega)
    rw [ha.1] at hrela
    cases hrela
  rcases Nat.lt_trichotomy n m with h | h | h
  · exact absurd h (hlt hn hm hcell)
  · exact h
  · exact absurd h (hlt hm hn hcell.symm)

theorem exists_current {p : Nat} (hp : p ≤ s.enqLog.length) :
    ∃ n, n % 2 ^ k = p % 2 ^ k ∧ p ≤ n + 2 ^ k ∧ n < s.enqLog.length + 2 ^ k ∧ s.Current k n := by
  have hde := hs.deq_le_enq
  have hpos : 0 < 2 ^ k := Nat.two_pow_pos k
  -- the first position of the cell, from one lap before `p` on, that has not been released
  have hex : ∃ n, n % 2 ^ k = p % 2 ^ k ∧ p ≤ n + 2 ^ k ∧ s.released n = false := by
    refine ⟨p + 2 ^ k * s.deqLog.length, Nat.add_mul_mod_self_left .., by omega, ?_⟩
    by_contra hrel
    have hlt := hs.released_lt _ (by simpa using hrel)
    have hmul : s.deqLog.length ≤ 2 ^ k * s.deqLog.length := Nat.le_mul_of_pos_left _ hpos
    omega
  classical
  obtain ⟨hcell, hle, hrel⟩ := Nat.find_spec hex
  have hmin := fun m (hm : m < Nat.find hex) => Nat.find_min hex hm
  generalize Nat.find hex = n at hcell hle hrel hmin
  have hcur : s.Current k n := by
    refine ⟨hrel, ?_⟩
    by_cases hlap : n < 2 ^ k
    · exact Or.inl hlap
    · refine Or.inr ?_
      by_cases hpn : p ≤ n
      · by_contra hfree
        refine hmin (n - 2 ^ k) (by omega) ⟨?_, by omega, by simpa using hfree⟩
        rw [← hcell, ← Nat.add_mod_right (n - 2 ^ k), Nat.sub_add_cancel (by omega)]
      · exact hs.lap (n - 2 ^ k) (by omega)
  refine ⟨n, hcell, hle, ?_, hcur⟩
  rcases hcur.2 with hlap | hfree
  · omega
  · have hlt := hs.released_lt _ hfree
    omega

/-! ## What a sequence number tells -/

theorem seq_sub {p c : Nat} (hp : p ≤ s.enqLog.length) (hops : s.ops < 2 * p + 2 * 2 ^ k + 2 ^ 63)
    (hc : p ≤ c) (hc' : c ≤ p + 1) :
    ∃ n, n % 2 ^ k = p % 2 ^ k ∧ p ≤ n + 2 ^ k ∧ s.Current k n ∧
      ((s.q.cell (BitVec.ofNat 64 p)).seq - BitVec.ofNat 64 c).toInt =
        ((if s.published n then n + 1 else n : Nat) : Int) - c := by
  obtain ⟨n, hcell, hle, hlt, hcur⟩ := hs.exists_current hp
  refine ⟨n, hcell, hle, hcur, ?_⟩
  have hlap := hs.lap_le
  have hed := hs.enq_le_deq
  have hseq : n ≤ (if s.published n then n + 1 else n)
      ∧ (if s.published n then n + 1 else n) ≤ n + 1 := by
    split <;> omega
  unfold ops at hops
  rw [hs.cell_ofNat, ← hcell, hs.seq n hcur]
  generalize (if s.published n then n + 1 else n) = σ at hseq ⊢
  apply SeqNum.toInt_sub_ofNat
  · push_cast
    omega
  · push_cast
    omega
  · decide

theorem dif_zero {p c : Nat} (hp : p ≤ s.enqLog.length)
    (hops : s.ops < 2 * p + 2 * 2 ^ k + 2 ^ 63) (hc : p ≤ c) (hc' : c ≤ p + 1)
    (hdif : ((s.q.cell (BitVec.ofNat 64 p)).seq - BitVec.ofNat 64 c).toInt = 0) :
    s.Current k p ∧ (s.published p = true ↔ c = p + 1) := by
  obtain ⟨n, hcell, hle, hcur, heq⟩ := hs.seq_sub hp hops hc hc'
  have hlap := hs.lap_le
  rw [hdif] at heq
  -- two positions of one cell are further apart than what is compared
  obtain rfl : n = p := by
    rcases Nat.lt_trichotomy n p with hlt | hsame | hlt
    · have hnext := add_lap_le hcell hlt
      split at heq <;> omega
    · exact hsame
    · have hnext := add_lap_le hcell.symm hlt
      split at heq <;> omega
  refine ⟨hcur, ?_⟩
  split at heq
  · simp_all
    omega
  · simp_all
    omega

theorem enq_dif_neg {p : Nat} (hp : p ≤ s.enqLog.length)
    (hops : s.ops < 2 * p + 2 * 2 ^ k + 2 ^ 63)
    (hdif : ((s.q.cell (BitVec.ofNat 64 p)).seq - BitVec.ofNat 64 p).toInt < 0) :
    s.vacant p = false := by
  obtain ⟨n, hcell, hle, hcur, heq⟩ := hs.seq_sub hp hops le_rfl (Nat.le_succ p)
  rw [heq] at hdif
  have hlt : n < p := by split at hdif <;> omega
  have hlap := add_lap_le hcell hlt
  obtain rfl : p = n + 2 ^ k := by omega
  rw [← Bool.not_eq_true, hs.vacant_iff]
  rintro (h | h)
  · omega
  · rw [Nat.add_sub_cancel, hcur.1] at h
    cases h

theorem deq_dif_neg {p : Nat} (hp : p ≤ s.deqLog.length)
    (hops : s.ops < 2 * p + 2 * 2 ^ k + 2 ^ 63)
    (hdif : ((s.q.cell (BitVec.ofNat 64 p)).seq - BitVec.ofNat 64 (p + 1)).toInt < 0) :
    s.published p = false := by
  obtain ⟨n, hcell, hle, hcur, heq⟩ :=
    hs.seq_sub (hp.trans hs.deq_le_enq) hops (Nat.le_succ p) le_rfl
  rw [heq] at hdif
  by_contra hpub
  rw [Bool.not_eq_false] at hpub
  have hpe := hs.published_lt p hpub
  rcases Nat.lt_trichotomy n p with hlt | rfl | hlt
  · -- the cell has left the position one lap before a claimed one
    have hrel := hs.lap n (by have := add_lap_le hcell hlt; omega)
    rw [hcur.1] at hrel
    cases hrel
  · rw [if_pos hpub] at hdif
    omega
  · split at hdif <;> omega

theorem ops_le {p : Nat} (hrel : s.released p = false) : s.ops ≤ 2 * p + 2 * 2 ^ k := by
  have hde := hs.deq_le_enq
  have hle : s.enqLog.length ≤ p + 2 ^ k := by
    by_contra hlt
    rw [hs.lap p (by omega)] at hrel
    cases hrel
  unfold ops
  omega

end

end Shared

/-! ## The steps on the queue -/

namespace Shared

variable {m : Nat}

section

variable (hs : Shared k s)

include hs

theorem setCell_buffer (c : Cell α) :
    (s.q.setCell (BitVec.ofNat 64 m) c).buffer = update s.q.buffer (m % 2 ^ k) c := by
  rw [Mpmcq.setCell, hs.index_ofNat]

theorem setCell_field {β : Type} (field : Cell α → β) {c : Cell α}
    (hc : field c = field (s.q.cell (BitVec.ofNat 64 m))) (i : Nat) :
    field ((s.q.setCell (BitVec.ofNat 64 m) c).buffer i) = field (s.q.buffer i) := by
  rw [hs.setCell_buffer, update_apply]
  split
  · subst i
    rw [hc, hs.cell_ofNat]
  · rfl

theorem claimEnq (x : α)
    (hvac : s.enqLog.length < 2 ^ k ∨ s.released (s.enqLog.length - 2 ^ k) = true) :
    Shared k (s.claimEnq x (BitVec.ofNat 64 s.enqLog.length)) where
  __ := hs
  enqPos := by simp [MpmcSys.claimEnq, BitVec.ofNat_add]
  lap := by
    intro n hn
    simp only [MpmcSys.claimEnq, List.length_append, List.length_singleton] at hn ⊢
    by_cases hlt : n + 2 ^ k < s.enqLog.length
    · exact hs.lap n hlt
    · rw [show n = s.enqLog.length - 2 ^ k by omega]
      exact hvac.resolve_left (by omega)
  published_lt := by
    intro n hn
    have hlt := hs.published_lt n hn
    simp only [MpmcSys.claimEnq, List.length_append, List.length_singleton]
    omega
  data := by
    intro n hpub hrel
    rw [MpmcSys.claimEnq, List.getElem?_append_left (hs.published_lt n hpub)]
    exact hs.data n hpub hrel
  log := by
    intro n x' hn
    have hlog := hs.log n x' hn
    rw [MpmcSys.claimEnq, List.getElem?_append_left (List.getElem?_eq_some_iff.mp hlog).1]
    exact hlog

theorem not_unread (hm : m < s.enqLog.length) (hpub : s.published m = false) :
    (s.q.buffer (m % 2 ^ k)).unread = false := by
  by_contra hunread
  obtain ⟨n, hcell, hn, hrel⟩ := hs.unread _ (by simpa using hunread)
  have hcur := hs.current (hs.published_lt n hn) hrel
  obtain rfl := hs.current_unique hcur (hs.current_of_unpublished hm hpub) hcell
  rw [hn] at hpub
  cases hpub

theorem storeData (x : α) (hm : m < s.enqLog.length) (hpub : s.published m = false) :
    Shared k (s.storeData x (BitVec.ofNat 64 m)) where
  __ := hs
  seq := by
    intro n hn
    rw [MpmcSys.storeData, hs.setCell_field Cell.seq]
    · exact hs.seq n hn
    · rfl
  data := by
    intro n hn hrel
    simp only [MpmcSys.storeData, hs.setCell_buffer]
    rw [update_of_ne]
    · exact hs.data n hn hrel
    · intro hcell
      have hcur := hs.current (hs.published_lt n hn) hrel
      obtain rfl := hs.current_unique hcur (hs.current_of_unpublished hm hpub) hcell
      exact absurd (hpub.symm.trans hn) Bool.false_ne_true
  unread := by
    intro c hc
    rw [MpmcSys.storeData, hs.setCell_field Cell.unread] at hc
    · exact hs.unread c hc
    · rfl
  kept := by simp [MpmcSys.storeData, hs.kept, hs.cell_ofNat, hs.not_unread hm hpub]

theorem publish (hpub : s.published m = false)
    (hdata : s.enqLog[m]? = some (s.q.buffer (m % 2 ^ k)).data) :
    Shared k (s.publish (BitVec.ofNat 64 m) m) where
  __ := hs
  claimed := by
    intro n hn
    simp only [MpmcSys.publish, update_apply]
    split
    · rfl
    · exact hs.claimed n hn
  published_lt := by
    intro n hn
    simp only [MpmcSys.publish, update_apply] at hn
    split at hn
    · subst n
      exact (List.getElem?_eq_some_iff.mp hdata).1
    · exact hs.published_lt n hn
  seq := by
    intro n hn
    have hm := (List.getElem?_eq_some_iff.mp hdata).1
    have hiff : n % 2 ^ k = m % 2 ^ k ↔ n = m :=
      ⟨hs.current_unique hn (hs.current_of_unpublished hm hpub), fun h => by rw [h]⟩
    simp only [MpmcSys.publish, hs.setCell_buffer, update_apply, hiff]
    split
    · subst n
      simp [BitVec.ofNat_add]
    · exact hs.seq n hn
  data := by
    intro n hn hrel
    have hm := (List.getElem?_eq_some_iff.mp hdata).1
    simp only [MpmcSys.publish, hs.setCell_buffer, hs.cell_ofNat, update_apply] at hn ⊢
    split at hn
    · subst n
      rw [if_pos rfl]
      exact hdata
    · split
      · rename_i hne hcell
        have hcur := hs.current (hs.published_lt n hn) hrel
        exact absurd (hs.current_unique hcur (hs.current_of_unpublished hm hpub) hcell) hne
      · exact hs.data n hn hrel
  unread := by
    intro c hc
    have hm := (List.getElem?_eq_some_iff.mp hdata).1
    simp only [MpmcSys.publish, hs.setCell_buffer, update_apply] at hc ⊢
    split at hc
    · exact ⟨m, by simp [*], by simp, (hs.current_of_unpublished hm hpub).1⟩
    · obtain ⟨n, hcell, hn, hrel⟩ := hs.unread c hc
      exact ⟨n, hcell, by simp [hn], hrel⟩

theorem claimDeq (hpub : s.published s.deqLog.length = true) :
    Shared k (s.claimDeq (BitVec.ofNat 64 s.deqLog.length)) where
  __ := hs
  deqPos := by simp [MpmcSys.claimDeq, BitVec.ofNat_add]
  claimed := by
    intro n hn
    simp only [MpmcSys.claimDeq, List.length_append, List.length_singleton] at hn
    by_cases hlt : n < s.deqLog.length
    · exact hs.claimed n hlt
    · rw [show n = s.deqLog.length by omega]
      exact hpub
  released_lt := by
    intro n hn
    have hlt := hs.released_lt n hn
    simp only [MpmcSys.claimDeq, List.length_append, List.length_singleton]
    omega
  log := by
    intro n x hn
    refine hs.log n x ?_
    rw [MpmcSys.claimDeq, List.getElem?_append] at hn
    split at hn
    · exact hn
    · rw [List.getElem?_singleton] at hn
      split at hn <;> simp at hn
  returns := by
    intro n x hn
    obtain ⟨hrel, hlog⟩ := hs.returns n x hn
    refine ⟨hrel, ?_⟩
    rw [MpmcSys.claimDeq, List.getElem?_append_left (List.getElem?_eq_some_iff.mp hlog).1]
    exact hlog

theorem readData (hm : m < s.deqLog.length) (hrel : s.released m = false) :
    Shared k (s.readData (BitVec.ofNat 64 m) m) where
  __ := hs
  deqPos := by simp [MpmcSys.readData, Mpmcq.setCell, hs.deqPos]
  claimed := by
    intro n hn
    exact hs.claimed n (by simpa [MpmcSys.readData] using hn)
  released_lt := by
    intro n hn
    simpa [MpmcSys.readData] using hs.released_lt n hn
  seq := by
    intro n hn
    rw [MpmcSys.readData, hs.setCell_field Cell.seq]
    · exact hs.seq n hn
    · rfl
  data := by
    intro n hn hrel
    rw [MpmcSys.readData, hs.setCell_field Cell.data]
    · exact hs.data n hn hrel
    · rfl
  unread := by
    intro c hc
    simp only [MpmcSys.readData, hs.setCell_buffer, update_apply] at hc
    split at hc
    · cases hc
    · exact hs.unread c hc
  log := by
    intro n x hn
    simp only [MpmcSys.readData, List.getElem?_set, hs.cell_ofNat] at hn
    split at hn
    · subst n
      cases hn
      exact hs.data m (hs.claimed m hm) hrel
    · exact hs.log n x hn
  returns := by
    intro n x hn
    obtain ⟨hn', hlog⟩ := hs.returns n x hn
    refine ⟨hn', ?_⟩
    rw [MpmcSys.readData, List.getElem?_set_ne]
    · exact hlog
    · rintro rfl
      have hrel' : s.released m = true := hn'
      rw [hrel] at hrel'
      cases hrel'

theorem release {x : α} (hrel : s.released m = false) (hlog : s.deqLog[m]? = some (some x))
    (hread : (s.q.buffer (m % 2 ^ k)).unread = false) :
    Shared k (s.release x (BitVec.ofNat 64 m) m) where
  __ := hs
  lap := by
    intro n hn
    simp only [MpmcSys.release, update_apply]
    split
    · rfl
    · exact hs.lap n hn
  released_lt := by
    intro n hn
    simp only [MpmcSys.release, update_apply] at hn
    split at hn
    · subst n
      exact (List.getElem?_eq_some_iff.mp hlog).1
    · exact hs.released_lt n hn
  seq := by
    intro n hn
    have hm := (List.getElem?_eq_some_iff.mp hlog).1.trans_le hs.deq_le_enq
    have hlap := hs.lap_le
    obtain ⟨hreln, hbefore⟩ := hn
    simp only [MpmcSys.release, update_apply] at hreln hbefore
    split at hreln
    · cases hreln
    rename_i hne
    by_cases hnext : n = m + 2 ^ k
    · -- the cell goes on to the next lap
      subst n
      have hpub : s.published (m + 2 ^ k) = false := by
        by_contra hpub
        rw [hs.lap m (hs.published_lt _ (by simpa using hpub))] at hrel
        cases hrel
      simp only [MpmcSys.release, hs.setCell_buffer, hpub, hs.mask, Nat.add_mod_right,
        update_self, Bool.false_eq_true, if_false]
      rw [BitVec.add_assoc, show (1 : BitVec 64) = BitVec.ofNat 64 1 from rfl, ← BitVec.ofNat_add,
        ← BitVec.ofNat_add, Nat.sub_add_cancel (by omega)]
    · have hcur : s.Current k n := by
        refine ⟨hreln, ?_⟩
        by_cases hfirst : n < 2 ^ k
        · exact Or.inl hfirst
        · have hprev := hbefore.resolve_left hfirst
          rw [if_neg (by omega)] at hprev
          exact Or.inr hprev
      have hcell : n % 2 ^ k ≠ m % 2 ^ k :=
        fun h => hne (hs.current_unique hcur (hs.current hm hrel) h)
      simp only [MpmcSys.release, hs.setCell_buffer, update_of_ne hcell]
      exact hs.seq n hcur
  data := by
    intro n hn hrel'
    have hm := (List.getElem?_eq_some_iff.mp hlog).1.trans_le hs.deq_le_enq
    simp only [MpmcSys.release, update_apply] at hrel'
    split at hrel'
    · cases hrel'
    rename_i hne
    have hcur := hs.current (hs.published_lt n hn) hrel'
    have hcell : n % 2 ^ k ≠ m % 2 ^ k :=
      fun h => hne (hs.current_unique hcur (hs.current hm hrel) h)
    simp only [MpmcSys.release, hs.setCell_buffer, update_of_ne hcell]
    exact hs.data n hn hrel'
  unread := by
    intro c hc
    simp only [MpmcSys.release, hs.setCell_buffer, hs.cell_ofNat, update_apply] at hc ⊢
    split at hc
    · rw [hread] at hc
      cases hc
    · rename_i hne
      obtain ⟨n, rfl, hn, hreln⟩ := hs.unread c hc
      refine ⟨n, rfl, hn, ?_⟩
      rw [if_neg]
      · exact hreln
      · rintro rfl
        exact hne rfl
  returns := by
    intro n x' hn
    simp only [MpmcSys.release, update_apply]
    rcases List.mem_append.mp hn with hold | hnew
    · obtain ⟨hreln, hlogn⟩ := hs.returns n x' hold
      exact ⟨by simp [hreln], hlogn⟩
    · cases List.mem_singleton.mp hnew
      exact ⟨if_pos rfl, hlog⟩
  nodup := by
    simp only [MpmcSys.release, List.map_append, List.map_cons, List.map_nil]
    refine List.Nodup.append hs.nodup (List.nodup_singleton m) ?_
    intro n hn hm
    obtain ⟨⟨n', x'⟩, hmem, rfl⟩ := List.mem_map.mp hn
    obtain rfl : n' = m := List.mem_singleton.mp hm
    rw [(hs.returns n' x' hmem).1] at hrel
    cases hrel

end

end Shared

end RktIo.Queue
