import RktIo.Ring.Delivery

/-!
# A drained ring buffer

When all the messages have been read and freed, the whole buffer is free. But the two offsets stay
where the last message ended, and `ring_buff_reserve` only looks for room behind that point or
before it: a message that is longer than both parts is refused, and as nothing will be freed, it is
refused for ever. So a drained buffer accepts every message that fits only if nothing has ever been
written to it, or the last message ended at the end of the buffer (`drained_accepts_iff`).

The condition is about the state of the buffer, for every history.
-/

namespace RktIo.Ring

open CallRun

def World.Drained (w : World) : Prop := w.held = none ∧ w.returned = w.accepted

def AcceptsAll (obj : RingBuffObj) : Prop :=
  ∀ data, data ≠ [] → data.length + 4 ≤ obj.size → (ringBuffWriteMsg obj data).1 = .OK

def DrainedAccepts (w : World) : Prop := w.Drained → AcceptsAll w.obj

/-! ## When a message is accepted -/

variable {obj : RingBuffObj} {size n : Nat}

theorem reserve_isOk_iff (h32 : obj.size < 2 ^ 32) (hwrite : obj.write ≤ obj.size)
    (hn : n ≤ obj.size) :
    (∃ r, ringBuffReserve obj n = .ok r)
      ↔ ¬ (obj.write = obj.read ∧ positive obj.isEmpty = true)
        ∧ ((obj.write + n ≤ obj.size ∧ ¬ (obj.write < obj.read ∧ obj.read < obj.write + n))
          ∨ (obj.size < obj.write + n ∧ n ≤ obj.read ∧ obj.read ≤ obj.write)) := by
  have hsub : sub32 obj.size obj.write = obj.size - obj.write := sub32_of_le hwrite h32
  unfold ringBuffReserve
  rw [if_neg (by omega)]
  simp only [hsub]
  by_cases hfits : obj.write + n ≤ obj.size
  · have hadd : add32 obj.write n = obj.write + n := add32_of_lt (by omega)
    rw [if_pos (by omega), hadd]
    split
    · rename_i hrefused
      refine iff_of_false (by simp) ?_
      rintro ⟨hempty, hroom⟩
      rcases hrefused with hahead | hfull
      · omega
      · exact hempty hfull
    · rename_i hroom
      refine iff_of_true ⟨_, rfl⟩ ⟨fun hfull => hroom (Or.inr hfull), Or.inl ⟨hfits, ?_⟩⟩
      exact fun hahead => hroom (Or.inl hahead)
  · rw [if_neg (by omega)]
    split
    · rename_i hrefused
      refine iff_of_false (by simp) ?_
      rintro ⟨hempty, hroom⟩
      rcases hrefused with hshort | hpast | hfull
      · omega
      · omega
      · exact hempty hfull
    · rename_i hroom
      refine iff_of_true ⟨_, rfl⟩ ⟨fun hfull => hroom (Or.inr (Or.inr hfull)), Or.inr ?_⟩
      omega

theorem writeMsg_ok_iff {data : List (BitVec 8)} (hne : data ≠ [])
    (hfits : data.length + 4 ≤ obj.size) :
    (ringBuffWriteMsg obj data).1 = .OK ↔ ∃ r, ringBuffReserve obj (data.length + 4) = .ok r := by
  have hpos := List.length_pos_iff.mpr hne
  unfold ringBuffWriteMsg
  rw [if_neg (by omega)]
  cases hreserve : ringBuffReserve obj (data.length + 4) with
  | ok r => simp
  | error err =>
    refine iff_of_false ?_ (by simp)
    have herr : err = .SIZE ∨ err = .NO_MEM := by
      unfold ringBuffReserve at hreserve
      split at hreserve
      · exact Or.inl (Except.error.inj hreserve).symm
      all_goals
        right
        dsimp only at hreserve
        split at hreserve
        all_goals
          split at hreserve
          · exact (Except.error.inj hreserve).symm
          · cases hreserve
    rcases herr with rfl | rfl <;> simp

/-- **Every message is accepted** if none fits at all, or the buffer is as it was created, or both
offsets are at the end. It is the message as long as the buffer that decides. -/
theorem acceptsAll_iff (h32 : obj.size < 2 ^ 32) (hwrite : obj.write ≤ obj.size) :
    AcceptsAll obj ↔ obj.size < 5
      ∨ (¬ (obj.write = obj.read ∧ positive obj.isEmpty = true)
        ∧ ((obj.write = 0 ∧ (obj.read = 0 ∨ obj.size ≤ obj.read))
          ∨ (obj.write = obj.size ∧ obj.read = obj.size))) := by
  constructor
  · intro h
    by_cases hsmall : obj.size < 5
    · exact Or.inl hsmall
    right
    have hlen : (List.replicate (obj.size - 4) (0 : BitVec 8)).length + 4 = obj.size := by
      rw [List.length_replicate]
      omega
    have hne : List.replicate (obj.size - 4) (0 : BitVec 8) ≠ [] := by
      rw [Ne, List.replicate_eq_nil_iff]
      omega
    have hok := (writeMsg_ok_iff hne hlen.le).mp (h _ hne hlen.le)
    rw [hlen, reserve_isOk_iff h32 hwrite le_rfl] at hok
    refine ⟨hok.1, ?_⟩
    omega
  · rintro (hsmall | ⟨hnotFull, hplace⟩) data hne hfits
    · have hpos := List.length_pos_iff.mpr hne
      omega
    · rw [writeMsg_ok_iff hne hfits, reserve_isOk_iff h32 hwrite hfits]
      refine ⟨hnotFull, ?_⟩
      omega

/-! ## Histories -/

theorem ringBuffRead_keeps {p read : Nat} {obj' : RingBuffObj}
    (h : ringBuffRead obj n = .ok (p, read, obj')) :
    obj'.size = obj.size ∧ obj'.write = obj.write := by
  unfold ringBuffRead at h
  split at h
  · cases h
  split at h
  · cases h
  dsimp only at h
  generalize ho : (if add32 obj.acc n > obj.size then { obj with acc := 0 } else obj) = o at h
  have hkept : o.size = obj.size ∧ o.write = obj.write := by
    rw [← ho]
    split <;> exact ⟨rfl, rfl⟩
  split at h
  · split at h <;> cases h <;> exact hkept
  · cases h
    exact hkept

theorem ringBuffReadMsg_keeps (obj : RingBuffObj) :
    (ringBuffReadMsg obj).obj.size = obj.size ∧ (ringBuffReadMsg obj).obj.write = obj.write := by
  unfold ringBuffReadMsg
  cases hlen : ringBuffRead obj 4 with
  | error err => exact ⟨rfl, rfl⟩
  | ok r =>
    obtain ⟨p, read, obj₁⟩ := r
    obtain ⟨hsize, hwrite⟩ := ringBuffRead_keeps hlen
    dsimp only
    split
    · exact ⟨hsize, hwrite⟩
    cases hdata : ringBuffRead (ringBuffFree obj₁ p read) (Bytes.load obj₁.buff p 4) with
    | error err => exact ⟨hsize, hwrite⟩
    | ok r =>
      obtain ⟨data, read', obj₂⟩ := r
      obtain ⟨hsize', hwrite'⟩ := ringBuffRead_keeps hdata
      have hkept : obj₂.size = obj.size ∧ obj₂.write = obj.write :=
        ⟨hsize'.trans hsize, hwrite'.trans hwrite⟩
      dsimp only
      split <;> exact hkept

theorem ringBuffReadMsg_of_accSize (h : obj.accSize = 0) :
    (ringBuffReadMsg obj).err ≠ .OK ∧ (ringBuffReadMsg obj).obj = obj := by
  unfold ringBuffReadMsg ringBuffRead
  rw [h]
  by_cases hsmall : 4 > obj.size
  · rw [if_pos hsmall]
    exact ⟨by simp, rfl⟩
  · rw [if_neg hsmall, if_pos (by decide)]
    exact ⟨by simp, rfl⟩

/-- What every call keeps: the write position is in the buffer. Before the first message has been
accepted, the buffer is as it was created, and afterwards the write position is not 0. -/
structure Kept (size : Nat) (w : World) : Prop where
  size_eq : w.obj.size = size
  write_le : w.obj.write ≤ size
  untouched : w.accepted = [] → w.held = none ∧ w.obj.read = 0 ∧ w.obj.write = 0
    ∧ w.obj.accSize = 0 ∧ w.obj.isEmpty = 0
  written : w.accepted ≠ [] → 0 < w.obj.write

variable {w w' : World}

theorem Kept.create {buff : Nat → BitVec 8} (h : ringBuffCreate buff size = .ok obj) :
    Kept size { obj := obj } := by
  unfold ringBuffCreate at h
  split at h
  · cases h
  · cases h
    exact ⟨rfl, Nat.zero_le _, fun _ => ⟨rfl, rfl, rfl, rfl, rfl⟩, fun hne => absurd rfl hne⟩

theorem ringBuffReserve_keeps (h32 : obj.size < 2 ^ 32) (hwrite : obj.write ≤ obj.size)
    (hn : 0 < n) {p : Nat} {obj' : RingBuffObj} (h : ringBuffReserve obj n = .ok (p, obj')) :
    obj'.size = obj.size ∧ obj'.write ≤ obj.size ∧ 0 < obj'.write := by
  have hsub : sub32 obj.size obj.write = obj.size - obj.write := sub32_of_le hwrite h32
  unfold ringBuffReserve at h
  split at h
  · cases h
  rename_i hle
  dsimp only at h
  rw [hsub] at h
  split at h
  · rename_i hfits
    have hadd : add32 obj.write n = obj.write + n := add32_of_lt (by omega)
    split at h
    · cases h
    · cases h
      refine ⟨rfl, ?_, ?_⟩
      · show add32 obj.write n ≤ obj.size
        omega
      · show 0 < add32 obj.write n
        omega
  · split at h
    · cases h
    · cases h
      exact ⟨rfl, not_lt.mp hle, hn⟩

theorem Kept.write (h : Kept size w) (h32 : size < 2 ^ 32) (data : List (BitVec 8)) :
    Kept size (w.exec (.write data)).2 := by
  obtain ⟨rfl, hwrite, huntouched, hwritten⟩ := h
  have hsame : Kept w.obj.size w := ⟨rfl, hwrite, huntouched, hwritten⟩
  unfold World.exec ringBuffWriteMsg
  by_cases hbad : data.length = 0 ∨ data.length + 4 > w.obj.size
  · simpa only [if_pos hbad, if_neg (show RingBuffErr.BAD_ARG ≠ .OK by decide)] using hsame
  simp only [if_neg hbad]
  cases hreserve : ringBuffReserve w.obj (data.length + 4) with
  | error err =>
    by_cases hok : err = .OK
    · -- `ring_buff_reserve` does not return that as an error
      have hne : data ≠ [] := by
        rintro rfl
        simp at hbad
      have hwrote : (ringBuffWriteMsg w.obj data).1 = .OK := by
        unfold ringBuffWriteMsg
        rw [if_neg hbad, hreserve]
        exact hok
      obtain ⟨r, hr⟩ := (writeMsg_ok_iff hne (by omega)).mp hwrote
      rw [hreserve] at hr
      cases hr
    · simpa only [if_neg hok] using hsame
  | ok r =>
    obtain ⟨p, obj'⟩ := r
    obtain ⟨hsize, hle, hpos⟩ := ringBuffReserve_keeps h32 hwrite (by omega) hreserve
    simp only [if_true]
    exact ⟨hsize, hle, fun hnil => absurd hnil (by simp), fun _ => hpos⟩

theorem Kept.consume (h : Kept size w) : Kept size (w.exec .consume).2 := by
  obtain ⟨hsize, hwrite, huntouched, hwritten⟩ := h
  obtain ⟨hkeptSize, hkeptWrite⟩ := ringBuffReadMsg_keeps w.obj
  unfold World.exec
  cases hheld : w.held with
  | some held =>
    refine ⟨hsize, hwrite, fun hnil => ?_, hwritten⟩
    rw [(huntouched hnil).1] at hheld
    cases hheld
  | none =>
    dsimp only
    split
    · rename_i hok
      refine ⟨hkeptSize.trans hsize, hkeptWrite.symm ▸ hwrite, fun hnil => ?_, fun hne => ?_⟩
      · exact absurd hok (ringBuffReadMsg_of_accSize (huntouched hnil).2.2.2.1).1
      · exact hkeptWrite.symm ▸ hwritten hne
    · refine ⟨hkeptSize.trans hsize, hkeptWrite.symm ▸ hwrite, fun hnil => ?_, fun hne => ?_⟩
      · obtain ⟨-, hobj⟩ := ringBuffReadMsg_of_accSize (huntouched hnil).2.2.2.1
        simp only [hobj]
        exact ⟨trivial, (huntouched hnil).2⟩
      · exact hkeptWrite.symm ▸ hwritten hne

theorem Kept.visits (h : Kept size w) (h32 : size < 2 ^ 32) {events : List Event}
    (hvisits : Visits step w events w') : Kept size w' := by
  refine hvisits.invariant (Kept size) (fun t e r t' ht hstep => ?_) h
  obtain rfl := (Prod.mk.inj (Option.some.inj hstep)).2
  cases e with
  | write data => exact ht.write h32 data
  | consume => exact ht.consume

theorem acceptsAll_of_history {buff : Nat → BitVec 8} {events : List Event}
    (hcreate : ringBuffCreate buff size = .ok obj) (h32 : size < 2 ^ 32)
    (hhistory : Visits step { obj := obj } events w) :
    AcceptsAll w.obj ↔ size < 5 ∨ w.accepted = []
      ∨ (w.obj.read = size ∧ w.obj.write = size ∧ positive w.obj.isEmpty = false) := by
  obtain ⟨hsize, hwrite, huntouched, hwritten⟩ := (Kept.create hcreate).visits h32 hhistory
  rw [acceptsAll_iff (by omega) (by omega), hsize]
  refine or_congr_right ?_
  by_cases hnil : w.accepted = []
  · obtain ⟨-, hread, hzero, -, hempty⟩ := huntouched hnil
    refine iff_of_true ⟨?_, Or.inl ⟨hzero, Or.inl hread⟩⟩ (Or.inl hnil)
    simp [hempty, positive]
  · have hpos := hwritten hnil
    rw [or_iff_right hnil]
    constructor
    · rintro ⟨hnotFull, ⟨hzero, -⟩ | ⟨hw, hr⟩⟩
      · omega
      · refine ⟨hr, hw, Bool.eq_false_iff.mpr fun hpositive => ?_⟩
        exact hnotFull ⟨hw.trans hr.symm, hpositive⟩
    · rintro ⟨hr, hw, hnotPositive⟩
      refine ⟨?_, Or.inr ⟨hw, hr⟩⟩
      simp [hnotPositive]

/-! ## Histories without a failing read -/

variable {l : Layout} {lapData backData : List (List (BitVec 8))}

/-! ## The condition -/

/-- **A drained buffer accepts every message that fits** exactly if none fits at all, nothing has
been accepted before, or both offsets are at the end of the buffer and `isEmpty` is not above 0. -/
theorem drained_accepts_iff (buff : Nat → BitVec 8) (size : Nat) (obj : RingBuffObj)
    (hcreate : ringBuffCreate buff size = .ok obj) (h32 : size < 2 ^ 32) (events : List Event)
    (w : World) (hhistory : Visits step { obj := obj } events w) :
    DrainedAccepts w ↔ (w.Drained → size < 5 ∨ w.accepted = []
      ∨ (w.obj.read = size ∧ w.obj.write = size ∧ positive w.obj.isEmpty = false)) :=
  imp_congr_right fun _ => acceptsAll_of_history hcreate h32 hhistory

def passed (size : Nat) (data : List (BitVec 8)) : World :=
  ((((newWorld size).exec (.write data)).2.exec .consume).2.exec .consume).2

theorem visits_passed (size : Nat) (data : List (BitVec 8)) :
    Visits step (newWorld size) [.write data, .consume, .consume] (passed size data) :=
  Or.inr ⟨_, _, rfl, Or.inr ⟨_, _, rfl, Or.inr ⟨_, _, rfl, rfl⟩⟩⟩

/-- A message that fills the buffer leaves the offsets at the end. -/
theorem drained_accepts_iff_whole :
    (passed 8 [1, 2, 3, 4]).obj.write = 8 ∧ DrainedAccepts (passed 8 [1, 2, 3, 4]) := by
  have hwrite : (passed 8 [1, 2, 3, 4]).obj.write = 8 := by decide +kernel
  have hread : (passed 8 [1, 2, 3, 4]).obj.read = 8 := by decide +kernel
  have hempty : positive (passed 8 [1, 2, 3, 4]).obj.isEmpty = false := by decide +kernel
  refine ⟨hwrite, (drained_accepts_iff (fun _ => 0) 8 _ rfl (by decide) _ _
    (visits_passed 8 [1, 2, 3, 4])).mpr fun _ => ?_⟩
  exact Or.inr (Or.inr ⟨hread, hwrite, hempty⟩)

/-- After a message of one byte, a buffer of 16 bytes is empty and refuses a message of eight bytes,
which fits. -/
theorem drained_buffer_refuses :
    ringBuffCreate (fun _ => 0) 16 = .ok (newWorld 16).obj
      ∧ Visits step (newWorld 16) [.write [1], .consume, .consume] (passed 16 [1])
      ∧ (passed 16 [1]).Drained
      ∧ (ringBuffWriteMsg (passed 16 [1]).obj (List.replicate 8 0)).1 = .NO_MEM
      ∧ ¬ DrainedAccepts (passed 16 [1]) := by
  have hdrained : (passed 16 [1]).Drained := by
    refine ⟨?_, ?_⟩ <;> decide +kernel
  have hresult : (ringBuffWriteMsg (passed 16 [1]).obj (List.replicate 8 0)).1 = .NO_MEM := by
    decide +kernel
  refine ⟨rfl, visits_passed 16 [1], hdrained, hresult, fun h => ?_⟩
  have hok := h hdrained (List.replicate 8 0) (by simp) (by decide +kernel)
  rw [hresult] at hok
  cases hok

end RktIo.Ring
