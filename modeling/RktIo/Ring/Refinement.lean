import RktIo.Ring.Layout

/-!
# The ring buffer follows its layout

`Repr w l lapData backData` says that the buffer of `w` has the layout `l`, with the payloads
`lapData` and `backData` in it. Each call keeps it as long as no read fails: `Repr.write`,
`Repr.free` and `Repr.readMsg` are the simulation, and `Repr.readMsg_fails` is what happens
otherwise.
-/

namespace RktIo.Ring

open Bytes Layout

/-! ## Stored messages -/

def Stored (buff : Nat → BitVec 8) : Nat → List (List (BitVec 8)) → Prop
  | _, [] => True
  | p, d :: ds =>
    load buff p 4 = d.length ∧ slice buff (p + 4) d.length = d ∧ Stored buff (p + 4 + d.length) ds

def lengths (ds : List (List (BitVec 8))) : List Nat := ds.map List.length

variable {buff buff' : Nat → BitVec 8} {p q : Nat} {ds : List (List (BitVec 8))}
  {d data : List (BitVec 8)}

theorem eq_nil_of_lengths (h : lengths ds = []) : ds = [] := List.map_eq_nil_iff.mp h

theorem eq_cons_of_lengths {n : Nat} {ns : List Nat} (h : lengths ds = n :: ns) :
    ∃ d ds', ds = d :: ds' ∧ d.length = n ∧ lengths ds' = ns := List.map_eq_cons_iff.mp h

theorem Stored.congr (h : Stored buff p ds)
    (heq : ∀ x, p ≤ x → x < p + span (lengths ds) → buff' x = buff x) : Stored buff' p ds := by
  induction ds generalizing p with
  | nil => trivial
  | cons d ds ih =>
    obtain ⟨hlen, hdata, hrest⟩ := h
    simp only [lengths, List.map_cons, span_cons] at heq ih
    refine ⟨?_, ?_, ih hrest ?_⟩
    · rw [← hlen]
      exact load_congr fun x hlow hhigh => heq x hlow (by omega)
    · rw [← hdata]
      simp only [length_slice]
      exact slice_congr fun x hlow hhigh => heq x (by omega) (by omega)
    · intro x hlow hhigh
      exact heq x (by omega) (by omega)

theorem Stored.concat (h : Stored buff p ds)
    (hlast : Stored buff (p + span (lengths ds)) [d]) : Stored buff p (ds ++ [d]) := by
  induction ds generalizing p with
  | nil => simpa [lengths] using hlast
  | cons d' ds ih =>
    obtain ⟨hlen, hdata, hrest⟩ := h
    refine ⟨hlen, hdata, ih hrest ?_⟩
    have hpos : p + 4 + d'.length + span (lengths ds) = p + span (lengths (d' :: ds)) := by
      simp only [lengths, List.map_cons, span_cons]
      omega
    rw [hpos]
    exact hlast

theorem stored_storeMsg (hlen : data.length < 2 ^ 32) : Stored (storeMsg buff q data) q [data] := by
  refine ⟨?_, ?_, trivial⟩
  · have hbytes : ∀ x, q ≤ x → x < q + 4 →
        storeMsg buff q data x = store buff q 4 data.length x := by
      intro x hlow hhigh
      exact copy_of_notMem (by omega)
    rw [load_congr hbytes, load_store]
    exact Nat.mod_eq_of_lt (by omega)
  · rw [storeMsg, slice_copy, slice_ofList]

theorem storeMsg_of_notMem {x : Nat} (hx : ¬ (q ≤ x ∧ x < q + (data.length + 4))) :
    storeMsg buff q data x = buff x := by
  rw [storeMsg, copy_of_notMem (by omega), store_of_notMem (by omega)]

theorem Stored.storeMsg (h : Stored buff p ds)
    (hdisj : p + span (lengths ds) ≤ q ∨ q + (data.length + 4) ≤ p) :
    Stored (storeMsg buff q data) p ds :=
  h.congr fun x hlow hhigh => storeMsg_of_notMem (by omega)

/-! ## The buffer follows its layout -/

/-- The buffer has the layout, `lapData` and `backData` are the payloads in it, and the consumer
has got all that was accepted before. -/
structure Repr (w : World) (l : Layout) (lapData backData : List (List (BitVec 8))) : Prop where
  valid : l.Valid
  size : w.obj.size = l.size
  read : w.obj.read = l.read
  write : w.obj.write = l.write
  acc : w.obj.acc = l.acc
  eod : w.obj.eod = l.eod.getD NO_EOD
  accSize : w.obj.accSize = span l.unread
  isEmpty : w.obj.isEmpty = span l.unread + l.held.getD 0
  held : w.held = l.held.map (fun n => (l.read, n))
  lapLengths : lengths lapData = l.lap
  backLengths : lengths backData = l.next.getD []
  lapStored : Stored w.obj.buff l.acc lapData
  backStored : Stored w.obj.buff 0 backData
  fifo : w.accepted = w.returned ++ (lapData ++ backData)
  first : 0 < l.first → w.obj.buff 0 = BitVec.ofNat 8 l.first

theorem add32_of_lt {a b : Nat} (h : a + b < 2 ^ 32) : add32 a b = a + b := Nat.mod_eq_of_lt h

theorem sub32_of_le {a b : Nat} (h : b ≤ a) (ha : a < 2 ^ 32) : sub32 a b = a - b := by
  unfold sub32
  omega

theorem positive_iff {x : Nat} (hx : x < 2 ^ 31) : positive x = true ↔ 0 < x := by
  simp only [positive, Bool.and_eq_true, decide_eq_true_eq, and_iff_left_iff_imp]
  exact fun _ => hx

section Reserve

variable {obj : RingBuffObj} {size : Nat}

theorem reserve_behind (h31 : obj.size < 2 ^ 31) (hfits : obj.write + size ≤ obj.size)
    (hfree : obj.write + size ≤ obj.read ∨ obj.read ≤ obj.write ∧ obj.isEmpty = obj.write - obj.read)
    (hpos : 0 < size) (hempty : obj.isEmpty ≤ obj.size) :
    ringBuffReserve obj size = .ok (obj.write, { obj with
      write := obj.write + size, isEmpty := obj.isEmpty + size }) := by
  have hsub : sub32 obj.size obj.write = obj.size - obj.write := sub32_of_le (by omega) (by omega)
  have hpositive := positive_iff (lt_of_le_of_lt hempty h31)
  unfold ringBuffReserve
  rw [if_neg (by omega), if_pos (by omega), add32_of_lt (by omega), add32_of_lt (by omega),
    if_neg]
  rw [hpositive]
  omega

theorem reserve_start (h31 : obj.size < 2 ^ 31) (hfull : obj.size < obj.write + size)
    (hwrite : obj.write ≤ obj.size) (hread : obj.read ≤ obj.write)
    (hempty : obj.isEmpty = obj.write - obj.read) (hroom : size ≤ obj.read) :
    ringBuffReserve obj size = .ok (0, { obj with
      eod := obj.write, write := size, isEmpty := obj.isEmpty + size }) := by
  have hsub : sub32 obj.size obj.write = obj.size - obj.write := sub32_of_le hwrite (by omega)
  have hpositive := positive_iff (show obj.isEmpty < 2 ^ 31 by omega)
  unfold ringBuffReserve
  rw [if_neg (by omega), if_neg (by omega), add32_of_lt (by omega), if_neg]
  rw [hpositive]
  omega

theorem reserve_none (h31 : obj.size < 2 ^ 31) (hsize : size ≤ obj.size)
    (hwrite : obj.write ≤ obj.size)
    (hfull : (obj.size < obj.write + size ∧ obj.read < size)
      ∨ (obj.write ≤ obj.read ∧ obj.read < obj.write + size ∧ 0 < obj.isEmpty))
    (hempty : obj.isEmpty ≤ obj.size) : ringBuffReserve obj size = .error .NO_MEM := by
  have hsub : sub32 obj.size obj.write = obj.size - obj.write := sub32_of_le hwrite (by omega)
  have hpositive := positive_iff (lt_of_le_of_lt hempty h31)
  unfold ringBuffReserve
  rw [if_neg (by omega)]
  by_cases hfits : size ≤ sub32 obj.size obj.write
  · rw [if_pos hfits, if_pos]
    rw [hpositive, add32_of_lt (by omega)]
    omega
  · rw [if_neg hfits, if_pos]
    rw [hpositive]
    omega

end Reserve

section Read

variable {obj : RingBuffObj} {size n : Nat}

section

variable (h31 : obj.size < 2 ^ 31)

include h31

theorem read_plain (hend : obj.acc + size ≤ obj.size) (havail : size ≤ obj.accSize)
    (hacc : obj.accSize ≤ obj.size) (hmark : obj.eod = NO_EOD ∨ obj.acc + size ≤ obj.eod) :
    ringBuffRead obj size = .ok (obj.acc, size, { obj with
      accSize := obj.accSize - size, acc := obj.acc + size }) := by
  have hadd : add32 obj.acc size = obj.acc + size := add32_of_lt (by omega)
  unfold ringBuffRead
  rw [if_neg (by omega), if_neg (by omega)]
  simp only [hadd, if_neg (show ¬ obj.acc + size > obj.size by omega)]
  rw [if_neg, sub32_of_le havail (by omega)]
  rintro ⟨hne, hlt⟩
  rcases hmark with hmark | hmark
  · exact hne hmark
  · omega

theorem read_restart (hfull : obj.size < obj.acc + size) (hsize : size ≤ obj.size)
    (hpos : obj.acc ≤ obj.size) (havail : size ≤ obj.accSize) (hacc : obj.accSize ≤ obj.size)
    (hmark : size ≤ obj.eod) :
    ringBuffRead obj size = .ok (0, size, { obj with
      accSize := obj.accSize - size, acc := size }) := by
  have hadd : add32 obj.acc size = obj.acc + size := add32_of_lt (by omega)
  have hzero : add32 0 size = size := by rw [add32_of_lt (by omega), Nat.zero_add]
  unfold ringBuffRead
  rw [if_neg (by omega), if_neg (by omega)]
  simp only [hadd, if_pos (show obj.acc + size > obj.size by omega), hzero]
  rw [if_neg (by omega), sub32_of_le havail (by omega)]

theorem read_reset (hend : obj.acc + size ≤ obj.size) (hpos : 0 < size)
    (havail : size ≤ obj.accSize) (hacc : obj.accSize ≤ obj.size) (hmark : obj.eod = obj.acc) :
    ringBuffRead obj size = .ok (0, size, { obj with
      accSize := obj.accSize - size, acc := size, eod := NO_EOD }) := by
  have hadd : add32 obj.acc size = obj.acc + size := add32_of_lt (by omega)
  have hne : obj.eod ≠ NO_EOD := by
    unfold NO_EOD
    omega
  unfold ringBuffRead
  rw [if_neg (by omega), if_neg (by omega)]
  simp only [hadd, if_neg (show ¬ obj.acc + size > obj.size by omega)]
  rw [if_pos ⟨hne, by omega⟩, if_pos, sub32_of_le havail (by omega)]
  rw [sub32_of_le (by omega) (by omega)]
  omega

theorem read_cut (hend : obj.acc + size ≤ obj.size) (havail : size ≤ obj.accSize)
    (hlow : obj.acc < obj.eod) (hhigh : obj.eod < obj.acc + size) :
    ∃ obj', ringBuffRead obj size = .ok (obj.acc, obj.eod - obj.acc, obj') := by
  have hadd : add32 obj.acc size = obj.acc + size := add32_of_lt (by omega)
  have hsub : sub32 obj.eod obj.acc = obj.eod - obj.acc := sub32_of_le (by omega) (by omega)
  have hne : obj.eod ≠ NO_EOD := by
    unfold NO_EOD
    omega
  unfold ringBuffRead
  rw [if_neg (by omega), if_neg (by omega)]
  simp only [hadd, if_neg (show ¬ obj.acc + size > obj.size by omega), hsub]
  rw [if_pos ⟨hne, by omega⟩, if_neg (by omega)]
  exact ⟨_, rfl⟩

end

theorem readMsg_of_read {obj₁ obj₂ : RingBuffObj} {p q : Nat}
    (hlen : ringBuffRead obj 4 = .ok (p, 4, obj₁)) (hload : load obj₁.buff p 4 = n)
    (hdata : ringBuffRead (ringBuffFree obj₁ p 4) n = .ok (q, n, obj₂)) :
    ringBuffReadMsg obj = { err := .OK, data := q, messageSize := n, obj := obj₂ } := by
  unfold ringBuffReadMsg
  rw [hlen]
  simp only [hload, hdata, ne_eq, not_true_eq_false, if_false]

theorem free_length {p : Nat} {obj₁ : RingBuffObj} (hp : p + 4 < 2 ^ 32)
    (hempty : 4 ≤ obj₁.isEmpty) (h32 : obj₁.isEmpty < 2 ^ 32) :
    ringBuffFree obj₁ p 4 = { obj₁ with read := p + 4, isEmpty := obj₁.isEmpty - 4 } := by
  rw [ringBuffFree, add32_of_lt hp, sub32_of_le hempty h32]

theorem readMsg_take (h31 : obj.size < 2 ^ 31) (hload : load obj.buff obj.acc 4 = n)
    (hend : obj.acc + 4 + n ≤ obj.size) (hmark : obj.eod = NO_EOD ∨ obj.acc + 4 + n ≤ obj.eod)
    (havail : n + 4 ≤ obj.accSize) (hacc : obj.accSize ≤ obj.size)
    (hempty : obj.accSize ≤ obj.isEmpty) (hlim : obj.isEmpty ≤ obj.size) :
    ringBuffReadMsg obj = {
      err := .OK
      data := obj.acc + 4
      messageSize := n
      obj := { obj with
        read := obj.acc + 4
        acc := obj.acc + 4 + n
        accSize := obj.accSize - (n + 4)
        isEmpty := obj.isEmpty - 4 } } := by
  have hlen := @read_plain obj 4 h31 (by omega) (by omega) hacc
    (hmark.imp_right fun h => by omega)
  refine readMsg_of_read hlen hload ?_
  rw [free_length (by omega) (by simp only; omega) (by simp only; omega)]
  rw [read_plain (by simpa using h31) (by simpa using hend) (by simp only; omega)
    (by simp only; omega) (by simpa using hmark)]
  simp [Nat.sub_sub, Nat.add_comm]

theorem readMsg_takeNext (h31 : obj.size < 2 ^ 31) (hload : load obj.buff 0 4 = n)
    (hroom : n + 4 ≤ obj.acc) (hpos : obj.acc ≤ obj.size) (hmark : obj.eod = obj.acc)
    (havail : n + 4 ≤ obj.accSize) (hacc : obj.accSize ≤ obj.size)
    (hempty : obj.accSize ≤ obj.isEmpty) (hlim : obj.isEmpty ≤ obj.size) :
    ringBuffReadMsg obj = {
      err := .OK
      data := 4
      messageSize := n
      obj := { obj with
        read := 4
        acc := 4 + n
        eod := if obj.size < obj.acc + 4 then obj.acc else NO_EOD
        accSize := obj.accSize - (n + 4)
        isEmpty := obj.isEmpty - 4 } } := by
  by_cases hsmall : obj.size < obj.acc + 4
  · have hlen := @read_restart obj 4 h31 hsmall (by omega) hpos (by omega) hacc (by omega)
    refine readMsg_of_read hlen hload ?_
    rw [free_length (by omega) (by simp only; omega) (by simp only; omega)]
    rw [read_plain (by simpa using h31) (by simp only; omega) (by simp only; omega)
      (by simp only; omega) (Or.inr (by simp only; omega))]
    simp [Nat.sub_sub, Nat.add_comm, hsmall, hmark]
  · have hlen := @read_reset obj 4 h31 (by omega) (by omega) (by omega) hacc hmark
    refine readMsg_of_read hlen hload ?_
    rw [free_length (by omega) (by simp only; omega) (by simp only; omega)]
    rw [read_plain (by simpa using h31) (by simp only; omega) (by simp only; omega)
      (by simp only; omega) (Or.inl rfl)]
    simp [Nat.sub_sub, Nat.add_comm, hsmall]

theorem readMsg_across (h31 : obj.size < 2 ^ 31) (hload : load obj.buff obj.acc 4 = n)
    (hend : obj.acc + 4 + n ≤ obj.size) (hlow : obj.acc < obj.eod)
    (hhigh : obj.eod < obj.acc + 4 + n) (havail : n + 4 ≤ obj.accSize)
    (hacc : obj.accSize ≤ obj.size) (hempty : obj.accSize ≤ obj.isEmpty)
    (hlim : obj.isEmpty ≤ obj.size) :
    (ringBuffReadMsg obj).err = .INTERNAL
      ∨ (∃ obj', ringBuffReadMsg obj = { err := .OK, data := 0, messageSize := n, obj := obj' }
        ∧ obj'.buff = obj.buff) := by
  by_cases hcut : obj.eod < obj.acc + 4
  · left
    obtain ⟨obj', hlen⟩ := @read_cut obj 4 h31 (by omega) (by omega) hlow hcut
    unfold ringBuffReadMsg
    rw [hlen]
    simp only
    rw [if_pos (by omega)]
  · have hlen := @read_plain obj 4 h31 (by omega) (by omega) hacc (Or.inr (by omega))
    have hfree := @free_length obj.acc { obj with accSize := obj.accSize - 4, acc := obj.acc + 4 }
      (by omega) (by simp only; omega) (by simp only; omega)
    rcases Nat.eq_or_lt_of_le (not_lt.mp hcut) with heq | hlt
    · right
      have hdata := @read_reset { obj with
          accSize := obj.accSize - 4, acc := obj.acc + 4, read := obj.acc + 4,
          isEmpty := obj.isEmpty - 4 } n
        h31 (by simpa using hend) (by omega) (by simp only; omega) (by simp only; omega) heq.symm
      exact ⟨_, readMsg_of_read hlen hload ((congrArg (ringBuffRead · n) hfree).trans hdata), rfl⟩
    · left
      obtain ⟨obj', hdata⟩ := @read_cut { obj with
          accSize := obj.accSize - 4, acc := obj.acc + 4, read := obj.acc + 4,
          isEmpty := obj.isEmpty - 4 } n
        h31 (by simpa using hend) (by simp only; omega) hlt hhigh
      unfold ringBuffReadMsg
      rw [hlen]
      simp only [ne_eq, not_true_eq_false, if_false, hload, hfree, hdata]
      rw [if_pos (by omega)]

theorem readMsg_empty (hsize : 4 ≤ obj.size) (hacc : obj.accSize = 0) :
    ringBuffReadMsg obj = { err := .NO_MEM, obj := obj } := by
  have hread : ringBuffRead obj 4 = .error .NO_MEM := by
    unfold ringBuffRead
    rw [if_neg (by omega), if_pos (by omega)]
  unfold ringBuffReadMsg
  rw [hread]

theorem readMsg_small (hsize : obj.size < 4) :
    ringBuffReadMsg obj = { err := .BAD_ARG, obj := obj } := by
  have hread : ringBuffRead obj 4 = .error .BAD_ARG := by
    unfold ringBuffRead
    rw [if_pos hsize]
  unfold ringBuffReadMsg
  rw [hread]

end Read

/-! ## Writing -/

section Write

variable {w : World} {l : Layout} {lapData backData : List (List (BitVec 8))}

theorem Repr.create {size : Nat} {obj : RingBuffObj} (h : ringBuffCreate buff size = .ok obj) :
    Repr { obj := obj } { size := size } [] [] := by
  unfold ringBuffCreate at h
  split_ifs at h with hsize
  obtain rfl := Except.ok.inj h
  refine ⟨⟨?_, ?_, ?_, ?_, ?_⟩, rfl, rfl, rfl, rfl, rfl, rfl, rfl, rfl, rfl, rfl, trivial, trivial,
    rfl, ?_⟩
  · exact Nat.zero_le size
  · simp [unread]
  · simp
  · simp
  · simp
  · simp

theorem writeMsg_of_reserve {obj obj' : RingBuffObj} (hpos : 0 < data.length)
    (hsize : data.length + 4 ≤ obj.size)
    (hreserve : ringBuffReserve obj (data.length + 4) = .ok (q, obj')) :
    ringBuffWriteMsg obj data = (.OK, { obj' with
      buff := storeMsg obj'.buff q data, accSize := add32 obj'.accSize (data.length + 4) }) := by
  unfold ringBuffWriteMsg
  rw [if_neg (by omega), hreserve]
  rfl

def World.accept (w : World) (obj : RingBuffObj) (data : List (BitVec 8)) : World :=
  { w with obj := obj, accepted := w.accepted ++ [data] }

theorem exec_write_ok {obj : RingBuffObj} (h : ringBuffWriteMsg w.obj data = (.OK, obj)) :
    w.exec (.write data) = (.wrote .OK, w.accept obj data) := by
  simp [World.exec, h, World.accept]

theorem exec_write_refused {err : RingBuffErr} (h : ringBuffWriteMsg w.obj data = (err, w.obj))
    (herr : err ≠ .OK) : w.exec (.write data) = (.wrote err, w) := by
  simp [World.exec, h, herr]

section

variable (h : Repr w l lapData backData)

include h

theorem Repr.bounds : w.obj.accSize ≤ w.obj.isEmpty ∧ w.obj.isEmpty ≤ l.size := by
  have hle := h.valid.span_unread_le
  rw [h.accSize, h.isEmpty]
  omega

theorem Repr.backData_nil (hnext : l.next = none) : backData = [] := by
  apply eq_nil_of_lengths
  rw [h.backLengths, hnext]
  rfl

theorem Repr.write_of_next_none (hnext : l.next = none) :
    w.obj.write = l.lapEnd ∧ w.obj.isEmpty = w.obj.write - w.obj.read
      ∧ w.obj.read ≤ w.obj.write := by
  have hwrite : w.obj.write = l.lapEnd := by simp [h.write, Layout.write, hnext]
  refine ⟨hwrite, ?_⟩
  have hunread : l.unread = l.lap := by simp [Layout.unread, hnext]
  rw [h.isEmpty, hwrite, h.read, hunread]
  simp only [Layout.lapEnd, Layout.acc]
  omega

end

theorem storeMsg_zero (hpos : q = 0) :
    storeMsg buff q data 0 = BitVec.ofNat 8 data.length := by
  subst hpos
  rw [storeMsg, copy_of_notMem (by omega), store, if_pos (by omega)]
  simp [byte]

section

variable (h : Repr w l lapData backData) (h31 : l.size < 2 ^ 31)

include h h31

theorem Repr.accept {l' : Layout} {lapData' backData' : List (List (BitVec 8))}
    (hpos : 0 < data.length) (hsize : data.length + 4 ≤ l.size) (hvalid : l'.Valid)
    (hsame : l'.size = l.size ∧ l'.read = l.read ∧ l'.held = l.held)
    (hunread : l'.unread = l.unread ++ [data.length])
    (hreserve : ringBuffReserve w.obj (data.length + 4) = .ok (q, { w.obj with
      write := l'.write
      eod := l'.eod.getD NO_EOD
      isEmpty := w.obj.isEmpty + (data.length + 4) })) (hlap : lengths lapData' = l'.lap)
    (hback : lengths backData' = l'.next.getD [])
    (hlapStored : Stored (storeMsg w.obj.buff q data) l.acc lapData')
    (hbackStored : Stored (storeMsg w.obj.buff q data) 0 backData')
    (hdata : lapData' ++ backData' = lapData ++ backData ++ [data])
    (hfirst : 0 < l'.first → storeMsg w.obj.buff q data 0 = BitVec.ofNat 8 l'.first) :
    ∃ obj, w.exec (.write data) = (.wrote .OK, w.accept obj data)
      ∧ Repr (w.accept obj data) l' lapData' backData' := by
  obtain ⟨hacc, hempty⟩ := h.bounds
  obtain ⟨hsame₁, hsame₂, hsame₃⟩ := hsame
  have hlacc : l'.acc = l.acc := by simp [Layout.acc, hsame₂, hsame₃]
  have hobj := h.size
  refine ⟨_, exec_write_ok (writeMsg_of_reserve hpos (by omega) hreserve), ?_⟩
  exact
    { valid := hvalid
      size := h.size.trans hsame₁.symm
      read := h.read.trans hsame₂.symm
      write := rfl
      acc := h.acc.trans hlacc.symm
      eod := rfl
      accSize := by
        have hadd : add32 w.obj.accSize (data.length + 4) = w.obj.accSize + (data.length + 4) :=
          add32_of_lt (by omega)
        rw [hunread, span_append]
        exact hadd.trans (by rw [h.accSize]; simp)
      isEmpty := by
        rw [hunread, span_append, hsame₃]
        have hcount := h.isEmpty
        simp only [World.accept, span_cons, span_nil]
        omega
      held := by
        rw [hsame₂, hsame₃]
        exact h.held
      lapLengths := hlap
      backLengths := hback
      lapStored := by
        rw [hlacc]
        exact hlapStored
      backStored := hbackStored
      fifo := by
        rw [hdata]
        simp [World.accept, h.fifo]
      first := hfirst }

theorem Repr.append (hnext : l.next = none) (hpos : 0 < data.length)
    (hfits : l.lapEnd + (data.length + 4) ≤ l.size) :
    ∃ obj, w.exec (.write data) = (.wrote .OK, w.accept obj data)
      ∧ Repr (w.accept obj data) (l.append data.length) (lapData ++ [data]) [] := by
  obtain ⟨hacc, hempty⟩ := h.bounds
  have hsize := h.size
  have hread := h.read
  have hlap := h.lapLengths
  obtain rfl := h.backData_nil hnext
  obtain ⟨hwrite, hunfreed, hbehind⟩ := h.write_of_next_none hnext
  have hlapEnd : l.lapEnd = l.acc + span (lengths lapData) := by
    rw [hlap]
    rfl
  have hreserve := @reserve_behind w.obj (data.length + 4) (by omega) (by omega)
    (Or.inr ⟨hbehind, hunfreed⟩) (by omega) (by omega)
  have hold : Stored (storeMsg w.obj.buff w.obj.write data) l.acc lapData :=
    h.lapStored.storeMsg (Or.inl (by omega))
  have hlast : Stored (storeMsg w.obj.buff w.obj.write data) (l.acc + span (lengths lapData))
      [data] := by
    rw [← hlapEnd, ← hwrite]
    exact stored_storeMsg (by omega)
  refine @Repr.accept _ _ _ _ _ _ h h31 _ _ _ hpos (by omega) (h.valid.append hnext hpos hfits)
    ⟨rfl, rfl, rfl⟩ ?_ (hreserve.trans ?_) ?_ h.backLengths (hold.concat hlast) trivial ?_ ?_
  · simp [Layout.unread, Layout.append, hnext]
  · have heod := h.eod
    simp only [Layout.eod, hnext] at heod
    simp only [Layout.append, Layout.write, Layout.eod, hnext, heod, hwrite]
    simp [Layout.lapEnd, Layout.acc, Nat.add_assoc]
  · simp only [lengths] at hlap
    simp [Layout.append, lengths, hlap]
  · simp
  · simp only [Layout.append]
    split_ifs with hzero
    · intro _
      exact storeMsg_zero (by omega)
    · intro hfirst
      rw [storeMsg_of_notMem (by omega)]
      exact h.first hfirst

theorem Repr.wrap (hnext : l.next = none) (hpos : 0 < data.length)
    (hfull : l.size < l.lapEnd + (data.length + 4)) (hroom : data.length + 4 ≤ l.read) :
    ∃ obj, w.exec (.write data) = (.wrote .OK, w.accept obj data)
      ∧ Repr (w.accept obj data) (l.wrap data.length) lapData [data] := by
  have hsize := h.size
  have hread := h.read
  have hend := h.valid.lapEnd_le
  obtain rfl := h.backData_nil hnext
  obtain ⟨hwrite, hunfreed, hbehind⟩ := h.write_of_next_none hnext
  have hacc : l.read ≤ l.acc := by simp [Layout.acc]
  have hreserve := @reserve_start w.obj (data.length + 4) (by omega) (by omega) (by omega) hbehind
    hunfreed (by omega)
  refine @Repr.accept _ _ _ _ _ _ h h31 _ _ _ hpos (by omega) (h.valid.wrap hnext hpos hroom)
    ⟨rfl, rfl, rfl⟩ ?_ (hreserve.trans ?_) h.lapLengths ?_
    (h.lapStored.storeMsg (Or.inr (by omega))) (stored_storeMsg (by omega)) ?_ ?_
  · simp [Layout.unread, Layout.wrap, hnext]
  · simp only [Layout.wrap, Layout.write, Layout.eod, hwrite]
    simp [Layout.lapEnd, Layout.acc]
  · rfl
  · simp
  · intro _
    exact storeMsg_zero rfl

theorem Repr.appendNext {back : List Nat} (hnext : l.next = some back) (hpos : 0 < data.length)
    (hroom : span back + (data.length + 4) ≤ l.read) :
    ∃ obj, w.exec (.write data) = (.wrote .OK, w.accept obj data)
      ∧ Repr (w.accept obj data) (l.appendNext back data.length) lapData (backData ++ [data]) := by
  obtain ⟨hacc, hempty⟩ := h.bounds
  have hsize := h.size
  have hread := h.read
  have hend := h.valid.lapEnd_le
  have hback := h.backLengths
  have hwrite : w.obj.write = span back := by simp [h.write, Layout.write, hnext]
  have hne : 0 < span back := span_pos (h.valid.next _ hnext).1
  have hreadle : l.read ≤ l.acc ∧ l.acc ≤ l.lapEnd := by
    simp [Layout.acc, Layout.lapEnd]
  have hreserve := @reserve_behind w.obj (data.length + 4) (by omega) (by omega)
    (Or.inl (by omega)) (by omega) (by omega)
  have hold : Stored (storeMsg w.obj.buff w.obj.write data) 0 backData := by
    refine h.backStored.storeMsg (Or.inl ?_)
    rw [hback, hnext, Option.getD_some]
    omega
  have hlast : Stored (storeMsg w.obj.buff w.obj.write data) (0 + span (lengths backData))
      [data] := by
    rw [hback, hnext, Option.getD_some, Nat.zero_add, ← hwrite]
    exact stored_storeMsg (by omega)
  refine @Repr.accept _ _ _ _ _ _ h h31 _ _ _ hpos (by omega)
    (h.valid.appendNext hnext hpos hroom) ⟨rfl, rfl, rfl⟩ ?_ (hreserve.trans ?_) h.lapLengths ?_
    (h.lapStored.storeMsg (Or.inr (by omega))) (hold.concat hlast) ?_ ?_
  · simp [Layout.unread, Layout.appendNext, hnext]
  · have heod := h.eod
    simp only [Layout.eod, hnext] at heod
    simp only [Layout.appendNext, Layout.write, Layout.eod, heod, hwrite]
    simp [Layout.lapEnd, Layout.acc]
  · simp only [lengths, hnext, Option.getD_some] at hback
    simp [Layout.appendNext, lengths, hback]
  · simp
  · intro hfirst
    rw [storeMsg_of_notMem (by omega)]
    exact h.first hfirst

theorem Repr.refuse (hput : l.put data.length = none) :
    ∃ err, err ≠ .OK ∧ w.exec (.write data) = (.wrote err, w) := by
  obtain ⟨hacc, hempty⟩ := h.bounds
  have hsize := h.size
  have hread := h.read
  have hend := h.valid.lapEnd_le
  have hreadle : l.read ≤ l.acc ∧ l.acc ≤ l.lapEnd := by
    simp [Layout.acc, Layout.lapEnd]
  by_cases hbad : data.length = 0 ∨ data.length + 4 > w.obj.size
  · refine ⟨.BAD_ARG, by decide, exec_write_refused ?_ (by decide)⟩
    unfold ringBuffWriteMsg
    rw [if_pos hbad]
  have hreserve : ringBuffReserve w.obj (data.length + 4) = .error .NO_MEM := by
    rcases Layout.put_eq_none hput with hzero | ⟨hnext, hfull, hroom⟩ | ⟨back, hnext, hroom⟩
    · exact absurd (Or.inl hzero) hbad
    · obtain ⟨hwrite, -, -⟩ := h.write_of_next_none hnext
      exact reserve_none (by omega) (by omega) (by omega) (Or.inl (by omega)) (by omega)
    · have hwrite : w.obj.write = span back := by simp [h.write, Layout.write, hnext]
      obtain ⟨hne, hback⟩ := h.valid.next back hnext
      have hsome : 0 < w.obj.isEmpty := by
        have hpos := span_pos hne
        rw [h.isEmpty, Layout.unread, hnext, Option.getD_some, span_append]
        omega
      exact reserve_none (by omega) (by omega) (by omega) (Or.inr (by omega)) (by omega)
  refine ⟨.NO_MEM, by decide, exec_write_refused ?_ (by decide)⟩
  unfold ringBuffWriteMsg
  rw [if_neg hbad, hreserve]

/-- **The producer's call.** -/
theorem Repr.write_msg (data : List (BitVec 8)) :
    ∃ lapData' backData' err,
      (w.exec (.write data)).1 = .wrote err
      ∧ ((w.exec (.write data)).2.accepted = w.accepted
          ∨ (w.exec (.write data)).2.accepted = w.accepted ++ [data])
      ∧ Repr (w.exec (.write data)).2 (l.step (.write data.length)) lapData' backData' := by
  have hstep : l.step (.write data.length) = (l.put data.length).getD l := rfl
  rw [hstep]
  cases hput : l.put data.length with
  | none =>
    obtain ⟨err, -, hexec⟩ := h.refuse h31 hput
    rw [hexec]
    exact ⟨lapData, backData, err, rfl, Or.inl rfl, h⟩
  | some l' =>
    obtain ⟨hpos, hput⟩ := put_eq_some hput
    rcases hput with ⟨hnext, hfits, rfl⟩ | ⟨hnext, hfull, hroom, rfl⟩ | ⟨back, hnext, hroom, rfl⟩
    · obtain ⟨obj, hexec, hrepr⟩ := h.append h31 hnext hpos hfits
      rw [hexec]
      exact ⟨_, _, _, rfl, Or.inr rfl, hrepr⟩
    · obtain ⟨obj, hexec, hrepr⟩ := h.wrap h31 hnext hpos hfull hroom
      rw [hexec]
      exact ⟨_, _, _, rfl, Or.inr rfl, hrepr⟩
    · obtain ⟨obj, hexec, hrepr⟩ := h.appendNext h31 hnext hpos hroom
      rw [hexec]
      exact ⟨_, _, _, rfl, Or.inr rfl, hrepr⟩

end

end Write

/-! ## Consuming -/

section Consume

variable {w : World} {l : Layout} {lapData backData : List (List (BitVec 8))} {n : Nat}

theorem Repr.free (h : Repr w l lapData backData) (h31 : l.size < 2 ^ 31)
    (hheld : l.held = some n) :
    w.exec .consume = (.freed, { w with obj := ringBuffFree w.obj l.read n, held := none })
      ∧ Repr { w with obj := ringBuffFree w.obj l.read n, held := none } l.release lapData
        backData := by
  obtain ⟨hacc, hempty⟩ := h.bounds
  have hend := h.valid.lapEnd_le
  have hcount := h.isEmpty
  have hwheld := h.held
  simp only [hheld, Option.map_some] at hwheld
  simp only [hheld, Option.getD_some] at hcount
  simp only [Layout.lapEnd, Layout.acc, hheld, Option.getD_some] at hend
  have hlacc : l.release.acc = l.acc := by simp [Layout.release, Layout.acc]
  refine ⟨by simp [World.exec, hwheld], ?_⟩
  exact
    { valid := h.valid.release
      size := h.size
      read := by
        simp only [ringBuffFree, Layout.release, Layout.acc, hheld, Option.getD_some]
        exact add32_of_lt (by omega)
      write := by
        rw [Layout.write, Layout.lapEnd, hlacc]
        exact h.write
      acc := h.acc.trans hlacc.symm
      eod := by
        rw [Layout.eod, Layout.lapEnd, hlacc]
        exact h.eod
      accSize := h.accSize
      isEmpty := by
        have hsub : sub32 w.obj.isEmpty n = w.obj.isEmpty - n := sub32_of_le (by omega) (by omega)
        simp only [ringBuffFree, hsub, Layout.release, Option.getD_none]
        have hunread : l.release.unread = l.unread := rfl
        simp only [Layout.release] at hunread
        rw [hunread]
        omega
      held := rfl
      lapLengths := h.lapLengths
      backLengths := h.backLengths
      lapStored := by
        rw [hlacc]
        exact h.lapStored
      backStored := h.backStored
      fifo := h.fifo
      first := h.first }

def World.deliver (w : World) (obj : RingBuffObj) (p : Nat) (d : List (BitVec 8)) : World :=
  { w with obj := obj, held := some (p, d.length), returned := w.returned ++ [d] }

theorem exec_read_ok {obj : RingBuffObj} (hheld : w.held = none)
    (hmsg : ringBuffReadMsg w.obj = { err := .OK, data := p, messageSize := n, obj := obj })
    (hdata : slice obj.buff p n = d) :
    w.exec .consume = (.readMsg .OK, w.deliver obj p d) := by
  subst hdata
  simp [World.exec, hheld, hmsg, World.deliver]

theorem exec_read_error (hheld : w.held = none) (herr : (ringBuffReadMsg w.obj).err ≠ .OK) :
    w.exec .consume = (.readMsg (ringBuffReadMsg w.obj).err,
      { w with obj := (ringBuffReadMsg w.obj).obj }) := by
  simp [World.exec, hheld, herr]

section

variable (h : Repr w l lapData backData)

include h

theorem Repr.deliver {l' : Layout} {lapData' backData' : List (List (BitVec 8))}
    (hheld : l.held = none) (hvalid : l'.Valid)
    (hsame : l'.size = l.size ∧ l'.write = l.write ∧ l'.first = l.first)
    (hheld' : l'.held = some d.length) (hunread : l.unread = d.length :: l'.unread)
    (hmsg : ringBuffReadMsg w.obj = {
      err := .OK
      data := l'.read
      messageSize := d.length
      obj := { w.obj with
        read := l'.read
        acc := l'.acc
        eod := l'.eod.getD NO_EOD
        accSize := w.obj.accSize - (d.length + 4)
        isEmpty := w.obj.isEmpty - 4 } }) (hlap : lengths lapData' = l'.lap)
    (hback : lengths backData' = l'.next.getD []) (hlapStored : Stored w.obj.buff l'.acc lapData')
    (hbackStored : Stored w.obj.buff 0 backData') (hslice : slice w.obj.buff l'.read d.length = d)
    (hdata : lapData ++ backData = d :: (lapData' ++ backData')) :
    ∃ obj, w.exec .consume = (.readMsg .OK, w.deliver obj l'.read d)
      ∧ Repr (w.deliver obj l'.read d) l' lapData' backData' := by
  have hwheld : w.held = none := by simp [h.held, hheld]
  have hacc := h.accSize
  have hcount := h.isEmpty
  simp only [hunread, span_cons, hheld, Option.getD_none] at hacc hcount
  obtain ⟨hsize, hwrite, hfirst⟩ := hsame
  refine ⟨_, exec_read_ok hwheld hmsg hslice, ?_⟩
  exact
    { valid := hvalid
      size := h.size.trans hsize.symm
      read := rfl
      write := h.write.trans hwrite.symm
      acc := rfl
      eod := rfl
      accSize := by
        simp only [World.deliver]
        omega
      isEmpty := by
        simp only [World.deliver, hheld', Option.getD_some]
        omega
      held := by simp [World.deliver, hheld']
      lapLengths := hlap
      backLengths := hback
      lapStored := hlapStored
      backStored := hbackStored
      fifo := by
        have hfifo := h.fifo
        rw [hdata] at hfifo
        simp [World.deliver, hfifo]
      first := by
        rw [hfirst]
        exact h.first }

theorem Repr.take {rest : List Nat} (h31 : l.size < 2 ^ 31) (hheld : l.held = none)
    (hlap : l.lap = n :: rest) (hcross : l.crosses = false) :
    ∃ d lapData' obj, w.exec .consume = (.readMsg .OK, w.deliver obj (l.acc + 4) d)
      ∧ Repr (w.deliver obj (l.acc + 4) d) (l.take n rest) lapData' backData := by
  obtain ⟨hacc, hempty⟩ := h.bounds
  have hsize := h.size
  have hend := h.valid.lapEnd_le
  have hpos := h.acc
  obtain ⟨d, lapData, rfl, rfl, hrest⟩ := eq_cons_of_lengths (h.lapLengths.trans hlap)
  obtain ⟨hload, hslice, htail⟩ := h.lapStored
  simp only [Layout.lapEnd, hlap, span_cons] at hend
  have hmark : w.obj.eod = NO_EOD ∨ w.obj.acc + 4 + d.length ≤ w.obj.eod := by
    have heod := h.eod
    cases hnext : l.next with
    | some back =>
      simp only [Layout.eod, hnext, Option.getD_some, Layout.lapEnd, hlap, span_cons] at heod
      omega
    | none =>
      simp only [Layout.eod, hnext] at heod
      cases hstale : l.stale with
      | none => exact Or.inl (by simpa [hstale] using heod)
      | some mark =>
        simp only [hstale, Option.getD_some] at heod
        simp only [Layout.crosses, hnext, hstale, hlap, decide_eq_false_iff_not] at hcross
        omega
  have hlacc : (l.take d.length rest).acc = l.acc + 4 + d.length := by
    simp [Layout.take, Layout.acc]
  have havail : d.length + 4 ≤ w.obj.accSize := by
    rw [h.accSize, Layout.unread, hlap, List.cons_append, span_cons]
    omega
  have hmsg := @readMsg_take w.obj d.length (by omega) (by rw [hpos]; exact hload) (by omega)
    hmark havail (by omega) hacc (by omega)
  refine ⟨d, lapData, h.deliver hheld (h.valid.take hlap) ⟨rfl, ?_, rfl⟩ rfl ?_ (hmsg.trans ?_)
    hrest h.backLengths ?_ h.backStored hslice rfl⟩
  · cases hnext : l.next <;> simp [Layout.write, Layout.take, hnext, Layout.lapEnd, Layout.acc, hlap,
      hheld, Nat.add_assoc, Nat.add_left_comm]
  · simp [Layout.unread, Layout.take, hlap]
  · have heod : (l.take d.length rest).eod = l.eod := by
      cases hnext : l.next <;> simp [Layout.eod, Layout.take, hnext, Layout.lapEnd, Layout.acc,
        hlap, hheld, Nat.add_assoc, Nat.add_left_comm]
    have hread : (l.take d.length rest).read = l.acc + 4 := rfl
    rw [heod, hlacc, hread, ← h.eod, hpos]
  · rw [hlacc]
    exact htail

theorem Repr.takeNext {rest : List Nat} (h31 : l.size < 2 ^ 31) (hheld : l.held = none)
    (hlap : l.lap = []) (hnext : l.next = some (n :: rest)) :
    ∃ d lapData' obj, w.exec .consume = (.readMsg .OK, w.deliver obj 4 d)
      ∧ Repr (w.deliver obj 4 d) (l.takeNext n rest) lapData' [] := by
  obtain ⟨hacc, hempty⟩ := h.bounds
  have hsize := h.size
  have hend := h.valid.lapEnd_le
  have hroom := (h.valid.next _ hnext).2
  have hpos := h.acc
  have hread : l.acc = l.read := by simp [Layout.acc, hheld]
  obtain rfl := eq_nil_of_lengths (h.lapLengths.trans hlap)
  have hback : lengths backData = n :: rest := by rw [h.backLengths, hnext, Option.getD_some]
  obtain ⟨d, backData, rfl, rfl, hrest⟩ := eq_cons_of_lengths hback
  obtain ⟨hload, hslice, htail⟩ := h.backStored
  simp only [Layout.lapEnd, hlap, span_nil] at hend
  simp only [span_cons] at hroom
  have heod : w.obj.eod = w.obj.acc := by
    rw [h.eod, hpos]
    simp [Layout.eod, hnext, Layout.lapEnd, hlap]
  have havail : d.length + 4 ≤ w.obj.accSize := by
    rw [h.accSize, Layout.unread, hlap, hnext]
    simp
  have hmsg := @readMsg_takeNext w.obj d.length (by omega) hload (by omega) (by omega) heod
    havail (by omega) hacc (by omega)
  refine ⟨d, backData, h.deliver hheld (h.valid.takeNext hlap hnext) ⟨rfl, ?_, rfl⟩ rfl ?_
    (hmsg.trans ?_) hrest rfl ?_ trivial ?_ (by simp)⟩
  · simp [Layout.write, Layout.takeNext, hnext, Layout.lapEnd, Layout.acc, Nat.add_assoc,
      Nat.add_left_comm]
  · simp [Layout.unread, Layout.takeNext, hlap, hnext]
  · have hread : (l.takeNext d.length rest).read = 4 := rfl
    have hnacc : (l.takeNext d.length rest).acc = 4 + d.length := rfl
    have hmark : (l.takeNext d.length rest).eod.getD NO_EOD
        = if w.obj.size < w.obj.acc + 4 then w.obj.acc else NO_EOD := by
      simp only [Layout.eod, Layout.takeNext, hsize, hpos]
      split_ifs <;> rfl
    rw [hread, hnacc, hmark]
  · have hlacc : (l.takeNext d.length rest).acc = 0 + 4 + d.length := by
      simp [Layout.takeNext, Layout.acc]
    rw [hlacc]
    exact htail
  · have hread : (l.takeNext d.length rest).read = 0 + 4 := rfl
    rw [hread]
    exact hslice

theorem Repr.empty (hsize : 4 ≤ l.size) (hheld : l.held = none) (hget : l.get = none) :
    w.exec .consume = (.readMsg .NO_MEM, w) ∧ w.returned = w.accepted := by
  obtain ⟨hlap, hnext⟩ : l.lap = [] ∧ l.next = none := by
    cases hlap : l.lap with
    | cons n rest => simp [Layout.get, hlap] at hget
    | nil =>
      cases hnext : l.next with
      | none => exact ⟨rfl, rfl⟩
      | some back =>
        cases back with
        | nil => exact absurd rfl (h.valid.next [] hnext).1
        | cons n rest => simp [Layout.get, hlap, hnext] at hget
  obtain rfl := h.backData_nil hnext
  obtain rfl := eq_nil_of_lengths (h.lapLengths.trans hlap)
  have hacc : w.obj.accSize = 0 := by simp [h.accSize, Layout.unread, hlap, hnext]
  have hmsg := readMsg_empty (by rw [h.size]; exact hsize) hacc
  refine ⟨?_, ?_⟩
  · rw [exec_read_error (by simp [h.held, hheld]) (by simp [hmsg]), hmsg]
  · have hfifo := h.fifo
    simpa using hfifo.symm

/-- **The consumer's call**, unless the read fails. -/
theorem Repr.consume (h31 : l.size < 2 ^ 31) (hfails : l.fails = false) :
    ∃ lapData' backData',
      ((w.exec .consume).1 = .freed ∨ (w.exec .consume).1 = .readMsg .OK
        ∨ ((w.exec .consume).1 = .readMsg .NO_MEM ∧ w.returned = w.accepted))
      ∧ (w.exec .consume).2.accepted = w.accepted
      ∧ Repr (w.exec .consume).2 (l.step .consume) lapData' backData' := by
  cases hheld : l.held with
  | some n =>
    obtain ⟨hexec, hrepr⟩ := h.free h31 hheld
    have hstep : l.step .consume = l.release := by simp [Layout.step, hheld]
    rw [hexec, hstep]
    exact ⟨_, _, Or.inl rfl, rfl, hrepr⟩
  | none =>
    have hstep : l.step .consume = l.get.getD l := by simp [Layout.step, hheld]
    obtain ⟨hsize, hcross⟩ : 4 ≤ l.size ∧ l.crosses = false := by
      simpa [Layout.fails, hheld] using hfails
    rw [hstep]
    cases hlap : l.lap with
    | cons n rest =>
      obtain ⟨d, lapData', obj, hexec, hrepr⟩ := h.take h31 hheld hlap hcross
      have hget : l.get = some (l.take n rest) := by simp [Layout.get, hlap]
      rw [hexec, hget]
      exact ⟨_, _, Or.inr (Or.inl rfl), rfl, hrepr⟩
    | nil =>
      cases hget : l.get with
      | none =>
        obtain ⟨hexec, hall⟩ := h.empty hsize hheld hget
        rw [hexec]
        exact ⟨_, _, Or.inr (Or.inr ⟨rfl, hall⟩), rfl, h⟩
      | some l' =>
        obtain ⟨n, rest, hnext, rfl⟩ := Layout.get_of_lap_nil hlap hget
        obtain ⟨d, lapData', obj, hexec, hrepr⟩ := h.takeNext h31 hheld hlap hnext
        rw [hexec]
        exact ⟨_, _, Or.inr (Or.inl rfl), rfl, hrepr⟩

/-- **A read that fails.** It is an error, or the payload that is returned is what lies at the
start of the buffer. -/
theorem Repr.fails (h31 : l.size < 2 ^ 31) (hfails : l.fails = true) :
    (w.exec .consume).1 = .readMsg .INTERNAL ∨ (w.exec .consume).1 = .readMsg .BAD_ARG
      ∨ ∃ d lapData', lapData = d :: lapData' ∧ 0 < d.length
        ∧ (w.exec .consume).2.accepted = w.accepted
        ∧ (w.exec .consume).2.returned = w.returned ++ [slice w.obj.buff 0 d.length]
        ∧ w.obj.buff 0 = BitVec.ofNat 8 l.first := by
  obtain ⟨hacc, hempty⟩ := h.bounds
  have hsize := h.size
  have hpos := h.acc
  obtain ⟨hheld, hbad⟩ : l.held = none ∧ (l.size < 4 ∨ l.crosses = true) := by
    simpa [Layout.fails] using hfails
  have hwheld : w.held = none := by simp [h.held, hheld]
  rcases hbad with hsmall | hcross
  · have hmsg := @readMsg_small w.obj (by omega)
    right; left
    rw [exec_read_error hwheld (by simp [hmsg]), hmsg]
  obtain ⟨mark, n, rest, hnext, hstale, hlap, hhigh⟩ := Layout.crosses_eq_true hcross
  have hend := h.valid.lapEnd_le
  have heod : w.obj.eod = mark := by simp [h.eod, Layout.eod, hnext, hstale]
  have hnpos : 0 < n := h.valid.pos n (by simp [Layout.unread, hlap])
  have hfirst := h.first (h.valid.first (Or.inr (by simp [hstale])))
  obtain ⟨-, hmark⟩ := h.valid.stale mark hstale
  simp only [Layout.lapEnd, hlap, span_cons] at hend
  have havail : n + 4 ≤ w.obj.accSize := by
    rw [h.accSize, Layout.unread, hlap, List.cons_append, span_cons]
    omega
  obtain ⟨d, lapData', rfl, rfl, -⟩ := eq_cons_of_lengths (h.lapLengths.trans hlap)
  obtain ⟨hload, -, -⟩ := h.lapStored
  rw [← hpos] at hload
  rcases readMsg_across (by omega) hload (by omega) (by omega) (by omega) havail (by omega) hacc
    (by omega) with herr | ⟨obj, hmsg, hbuff⟩
  · left
    rw [exec_read_error hwheld (by simp [herr]), herr]
  · right; right
    rw [exec_read_ok hwheld hmsg rfl, hbuff]
    exact ⟨d, lapData', rfl, hnpos, rfl, rfl, hfirst⟩

end

end Consume

end RktIo.Ring
