import RktIo.Lib.CallRun
import RktIo.Ring.Refinement

/-!
# Delivery of messages

The consumer of the ring buffer is to get the payloads that were accepted, in their order. Whether
it does depends on the lengths of the messages and the order of the calls only: it gets them,
whatever they contain, exactly if no read fails in the layout (`delivered_iff`). Where all lengths
and the size are multiples of four, none does (`delivered_of_aligned`).
-/

namespace RktIo.Ring

open Bytes CallRun List

def ReadOk (w : World) (err : RingBuffErr) : Prop :=
  err ≠ .INTERNAL ∧ err ≠ .BAD_ARG ∧ (err = .NO_MEM → w.returned = w.accepted)

/-- The consumer always has a prefix of what was accepted, and is told that there is nothing only
if it has everything. -/
def Delivers (w : World) (events : List Event) : Prop :=
  (∀ t, Visits step w events t → t.returned <+: t.accepted)
    ∧ ∀ t e err t', Makes step w events t e → step t e = some (.readMsg err, t') → ReadOk t err

variable {w : World} {e : Event} {events : List Event} {l : Layout}
  {lapData backData : List (List (BitVec 8))} {shapes : List Shape}

theorem delivers_cons :
    Delivers w (e :: events)
      ↔ w.returned <+: w.accepted ∧ (∀ err, (w.exec e).1 = .readMsg err → ReadOk w err)
        ∧ Delivers (w.exec e).2 events := by
  constructor
  · rintro ⟨hvisits, hmakes⟩
    refine ⟨hvisits w (Or.inl rfl), ?_, ?_, ?_⟩
    · intro err herr
      refine hmakes w e err (w.exec e).2 (Or.inl ⟨rfl, rfl⟩) ?_
      rw [step, ← herr]
    · intro t ht
      exact hvisits t (Or.inr ⟨_, _, rfl, ht⟩)
    · intro t e' err t' hm
      exact hmakes t e' err t' (Or.inr ⟨_, _, rfl, hm⟩)
  · rintro ⟨hdelivered, hread, hvisits, hmakes⟩
    refine ⟨?_, ?_⟩
    · rintro t (rfl | ⟨r, s, hstep, ht⟩)
      · exact hdelivered
      · obtain rfl := (Prod.mk.inj (Option.some.inj hstep)).2
        exact hvisits t ht
    · rintro t e' err t' (⟨rfl, rfl⟩ | ⟨r, s, hstep, hm⟩) hstep'
      · exact hread err (Prod.mk.inj (Option.some.inj hstep')).1
      · obtain rfl := (Prod.mk.inj (Option.some.inj hstep)).2
        exact hmakes t e' err t' hm hstep'

theorem delivers_nil : Delivers w [] ↔ w.returned <+: w.accepted := by
  constructor
  · rintro ⟨hvisits, -⟩
    exact hvisits w rfl
  · intro hdelivered
    refine ⟨?_, ?_⟩
    · rintro t rfl
      exact hdelivered
    · intro t e err t' hm
      exact hm.elim

theorem Repr.prefix_accepted (h : Repr w l lapData backData) : w.returned <+: w.accepted :=
  ⟨_, h.fifo.symm⟩

theorem Repr.delivers (h : Repr w l lapData backData) (h31 : l.size < 2 ^ 31)
    (hsafe : l.safe (events.map Event.shape) = true) : Delivers w events := by
  induction events generalizing w l lapData backData with
  | nil => exact delivers_nil.mpr h.prefix_accepted
  | cons e events ih =>
    have hsize : (l.step e.shape).size < 2 ^ 31 := by
      rw [Layout.step_size]
      exact h31
    refine delivers_cons.mpr ⟨h.prefix_accepted, ?_⟩
    cases e with
    | write data =>
      obtain ⟨lapData', backData', err', hreply, -, hrepr⟩ := h.write_msg h31 data
      refine ⟨?_, ih hrepr hsize hsafe⟩
      intro err herr
      rw [hreply] at herr
      cases herr
    | consume =>
      obtain ⟨hfails, hsafe⟩ : l.fails = false ∧ (l.step .consume).safe _ = true := by
        simpa [Layout.safe, Event.shape] using hsafe
      obtain ⟨lapData', backData', hreply, -, hrepr⟩ := h.consume h31 hfails
      refine ⟨?_, ih hrepr hsize hsafe⟩
      intro err herr
      rcases hreply with hreply | hreply | ⟨hreply, hall⟩
      · rw [hreply] at herr
        cases herr
      · rw [hreply] at herr
        cases herr
        exact ⟨by decide, by decide, by simp⟩
      · rw [hreply] at herr
        cases herr
        exact ⟨by decide, by decide, fun _ => hall⟩

/-! ## Failing reads -/

def fillShape (v : BitVec 8) : Shape → Event
  | .write n => .write (List.replicate n v)
  | .consume => .consume

theorem shape_fillShape (v : BitVec 8) (shape : Shape) : (fillShape v shape).shape = shape := by
  cases shape <;> simp [fillShape, Event.shape]

def Filled (v : BitVec 8) (w : World) : Prop := ∀ d ∈ w.accepted, ∀ b ∈ d, b = v

theorem Repr.not_delivers (h : Repr w l lapData backData) (h31 : l.size < 2 ^ 31)
    (hfails : l.fails = true) (hfilled : Filled (BitVec.ofNat 8 l.first + 1) w) :
    ¬ Delivers w (.consume :: events) := by
  intro hdel
  obtain ⟨-, hread, hrest⟩ := delivers_cons.mp hdel
  rcases h.fails h31 hfails with herr | herr | ⟨d, lapData', rfl, hpos, haccepted, hreturned, hfirst⟩
  · exact (hread _ herr).1 rfl
  · exact (hread _ herr).2.1 rfl
  · have hdelivered := hrest.1 _ (visits_start step _ events)
    rw [haccepted, hreturned, h.fifo, prefix_append_right_inj, cons_append,
      cons_prefix_cons] at hdelivered
    have hhead : w.obj.buff 0 ∈ d := by
      rw [← hdelivered.1]
      exact mem_map.mpr ⟨0, mem_range.mpr hpos, rfl⟩
    have hmem : d ∈ w.accepted := by simp [h.fifo]
    have hbyte := hfilled d hmem _ hhead
    rw [hfirst] at hbyte
    exact absurd hbyte (by simp)

theorem exists_not_delivers (l : Layout) (h31 : l.size < 2 ^ 31) (hnotsafe : l.safe shapes = false) :
    ∃ v, ∀ w lapData backData, Repr w l lapData backData → Filled v w →
      ¬ Delivers w (shapes.map (fillShape v)) := by
  induction shapes generalizing l with
  | nil => cases hnotsafe
  | cons shape shapes ih =>
    have hsize : (l.step shape).size < 2 ^ 31 := by
      rw [Layout.step_size]
      exact h31
    cases shape with
    | write n =>
      obtain ⟨v, hv⟩ := ih (l.step (.write n)) hsize hnotsafe
      refine ⟨v, ?_⟩
      intro w lapData backData h hfilled hdel
      obtain ⟨lapData', backData', err, -, haccepted, hrepr⟩ :=
        h.write_msg h31 (List.replicate n v)
      rw [length_replicate] at hrepr
      refine hv _ _ _ hrepr ?_ (delivers_cons.mp hdel).2.2
      intro d hd
      rcases haccepted with haccepted | haccepted
      · rw [haccepted] at hd
        exact hfilled d hd
      · rw [haccepted] at hd
        rcases mem_append.mp hd with hd | hd
        · exact hfilled d hd
        · obtain rfl := mem_singleton.mp hd
          intro b hb
          exact eq_of_mem_replicate hb
    | consume =>
      by_cases hfails : l.fails = true
      · exact ⟨_, fun w lapData backData h hfilled => h.not_delivers h31 hfails hfilled⟩
      · have hfails : l.fails = false := by simpa using hfails
        have hnotsafe : (l.step .consume).safe shapes = false := by
          simpa [Layout.safe, hfails] using hnotsafe
        obtain ⟨v, hv⟩ := ih (l.step .consume) hsize hnotsafe
        refine ⟨v, ?_⟩
        intro w lapData backData h hfilled hdel
        obtain ⟨lapData', backData', -, haccepted, hrepr⟩ := h.consume h31 hfails
        refine hv _ _ _ hrepr ?_ (delivers_cons.mp hdel).2.2
        rw [Filled, haccepted]
        exact hfilled

/-! ## The condition -/

/-- **Messages of these lengths are delivered, whatever they contain, exactly if no read fails.** -/
theorem delivered_iff (size : Nat) (shapes : List Shape) (hpos : 0 < size) (h31 : size < 2 ^ 31) :
    (∀ buff obj events, ringBuffCreate buff size = .ok obj → events.map Event.shape = shapes →
        Delivers { obj := obj } events)
      ↔ Layout.safe { size := size } shapes = true := by
  constructor
  · intro hdel
    by_contra hnotsafe
    obtain ⟨v, hv⟩ := exists_not_delivers { size := size } h31 (by simpa using hnotsafe)
    obtain ⟨obj, hcreate⟩ : ∃ obj, ringBuffCreate (fun _ => 0) size = .ok obj := by
      unfold ringBuffCreate
      rw [if_neg (by omega)]
      exact ⟨_, rfl⟩
    refine hv _ _ _ (Repr.create hcreate) ?_ (hdel _ obj _ hcreate ?_)
    · intro d hd
      cases hd
    · rw [List.map_map]
      exact (List.map_congr_left fun shape _ => shape_fillShape v shape).trans (List.map_id _)
  · rintro hsafe buff obj events hcreate rfl
    exact (Repr.create hcreate).delivers h31 hsafe

/-- Two messages through a buffer of 16 bytes, the second one at its start. -/
theorem delivered_iff_wrapped :
    (0 < 16 ∧ 16 < 2 ^ 31)
      ∧ ∀ buff obj events, ringBuffCreate buff 16 = .ok obj →
        events.map Event.shape = [.write 6, .consume, .consume, .write 4, .consume] →
        Delivers { obj := obj } events :=
  ⟨by decide, (delivered_iff 16 _ (by decide) (by decide)).mpr (by decide)⟩

def newWorld (size : Nat) : World where
  obj := {
    buff := fun _ => 0
    size := size
    read := 0
    write := 0
    acc := 0
    eod := NO_EOD
    accSize := 0
    isEmpty := 0 }

def outcome : World → List Event → List Reply × List (List (BitVec 8)) × List (List (BitVec 8))
  | w, [] => ([], w.accepted, w.returned)
  | w, e :: events =>
    let (reply, w) := w.exec e
    let (replies, payloads) := outcome w events
    (reply :: replies, payloads)

/-- In 10 bytes, the third message lies across the mark at 8 that the first lap has left, and is
not delivered. In 11 bytes, the mark at 9 is at the start of a payload, and the consumer gets the
length of the message at the start of the buffer instead. -/
theorem stale_mark_breaks_delivery :
    ((outcome (newWorld 10) [.write [1, 2, 3, 4], .consume, .consume, .write [5], .consume, .consume,
          .write [6], .consume]).1
        = [.wrote .OK, .readMsg .OK, .freed, .wrote .OK, .readMsg .OK, .freed, .wrote .OK,
          .readMsg .INTERNAL])
      ∧ (outcome (newWorld 11) [.write [1, 2, 3, 4, 5], .consume, .consume, .write [6], .consume,
          .consume, .write [7, 8], .consume]).2
        = ([[1, 2, 3, 4, 5], [6], [7, 8]], [[1, 2, 3, 4, 5], [6], [1, 0]])
      ∧ ringBuffCreate (fun _ => 0) 10 = .ok (newWorld 10).obj
      ∧ ¬ Delivers (newWorld 10) [.write [1, 2, 3, 4], .consume, .consume, .write [5], .consume,
          .consume, .write [6], .consume] := by
  refine ⟨by decide +kernel, by decide +kernel, rfl, ?_⟩
  intro hdel
  iterate 7 replace hdel := (delivers_cons.mp hdel).2.2
  exact ((delivers_cons.mp hdel).2.1 .INTERNAL (by decide +kernel)).1 rfl

/-! ## Aligned messages -/

/-- **If the size and all lengths are multiples of four, every message is delivered.** -/
theorem delivered_of_aligned {buff : Nat → BitVec 8} {size : Nat} {obj : RingBuffObj}
    (hcreate : ringBuffCreate buff size = .ok obj) (h31 : size < 2 ^ 31) (hsize : 4 ∣ size)
    (hevents : ∀ data, .write data ∈ events → 4 ∣ data.length) :
    Delivers { obj := obj } events := by
  have hpos : size ≠ 0 := by
    rintro rfl
    cases hcreate
  have hrepr := Repr.create hcreate
  refine hrepr.delivers h31 (Layout.Aligned.safe ⟨hsize, ?_, ?_, ?_, ?_⟩ hrepr.valid ?_ ?_)
  · simp [Layout.acc]
  · simp
  · simp
  · simp
  · exact Nat.le_of_dvd (Nat.pos_of_ne_zero hpos) hsize
  · intro n hn
    obtain ⟨e, he, hshape⟩ := mem_map.mp hn
    cases e with
    | write data =>
      obtain rfl : data.length = n := by simpa [Event.shape] using hshape
      exact hevents data he
    | consume => cases hshape

/-- Three messages through a buffer of 16 bytes, the last two at its start. -/
theorem delivered_of_aligned_words :
    ringBuffCreate (fun _ => 0) 16 = .ok (newWorld 16).obj
      ∧ Delivers (newWorld 16) [.write [1, 2, 3, 4, 5, 6, 7, 8], .consume, .consume,
          .write [1, 2, 3, 4], .consume, .consume, .write [5, 6, 7, 8], .consume] := by
  have hcreate : ringBuffCreate (fun _ => 0) 16 = .ok (newWorld 16).obj := rfl
  exact ⟨hcreate, delivered_of_aligned hcreate (by decide) (by decide) (by simp)⟩

end RktIo.Ring
