import RktIo.Ring.RingBuff

/-!
# The layout of the ring buffer

Where the messages lie depends on their lengths only. A `Layout` keeps the lengths of the messages
in the lap of the reader and, once the writer has wrapped, those in the next lap; all positions
follow from them.

`eod` is to mark the end of the reader's lap. When the reader wraps because fewer than four bytes
are left, `ring_buff_read` does not reset it, and the mark of the old lap is `stale` in the next
one. A message that is read across a stale mark is cut there (`Layout.crosses`). Up to then the
buffer follows its layout: `Repr.step` is the refinement, one case for each call.
-/

namespace RktIo.Ring

open Bytes List

/-! ## Layouts -/

def span (ns : List Nat) : Nat := (ns.map (· + 4)).sum

@[simp] theorem span_nil : span [] = 0 := rfl

@[simp] theorem span_cons (n : Nat) (ns : List Nat) : span (n :: ns) = n + 4 + span ns := by
  simp [span]

@[simp] theorem span_append (ns ms : List Nat) : span (ns ++ ms) = span ns + span ms := by
  simp [span]

theorem span_pos {ns : List Nat} (h : ns ≠ []) : 0 < span ns := by
  cases ns with
  | nil => exact absurd rfl h
  | cons n ns => simp

/-- The lengths of the messages in the buffer. `held` is the payload that has been read and not
freed, `lap` are the messages behind it, and `next` are those from the start of the buffer, if the
writer has wrapped. `first` is the length of the message that was last written to the start. -/
structure Layout where
  size : Nat
  read : Nat := 0
  held : Option Nat := none
  lap : List Nat := []
  next : Option (List Nat) := none
  stale : Option Nat := none
  first : Nat := 0
  deriving Repr, DecidableEq

namespace Layout

def acc (l : Layout) : Nat := l.read + l.held.getD 0

def lapEnd (l : Layout) : Nat := l.acc + span l.lap

def write (l : Layout) : Nat :=
  match l.next with
  | none => l.lapEnd
  | some back => span back

def eod (l : Layout) : Option Nat :=
  match l.next with
  | none => l.stale
  | some _ => some l.lapEnd

def unread (l : Layout) : List Nat := l.lap ++ l.next.getD []

def append (l : Layout) (n : Nat) : Layout :=
  { l with lap := l.lap ++ [n], first := if l.lapEnd = 0 then n else l.first }

def wrap (l : Layout) (n : Nat) : Layout :=
  { l with next := some [n], stale := none, first := n }

def appendNext (l : Layout) (back : List Nat) (n : Nat) : Layout :=
  { l with next := some (back ++ [n]) }

def put (l : Layout) (n : Nat) : Option Layout :=
  if n = 0 then none
  else
    match l.next with
    | none =>
      if l.lapEnd + (n + 4) ≤ l.size then some (l.append n)
      else if n + 4 ≤ l.read then some (l.wrap n)
      else none
    | some back => if span back + (n + 4) ≤ l.read then some (l.appendNext back n) else none

def take (l : Layout) (n : Nat) (rest : List Nat) : Layout :=
  { l with read := l.acc + 4, held := some n, lap := rest }

/-- The first message of the next lap is read. The mark is reset if there is room for the length of
a message behind it. -/
def takeNext (l : Layout) (n : Nat) (rest : List Nat) : Layout :=
  { l with
    read := 4
    held := some n
    lap := rest
    next := none
    stale := if l.size < l.acc + 4 then some l.acc else none }

def get (l : Layout) : Option Layout :=
  match l.lap, l.next with
  | n :: rest, _ => some (l.take n rest)
  | [], some (n :: rest) => some (l.takeNext n rest)
  | [], _ => none

def release (l : Layout) : Layout := { l with read := l.acc, held := none }

end Layout

inductive Shape where
  | write (n : Nat)
  | consume
  deriving Repr, DecidableEq

def Event.shape : Event → Shape
  | .write data => .write data.length
  | .consume => .consume

namespace Layout

def step (l : Layout) : Shape → Layout
  | .write n => (l.put n).getD l
  | .consume => if l.held.isSome then l.release else l.get.getD l

def crosses (l : Layout) : Bool :=
  match l.next, l.stale, l.lap with
  | none, some mark, n :: _ => mark < l.acc + 4 + n
  | _, _, _ => false

/-- The consumer is to read a message, and the buffer cannot even hold the length of one, or the
message lies across a stale mark. -/
def fails (l : Layout) : Bool := l.held.isNone && (l.size < 4 || l.crosses)

def safe : Layout → List Shape → Bool
  | _, [] => true
  | l, .write n :: shapes => safe (l.step (.write n)) shapes
  | l, .consume :: shapes => !l.fails && safe (l.step .consume) shapes

/-- The messages fit: those of the next lap end before what the reader has not freed, and a stale
mark is within the last three bytes. -/
structure Valid (l : Layout) : Prop where
  lapEnd_le : l.lapEnd ≤ l.size
  pos : ∀ n ∈ l.unread, 0 < n
  next : ∀ back, l.next = some back → back ≠ [] ∧ span back ≤ l.read
  stale : ∀ mark, l.stale = some mark → mark ≤ l.size ∧ l.size < mark + 4
  first : l.next.isSome = true ∨ l.stale.isSome = true → 0 < l.first

variable {l l' : Layout} {n : Nat}

theorem put_eq_some (h : l.put n = some l') :
    0 < n ∧ ((l.next = none ∧ l.lapEnd + (n + 4) ≤ l.size ∧ l' = l.append n)
      ∨ (l.next = none ∧ l.size < l.lapEnd + (n + 4) ∧ n + 4 ≤ l.read ∧ l' = l.wrap n)
      ∨ ∃ back, l.next = some back ∧ span back + (n + 4) ≤ l.read ∧ l' = l.appendNext back n) := by
  unfold put at h
  by_cases hn : n = 0
  · simp [hn] at h
  refine ⟨Nat.pos_of_ne_zero hn, ?_⟩
  rw [if_neg hn] at h
  cases hnext : l.next with
  | none =>
    rw [hnext] at h
    by_cases hfits : l.lapEnd + (n + 4) ≤ l.size
    · simp only [if_pos hfits] at h
      exact Or.inl ⟨rfl, hfits, (Option.some.inj h).symm⟩
    · simp only [if_neg hfits] at h
      split_ifs at h with hroom
      exact Or.inr (Or.inl ⟨rfl, not_le.mp hfits, hroom, (Option.some.inj h).symm⟩)
  | some back =>
    rw [hnext] at h
    simp only at h
    split_ifs at h with hroom
    exact Or.inr (Or.inr ⟨back, rfl, hroom, (Option.some.inj h).symm⟩)

theorem put_eq_none (h : l.put n = none) :
    n = 0 ∨ (l.next = none ∧ l.size < l.lapEnd + (n + 4) ∧ l.read < n + 4)
      ∨ ∃ back, l.next = some back ∧ l.read < span back + (n + 4) := by
  unfold put at h
  by_cases hn : n = 0
  · exact Or.inl hn
  rw [if_neg hn] at h
  cases hnext : l.next with
  | none =>
    rw [hnext] at h
    by_cases hfits : l.lapEnd + (n + 4) ≤ l.size
    · simp only [if_pos hfits] at h
      cases h
    · simp only [if_neg hfits] at h
      split_ifs at h with hroom
      exact Or.inr (Or.inl ⟨rfl, not_le.mp hfits, not_le.mp hroom⟩)
  | some back =>
    rw [hnext] at h
    simp only at h
    split_ifs at h with hroom
    exact Or.inr (Or.inr ⟨back, rfl, not_le.mp hroom⟩)

theorem get_of_lap_nil (hlap : l.lap = []) (h : l.get = some l') :
    ∃ n rest, l.next = some (n :: rest) ∧ l' = l.takeNext n rest := by
  unfold get at h
  rw [hlap] at h
  cases hnext : l.next with
  | none => simp [hnext] at h
  | some back =>
    cases back with
    | nil => simp [hnext] at h
    | cons n rest => exact ⟨n, rest, rfl, by simpa [hnext] using h.symm⟩

theorem crosses_eq_true (h : l.crosses = true) :
    ∃ mark n rest, l.next = none ∧ l.stale = some mark ∧ l.lap = n :: rest
      ∧ mark < l.acc + 4 + n := by
  unfold crosses at h
  split at h
  next mark n rest hnext hstale hlap =>
    exact ⟨mark, n, rest, hnext, hstale, hlap, of_decide_eq_true h⟩
  next => cases h

section

variable (hv : l.Valid)

include hv

theorem Valid.append (hnext : l.next = none) (hn : 0 < n) (hfits : l.lapEnd + (n + 4) ≤ l.size) :
    (l.append n).Valid where
  lapEnd_le := by
    simp only [Layout.append, lapEnd, acc, span_append, span_cons, span_nil] at hfits ⊢
    omega
  pos := by
    have hpos := hv.pos
    simp only [Layout.append, unread, hnext, Option.getD_none, append_nil, mem_append,
      mem_singleton] at hpos ⊢
    rintro m (hm | rfl)
    · exact hpos m hm
    · exact hn
  next := by
    intro back hback
    rw [Layout.append, hnext] at hback
    cases hback
  stale := hv.stale
  first := by
    intro hmarked
    have hfirst := hv.first hmarked
    simp only [Layout.append]
    split_ifs
    · exact hn
    · exact hfirst

theorem Valid.wrap (hnext : l.next = none) (hn : 0 < n) (hroom : n + 4 ≤ l.read) :
    (l.wrap n).Valid where
  lapEnd_le := hv.lapEnd_le
  pos := by
    have hpos := hv.pos
    simp only [Layout.wrap, unread, hnext, Option.getD_none, append_nil, Option.getD_some,
      mem_append, mem_singleton] at hpos ⊢
    rintro m (hm | rfl)
    · exact hpos m hm
    · exact hn
  next := by
    intro back hback
    obtain rfl : [n] = back := Option.some.inj hback
    exact ⟨by simp, by simpa [Layout.wrap] using hroom⟩
  stale := by
    intro mark hmark
    cases hmark
  first := fun _ => hn

theorem Valid.appendNext {back : List Nat} (hnext : l.next = some back) (hn : 0 < n)
    (hroom : span back + (n + 4) ≤ l.read) : (l.appendNext back n).Valid where
  lapEnd_le := hv.lapEnd_le
  pos := by
    have hpos := hv.pos
    simp only [Layout.appendNext, unread, hnext, Option.getD_some, mem_append,
      mem_singleton] at hpos ⊢
    rintro m (hm | hm | rfl)
    · exact hpos m (Or.inl hm)
    · exact hpos m (Or.inr hm)
    · exact hn
  next := by
    intro back' hback
    obtain rfl : back ++ [n] = back' := Option.some.inj hback
    exact ⟨by simp, by simpa [Layout.appendNext] using hroom⟩
  stale := hv.stale
  first := fun _ => hv.first (Or.inl (by simp [hnext]))

theorem Valid.take {rest : List Nat} (hlap : l.lap = n :: rest) :
    (l.take n rest).Valid where
  lapEnd_le := by
    have hend := hv.lapEnd_le
    simp only [Layout.take, lapEnd, acc, hlap, span_cons, Option.getD_some] at hend ⊢
    omega
  pos := by
    intro m hm
    apply hv.pos m
    simp only [Layout.take, unread, hlap, cons_append, mem_cons] at hm ⊢
    exact Or.inr hm
  next := by
    intro back hback
    obtain ⟨hne, hroom⟩ := hv.next back hback
    refine ⟨hne, ?_⟩
    simp only [Layout.take, acc]
    omega
  stale := hv.stale
  first := hv.first

theorem Valid.takeNext {rest : List Nat} (hlap : l.lap = []) (hnext : l.next = some (n :: rest)) :
    (l.takeNext n rest).Valid where
  lapEnd_le := by
    have hend := hv.lapEnd_le
    have hroom := (hv.next _ hnext).2
    simp only [Layout.takeNext, lapEnd, acc, span_cons, Option.getD_some] at hend hroom ⊢
    omega
  pos := by
    intro m hm
    apply hv.pos m
    simp only [Layout.takeNext, unread, hlap, hnext, Option.getD_none, Option.getD_some,
      append_nil, nil_append, mem_cons] at hm ⊢
    exact Or.inr hm
  next := by
    intro back hback
    cases hback
  stale := by
    intro mark hmark
    have hend := hv.lapEnd_le
    simp only [Layout.takeNext] at hmark ⊢
    split_ifs at hmark with hsmall
    obtain rfl := Option.some.inj hmark
    simp only [lapEnd, hlap, span_nil] at hend
    omega
  first := fun _ => hv.first (Or.inl (by simp [hnext]))

theorem Valid.release : l.release.Valid where
  lapEnd_le := by
    have hend := hv.lapEnd_le
    simp only [Layout.release, lapEnd, acc, Option.getD_none] at hend ⊢
    omega
  pos := hv.pos
  next := by
    intro back hback
    obtain ⟨hne, hroom⟩ := hv.next back hback
    refine ⟨hne, ?_⟩
    simp only [Layout.release, acc]
    omega
  stale := hv.stale
  first := hv.first

end

/-! ## Steps -/

inductive Steps (l : Layout) : Shape → Layout → Prop
  | same {shape : Shape} : Steps l shape l
  | append {n : Nat} (hnext : l.next = none) (hn : 0 < n) (hfits : l.lapEnd + (n + 4) ≤ l.size) :
    Steps l (.write n) (l.append n)
  | wrap {n : Nat} (hnext : l.next = none) (hn : 0 < n) (hroom : n + 4 ≤ l.read) :
    Steps l (.write n) (l.wrap n)
  | appendNext {n : Nat} {back : List Nat} (hnext : l.next = some back) (hn : 0 < n)
      (hroom : span back + (n + 4) ≤ l.read) : Steps l (.write n) (l.appendNext back n)
  | release : Steps l .consume l.release
  | take {n : Nat} {rest : List Nat} (hlap : l.lap = n :: rest) : Steps l .consume (l.take n rest)
  | takeNext {n : Nat} {rest : List Nat} (hlap : l.lap = []) (hnext : l.next = some (n :: rest)) :
    Steps l .consume (l.takeNext n rest)

theorem step_steps (l : Layout) (shape : Shape) : Steps l shape (l.step shape) := by
  cases shape with
  | write n =>
    have hstep : l.step (.write n) = (l.put n).getD l := rfl
    rw [hstep]
    cases hput : l.put n with
    | none => exact .same
    | some l' =>
      obtain ⟨hn, hput⟩ := put_eq_some hput
      rcases hput with ⟨hnext, hfits, rfl⟩ | ⟨hnext, -, hroom, rfl⟩ | ⟨back, hnext, hroom, rfl⟩
      · exact .append hnext hn hfits
      · exact .wrap hnext hn hroom
      · exact .appendNext hnext hn hroom
  | consume =>
    have hstep : l.step .consume = if l.held.isSome then l.release else l.get.getD l := rfl
    rw [hstep]
    by_cases hheld : l.held.isSome = true
    · rw [if_pos hheld]
      exact .release
    · rw [if_neg hheld]
      cases hlap : l.lap with
      | cons n rest =>
        rw [get, hlap]
        exact .take hlap
      | nil =>
        cases hget : l.get with
        | none => exact .same
        | some l' =>
          obtain ⟨n, rest, hnext, rfl⟩ := get_of_lap_nil hlap hget
          exact .takeNext hlap hnext

theorem step_size (l : Layout) (shape : Shape) : (l.step shape).size = l.size := by
  have hsteps := step_steps l shape
  generalize l.step shape = l' at hsteps
  cases hsteps <;> rfl

theorem Valid.step (hv : l.Valid) (shape : Shape) : (l.step shape).Valid := by
  have hsteps := step_steps l shape
  generalize l.step shape = l' at hsteps
  cases hsteps with
  | same => exact hv
  | append hnext hn hfits => exact hv.append hnext hn hfits
  | wrap hnext hn hroom => exact hv.wrap hnext hn hroom
  | appendNext hnext hn hroom => exact hv.appendNext hnext hn hroom
  | release => exact hv.release
  | take hlap => exact hv.take hlap
  | takeNext hlap hnext => exact hv.takeNext hlap hnext

/-! ## Aligned messages -/

/-- All positions are multiples of four, and a stale mark is at the end of the buffer. -/
structure Aligned (l : Layout) : Prop where
  size : 4 ∣ l.size
  acc : 4 ∣ l.acc
  lap : ∀ n ∈ l.lap, 4 ∣ n
  next : ∀ back, l.next = some back → ∀ n ∈ back, 4 ∣ n
  stale : ∀ mark, l.stale = some mark → mark = l.size

theorem Aligned.step {shape : Shape} (ha : l.Aligned) (hv : l.Valid)
    (hshape : ∀ n, shape = .write n → 4 ∣ n) : (l.step shape).Aligned := by
  obtain ⟨hsize, hacc, hlaps, hnexts, hstale⟩ := ha
  have hend := hv.lapEnd_le
  have hsteps := step_steps l shape
  generalize l.step shape = l' at hsteps
  cases hsteps with
  | same => exact ⟨hsize, hacc, hlaps, hnexts, hstale⟩
  | @append n hnext hpos hfits =>
    have hn := hshape n rfl
    exact ⟨hsize, hacc, forall_mem_append.mpr ⟨hlaps, forall_mem_singleton.mpr hn⟩, hnexts, hstale⟩
  | @wrap n hnext hpos hroom =>
    refine ⟨hsize, hacc, hlaps, ?_, ?_⟩
    · intro back hback
      obtain rfl : [n] = back := Option.some.inj hback
      exact forall_mem_singleton.mpr (hshape n rfl)
    · intro mark hmark
      cases hmark
  | @appendNext n back hnext hpos hroom =>
    refine ⟨hsize, hacc, hlaps, ?_, hstale⟩
    intro back' hback
    obtain rfl : back ++ [n] = back' := Option.some.inj hback
    exact forall_mem_append.mpr ⟨hnexts back hnext, forall_mem_singleton.mpr (hshape n rfl)⟩
  | release =>
    refine ⟨hsize, ?_, hlaps, hnexts, hstale⟩
    simpa [Layout.release, Layout.acc] using hacc
  | @take n rest hlap =>
    obtain ⟨hn, hrest⟩ := forall_mem_cons.mp (hlap ▸ hlaps)
    refine ⟨hsize, ?_, hrest, hnexts, hstale⟩
    simp only [Layout.take, Layout.acc, Option.getD_some] at hacc ⊢
    omega
  | @takeNext n rest hlap hnext =>
    obtain ⟨hn, hrest⟩ := forall_mem_cons.mp (hnexts _ hnext)
    refine ⟨hsize, ?_, hrest, ?_, ?_⟩
    · simp only [Layout.takeNext, Layout.acc, Option.getD_some]
      omega
    · intro back hback
      cases hback
    · -- the lap ends at a multiple of four, so fewer than four bytes behind it are none
      intro mark hmark
      simp only [Layout.takeNext] at hmark ⊢
      split_ifs at hmark with hsmall
      obtain rfl := Option.some.inj hmark
      simp only [lapEnd, hlap, span_nil] at hend
      omega

theorem Aligned.not_fails (ha : l.Aligned) (hv : l.Valid) (hsize : 4 ≤ l.size) :
    l.fails = false := by
  have hcross : l.crosses = false := by
    by_contra hcross
    obtain ⟨mark, n, rest, -, hstale, hlap, hlt⟩ := crosses_eq_true (by simpa using hcross)
    have hend := hv.lapEnd_le
    have hmark := ha.stale mark hstale
    simp only [lapEnd, hlap, span_cons] at hend
    omega
  simp [fails, hcross, hsize]

/-- **If the size of the buffer and all lengths are multiples of four, no read fails.** -/
theorem Aligned.safe {shapes : List Shape} (ha : l.Aligned) (hv : l.Valid) (hsize : 4 ≤ l.size)
    (hshapes : ∀ n, .write n ∈ shapes → 4 ∣ n) : l.safe shapes = true := by
  induction shapes generalizing l with
  | nil => rfl
  | cons shape shapes ih =>
    have hstep : (l.step shape).safe shapes = true := by
      refine ih (ha.step hv ?_) (hv.step shape) (by rw [step_size]; exact hsize) ?_
      · rintro n rfl
        exact hshapes n mem_cons_self
      · intro n hn
        exact hshapes n (mem_cons_of_mem _ hn)
    cases shape with
    | write n => exact hstep
    | consume => simp [Layout.safe, ha.not_fails hv hsize, hstep]

theorem Valid.span_unread_le (hv : l.Valid) : span l.unread + l.held.getD 0 ≤ l.size := by
  have hend := hv.lapEnd_le
  cases hnext : l.next with
  | none =>
    simp only [unread, hnext, Option.getD_none, append_nil, lapEnd, acc] at hend ⊢
    omega
  | some back =>
    have hroom := (hv.next back hnext).2
    simp only [unread, hnext, Option.getD_some, span_append, lapEnd, acc] at hend ⊢
    omega

end Layout

end RktIo.Ring
