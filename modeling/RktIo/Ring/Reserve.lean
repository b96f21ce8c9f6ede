import RktIo.Lib.Transition
import RktIo.Ring.Refinement

/-!
# Chunks of the ring buffer

A producer reserves chunks of any size, and a consumer frees them in the order in which they were
reserved. `ring_buff_reserve` decides from the two offsets and `isEmpty` whether there is room.

The chunks that have not been freed form one run of adjacent chunks from `read` to `write`, or, when
the producer has gone back to the start of the buffer, two: from `read` to where it turned back, and
from the start to `write`. Once the first of them is used up, `read` is a stale offset, but it is
still behind `write`, which is all that `ring_buff_reserve` relies on (`Laid`).
-/

namespace RktIo.Ring

/-! ## Calls -/

structure Chunk where
  offset : Nat
  size : Nat
  deriving DecidableEq

def Chunk.finish (c : Chunk) : Nat := c.offset + c.size

/-- The buffer, with the chunks that have been reserved and not freed, the oldest first. -/
structure ChunkUse where
  obj : RingBuffObj
  chunks : List Chunk := []

inductive ChunkCall where
  | reserve (size : Nat)
  | free
  deriving DecidableEq

def chunkStep (u : ChunkUse) : ChunkCall → Option ChunkUse
  | .reserve size =>
    match ringBuffReserve u.obj size with
    | .ok (offset, obj) => some ⟨obj, u.chunks ++ [⟨offset, size⟩]⟩
    | .error _ => some u
  | .free =>
    match u.chunks with
    | [] => none
    | c :: chunks => some ⟨ringBuffFree u.obj c.offset c.size, chunks⟩

def ChunkCall.Ok (_ : ChunkUse) : ChunkCall → Prop
  | .reserve size => 0 < size
  | .free => True

/-! ## Runs of adjacent chunks -/

def Adjacent : Nat → List Chunk → Nat → Prop
  | a, [], b => a = b
  | a, c :: chunks, b => c.offset = a ∧ 0 < c.size ∧ Adjacent c.finish chunks b

def totalSize (chunks : List Chunk) : Nat := (chunks.map Chunk.size).sum

variable {a b n : Nat} {chunks : List Chunk} {c : Chunk}

@[simp] theorem totalSize_nil : totalSize [] = 0 := rfl

@[simp] theorem totalSize_cons : totalSize (c :: chunks) = c.size + totalSize chunks := by
  simp [totalSize]

@[simp] theorem totalSize_append (chunks' : List Chunk) :
    totalSize (chunks ++ chunks') = totalSize chunks + totalSize chunks' := by
  simp [totalSize]

theorem Adjacent.totalSize (h : Adjacent a chunks b) : a + totalSize chunks = b := by
  induction chunks generalizing a with
  | nil => exact h
  | cons c chunks ih =>
    obtain ⟨rfl, -, hrest⟩ := h
    have := ih hrest
    simp only [totalSize_cons, Chunk.finish] at this ⊢
    omega

theorem Adjacent.snoc (h : Adjacent a chunks b) (hn : 0 < n) :
    Adjacent a (chunks ++ [⟨b, n⟩]) (b + n) := by
  induction chunks generalizing a with
  | nil => exact ⟨Eq.symm h, hn, rfl⟩
  | cons c chunks ih =>
    obtain ⟨hoffset, hpos, hrest⟩ := h
    exact ⟨hoffset, hpos, ih hrest⟩

theorem Adjacent.mem (h : Adjacent a chunks b) (hc : c ∈ chunks) : a ≤ c.offset ∧ c.finish ≤ b := by
  induction chunks generalizing a with
  | nil => simp at hc
  | cons c' chunks ih =>
    obtain ⟨rfl, hpos, hrest⟩ := h
    have hend := hrest.totalSize
    rcases List.mem_cons.mp hc with rfl | hc
    · exact ⟨le_rfl, by omega⟩
    · have := ih hrest hc
      simp only [Chunk.finish] at this hend ⊢
      omega

theorem Adjacent.used (h : Adjacent 0 chunks b) (hb : 0 < b) (lap : List Chunk) :
    0 < Ring.totalSize (lap ++ chunks) := by
  have := h.totalSize
  rw [totalSize_append]
  omega

/-! ## A successful call -/

/-- **What a successful call has found**: room behind `write` and before `read`, or room before
`read` at the start of the buffer. -/
theorem reserve_ok {obj obj' : RingBuffObj} {p : Nat} (h31 : obj.size < 2 ^ 31)
    (hwrite : obj.write ≤ obj.size) (hempty : obj.isEmpty ≤ obj.size)
    (h : ringBuffReserve obj n = .ok (p, obj')) :
    (obj.write + n ≤ obj.size ∧ ¬ (obj.write < obj.read ∧ obj.read < obj.write + n)
        ∧ ¬ (obj.write = obj.read ∧ 0 < obj.isEmpty)
        ∧ p = obj.write
        ∧ obj' = { obj with write := obj.write + n, isEmpty := obj.isEmpty + n })
      ∨ (obj.size < obj.write + n ∧ n ≤ obj.read ∧ obj.read ≤ obj.write
        ∧ ¬ (obj.write = obj.read ∧ 0 < obj.isEmpty)
        ∧ p = 0
        ∧ obj' = { obj with eod := obj.write, write := n, isEmpty := obj.isEmpty + n }) := by
  have hsub : sub32 obj.size obj.write = obj.size - obj.write := sub32_of_le hwrite (by omega)
  have hpositive := positive_iff (lt_of_le_of_lt hempty h31)
  unfold ringBuffReserve at h
  simp only [hpositive, hsub] at h
  split at h
  · cases h
  rename_i hsize
  have hsum : add32 obj.isEmpty n = obj.isEmpty + n := add32_of_lt (by omega)
  have hnext : add32 obj.write n = obj.write + n := add32_of_lt (by omega)
  rw [hsum, hnext] at h
  split at h
  · rename_i hfits
    split at h
    · cases h
    · rename_i hroom
      rw [Except.ok.injEq, Prod.mk.injEq] at h
      refine Or.inl ⟨by omega, by omega, by omega, h.1.symm, h.2.symm⟩
  · rename_i hfits
    split at h
    · cases h
    · rename_i hroom
      rw [Except.ok.injEq, Prod.mk.injEq] at h
      exact Or.inr ⟨by omega, by omega, by omega, by omega, h.1.symm, h.2.symm⟩

/-! ## The layout -/

/-- Where the chunks lie: from `read` to `write`, or from `read` to the point where the producer
turned back and from the start to `write`, which is not past `read`. -/
inductive Placed (obj : RingBuffObj) (chunks : List Chunk) : Prop where
  | flat (h : Adjacent obj.read chunks obj.write)
  | wrapped (lap back : List Chunk) (turn : Nat) (hchunks : chunks = lap ++ back)
      (hlap : Adjacent obj.read lap turn) (hturn : turn ≤ obj.size)
      (hback : Adjacent 0 back obj.write) (hpos : 0 < obj.write) (hle : obj.write ≤ obj.read)

structure Laid (size : Nat) (u : ChunkUse) : Prop where
  size_eq : u.obj.size = size
  write_le : u.obj.write ≤ size
  isEmpty_eq : u.obj.isEmpty = totalSize u.chunks
  placed : Placed u.obj u.chunks

variable {size : Nat} {u u' : ChunkUse}

theorem Laid.total_le (h : Laid size u) : totalSize u.chunks ≤ size := by
  have hwrite := h.write_le
  have hsize := h.size_eq
  cases h.placed with
  | flat hflat =>
    have := hflat.totalSize
    omega
  | wrapped lap back turn hchunks hlap hturn hback hpos hle =>
    have hlapTotal := hlap.totalSize
    have hbackTotal := hback.totalSize
    rw [hchunks, totalSize_append]
    omega

theorem Laid.create {buff : Nat → BitVec 8} {obj : RingBuffObj}
    (h : ringBuffCreate buff size = .ok obj) : Laid size ⟨obj, []⟩ := by
  unfold ringBuffCreate at h
  split at h
  · cases h
  · obtain rfl := Except.ok.inj h
    exact ⟨rfl, Nat.zero_le _, rfl, .flat rfl⟩

section

variable (h : Laid size u) (h31 : size < 2 ^ 31)

include h h31

theorem Laid.reserve (hn : 0 < n) {p : Nat} {obj : RingBuffObj}
    (hok : ringBuffReserve u.obj n = .ok (p, obj)) :
    p + n ≤ size ∧ (∀ c ∈ u.chunks, p + n ≤ c.offset ∨ c.finish ≤ p)
      ∧ Laid size ⟨obj, u.chunks ++ [⟨p, n⟩]⟩ := by
  have hsize := h.size_eq
  have hwrite := h.write_le
  have htotal := h.total_le
  have hempty := h.isEmpty_eq
  rcases reserve_ok (by omega) (by omega) (by omega) hok with
    ⟨hfits, hahead, hfull, rfl, rfl⟩ | ⟨hfull, hroom, hread, hnotFull, rfl, rfl⟩
  · refine ⟨by omega, ?_, hsize, by simpa [← hsize] using hfits, by simp [hempty], ?_⟩
    · intro c hc
      cases h.placed with
      | flat hflat => exact Or.inr (hflat.mem hc).2
      | wrapped lap back turn hchunks hlap hturn hback hpos hle =>
        rw [hchunks] at hc
        rcases List.mem_append.mp hc with hc | hc
        · -- the chunk ends before `read`, where the lap starts
          have hstart := (hlap.mem hc).1
          have hused := hback.used hpos lap
          rw [← hchunks] at hused
          exact Or.inl (by omega)
        · exact Or.inr (hback.mem hc).2
    · cases h.placed with
      | flat hflat => exact .flat (hflat.snoc hn)
      | wrapped lap back turn hchunks hlap hturn hback hpos hle =>
        have hused := hback.used hpos lap
        rw [← hchunks] at hused
        refine .wrapped lap (back ++ [⟨u.obj.write, n⟩]) turn ?_ hlap hturn (hback.snoc hn) ?_ ?_
        · rw [hchunks, List.append_assoc]
        · show 0 < u.obj.write + n
          omega
        · show u.obj.write + n ≤ u.obj.read
          omega
  · cases h.placed with
    | flat hflat =>
      refine ⟨by omega, ?_, hsize, ?_, by simp [hempty], ?_⟩
      · intro c hc
        have hstart := (hflat.mem hc).1
        exact Or.inl (by omega)
      · show n ≤ size
        omega
      · exact .wrapped u.chunks [⟨0, n⟩] u.obj.write rfl hflat (by simpa [hsize] using hwrite)
          ⟨rfl, hn, by simp [Adjacent, Chunk.finish]⟩ hn hroom
    | wrapped lap back turn hchunks hlap hturn hback hpos hle =>
      -- `write` would have reached `read` with chunks in use
      have hused := hback.used hpos lap
      rw [← hchunks] at hused
      omega

theorem Laid.free (hchunks : u.chunks = c :: chunks) :
    Laid size ⟨ringBuffFree u.obj c.offset c.size, chunks⟩ := by
  have hsize := h.size_eq
  have hwrite := h.write_le
  have htotal := h.total_le
  have hempty := h.isEmpty_eq
  rw [hchunks, totalSize_cons] at htotal hempty
  have hcount : sub32 u.obj.isEmpty c.size = totalSize chunks := by
    rw [sub32_of_le (by omega) (by omega)]
    omega
  refine ⟨hsize, hwrite, hcount, ?_⟩
  cases h.placed with
  | flat hflat =>
    rw [hchunks] at hflat
    obtain ⟨hoffset, hpos, hrest⟩ := hflat
    have hend := hrest.totalSize
    refine .flat ?_
    show Adjacent (add32 c.offset c.size) chunks u.obj.write
    rw [add32_of_lt (by simp only [Chunk.finish] at hend; omega)]
    exact hrest
  | wrapped lap back turn happend hlap hturn hback hpos hle =>
    rw [hchunks] at happend
    cases lap with
    | cons c' lap =>
      obtain ⟨rfl, rfl⟩ : c = c' ∧ chunks = lap ++ back := by simpa using happend
      obtain ⟨hoffset, hcpos, hrest⟩ := hlap
      have hend := hrest.totalSize
      have hfinish : add32 c.offset c.size = c.finish :=
        add32_of_lt (by simp only [Chunk.finish] at hend; omega)
      refine .wrapped lap back turn rfl ?_ hturn hback hpos ?_
      · show Adjacent (add32 c.offset c.size) lap turn
        rw [hfinish]
        exact hrest
      · show u.obj.write ≤ add32 c.offset c.size
        rw [hfinish, Chunk.finish]
        omega
    | nil =>
      -- the lap is used up: the chunks from the start are all that is left
      obtain rfl : c :: chunks = back := by simpa using happend
      obtain ⟨hoffset, hcpos, hrest⟩ := hback
      have hend := hrest.totalSize
      refine .flat ?_
      show Adjacent (add32 c.offset c.size) chunks u.obj.write
      rw [add32_of_lt (by simp only [Chunk.finish] at hend; omega)]
      exact hrest

theorem Laid.step {call : ChunkCall} (hok : call.Ok u) (hstep : chunkStep u call = some u') :
    Laid size u' := by
  cases call with
  | reserve n =>
    unfold chunkStep at hstep
    cases hreserve : ringBuffReserve u.obj n with
    | error err =>
      simp only [hreserve] at hstep
      obtain rfl := Option.some.inj hstep
      exact h
    | ok r =>
      obtain ⟨p, obj⟩ := r
      simp only [hreserve] at hstep
      obtain rfl := Option.some.inj hstep
      exact (h.reserve h31 hok hreserve).2.2
  | free =>
    unfold chunkStep at hstep
    cases hchunks : u.chunks with
    | nil =>
      simp only [hchunks] at hstep
      cases hstep
    | cons c chunks =>
      simp only [hchunks] at hstep
      obtain rfl := Option.some.inj hstep
      exact h.free h31 hchunks

theorem Laid.run (hrun : Transition.Reaches chunkStep ChunkCall.Ok u u') : Laid size u' :=
  hrun.invariant (Laid size) (fun _ _ _ hu hok hstep => hu.step h31 hok hstep) h

end

/-- **Space is never handed out twice.** After any calls on a new buffer, `isEmpty` is the total
size of the chunks in use, and a chunk that is reserved lies inside the buffer and does not overlap
any of them. -/
theorem chunks_disjoint (buff : Nat → BitVec 8) (size : Nat) (obj : RingBuffObj)
    (hcreate : ringBuffCreate buff size = .ok obj) (h31 : size < 2 ^ 31) (u : ChunkUse)
    (hrun : Transition.Reaches chunkStep ChunkCall.Ok ⟨obj, []⟩ u) :
    u.obj.isEmpty = totalSize u.chunks
      ∧ ∀ n p obj', 0 < n → ringBuffReserve u.obj n = .ok (p, obj') →
        p + n ≤ size ∧ ∀ c ∈ u.chunks, p + n ≤ c.offset ∨ c.finish ≤ p := by
  have hlaid := (Laid.create hcreate).run h31 hrun
  refine ⟨hlaid.isEmpty_eq, ?_⟩
  intro n p obj' hn hok
  obtain ⟨hinside, hapart, -⟩ := hlaid.reserve h31 hn hok
  exact ⟨hinside, hapart⟩

/-- A buffer of 8 bytes: chunks of 4 and 2 bytes, the first one freed, and a chunk of 3 bytes from
the start; then there is room for one byte before the reader. -/
theorem chunks_disjoint_wrapped :
    ∃ u, Transition.Reaches chunkStep ChunkCall.Ok ⟨⟨fun _ => 0, 8, 0, 0, 0, NO_EOD, 0, 0⟩, []⟩ u
      ∧ u.chunks = [⟨4, 2⟩, ⟨0, 3⟩]
      ∧ u.obj.isEmpty = totalSize u.chunks
      ∧ ∀ n p obj', 0 < n → ringBuffReserve u.obj n = .ok (p, obj') →
        p + n ≤ 8 ∧ ∀ c ∈ u.chunks, p + n ≤ c.offset ∨ c.finish ≤ p := by
  have hrun : Transition.Reaches chunkStep ChunkCall.Ok
      ⟨⟨fun _ => 0, 8, 0, 0, 0, NO_EOD, 0, 0⟩, []⟩
      ⟨⟨fun _ => 0, 8, 4, 3, 0, 6, 0, 5⟩, [⟨4, 2⟩, ⟨0, 3⟩]⟩ := by
    refine .tail (.reserve 3) (.tail .free (.tail (.reserve 2)
      (.tail (.reserve 4) .refl ?_ rfl) ?_ rfl) trivial rfl) ?_ rfl
    · show 0 < 4
      decide
    · show 0 < 2
      decide
    · show 0 < 3
      decide
  exact ⟨_, hrun, rfl, chunks_disjoint (fun _ => 0) 8 _ rfl (by decide) _ hrun⟩

end RktIo.Ring
