import RktIo.Lib.SharedMem

/-!
# The arena of a system call slot

Arguments and results of a host call go through an arena: memory of the host, one per scheduler,
from which a call allocates by counting up (`arena_ensure`, `arena_alloc`, `arena_free`) and which
is empty again when the call ends. Vectors of buffers are copied with their descriptors
(`deepsizeiovec`, `deepinitiovec`, `deepcopyiovec`), so the descriptors lie in host memory too, and
the enclave reads them back after the host had them.

The host may change its memory at any moment. What it shows is a parameter of every read
(`HostCopy` has one memory for each read of a descriptor and one for each byte copied).
-/

namespace RktIo.Host

open SharedMem

structure Arena where
  mem : BitVec 64
  size : BitVec 64
  allocated : BitVec 64

def Arena.Mem (a : Arena) (x : BitVec 64) : Prop := Region.Mem a.mem a.size.toNat x

/-- `arena_ensure`. An arena that is too small is grown by a host call. `newmem` is its answer,
and any answer is taken: a pointer is never below 0. -/
def arenaEnsure (a : Arena) (sz newmem : BitVec 64) : Arena :=
  if a.size < sz then { a with mem := newmem, size := sz } else a

def arenaAlloc (a : Arena) (sz : BitVec 64) : BitVec 64 × Arena :=
  if sz = 0#64 then (0#64, a)
  else (a.mem + a.allocated, { a with allocated := a.allocated + sz })

def arenaFree (a : Arena) : Arena := { a with allocated := 0#64 }

structure Iovec where
  iovBase : BitVec 64
  iovLen : BitVec 64
deriving DecidableEq

def sizeofIovec : BitVec 64 := 16#64

def Iovec.bytes (d : Iovec) : List (BitVec 8) := wordBytes d.iovBase ++ wordBytes d.iovLen

def Iovec.addrs (d : Iovec) : List (BitVec 64) := SharedMem.addrs d.iovBase d.iovLen.toNat

def deepsizeiovec (dst : Iovec) : BitVec 64 := sizeofIovec + dst.iovLen

def deepinitiovec (a : Arena) (src : Iovec) : Iovec × Arena :=
  let r := arenaAlloc a src.iovLen
  (⟨r.1, src.iovLen⟩, r.2)

def deepinit (a : Arena) : List Iovec → List Iovec × Arena
  | [] => ([], a)
  | d :: iov =>
    let own := deepinitiovec a d
    let rest := deepinit own.2 iov
    (own.1 :: rest.1, rest.2)

/-- What the host shows while one buffer is copied back: at the read of the length for the check,
of the base, of the length to copy, of each byte, and of the length that is kept. -/
structure HostCopy where
  check : Memory
  base : Memory
  len : Memory
  data : Nat → Memory
  keep : Memory

structure Stored where
  src : BitVec 64
  bytes : List (BitVec 8)
deriving DecidableEq

structure Copied where
  mem : Memory
  dst : Iovec
  stored : Stored

def readBase (inside : BitVec 64 → Bool) (m h : Memory) (src : BitVec 64) : BitVec 64 :=
  loadWord (seen inside m h) src

def readLen (inside : BitVec 64 → Bool) (m h : Memory) (src : BitVec 64) : BitVec 64 :=
  loadWord (seen inside m h) (src + 8#64)

def memcpySource (inside : BitVec 64 → Bool) (h : HostCopy) (m : Memory) (src : BitVec 64) :
    Stored :=
  let base := readBase inside m h.base src
  ⟨base, fetch inside m h.data base (readLen inside m h.len src).toNat⟩

/-- `deepcopyiovec`, with `src` the address of the descriptor. There is no result where the lengths
differ: the code then writes to address 0. -/
def deepcopyiovec (inside : BitVec 64 → Bool) (h : HostCopy) (m : Memory) (dst : Iovec)
    (src : BitVec 64) : Option Copied :=
  if dst.iovLen ≠ readLen inside m h.check src then none
  else
    let stored := memcpySource inside h m src
    let m := write m (cells dst.iovBase stored.bytes)
    some ⟨m, { dst with iovLen := readLen inside m h.keep src }, stored⟩

/-- What the loop of `deepcopyiovec` leaves besides memory: the copies in order, the caller's
vector, and whether a check has failed. -/
structure CopyLog where
  stored : List Stored
  iov : List Iovec
  crashed : Bool
deriving DecidableEq

/-- The loop of `deepcopyiovec`. The descriptors are from `src` on, and the `i`-th buffer is copied
while the host shows `host i`. -/
def copyBack (inside : BitVec 64 → Bool) (host : Nat → HostCopy) (m : Memory) (src : BitVec 64) :
    List Iovec → CopyLog × Memory
  | [] => (⟨[], [], false⟩, m)
  | d :: iov =>
    match deepcopyiovec inside (host 0) m d src with
    | none => (⟨[], d :: iov, true⟩, m)
    | some c =>
      let rest := copyBack inside (fun i => host (i + 1)) c.mem (src + sizeofIovec) iov
      (⟨c.stored :: rest.1.stored, c.dst :: rest.1.iov, rest.1.crashed⟩, rest.2)

variable {inside : BitVec 64 → Bool} {h : HostCopy} {host : Nat → HostCopy} {m m' : Memory}
  {d own : Iovec} {iov owns : List Iovec} {src x : BitVec 64} {a : Arena} {c : Copied}

@[simp] theorem length_iovecBytes : d.bytes.length = 16 := by
  simp [Iovec.bytes]

theorem length_flatMap_bytes : (iov.flatMap Iovec.bytes).length = 16 * iov.length := by
  induction iov with
  | nil => rfl
  | cons d iov ih => rw [List.flatMap_cons, List.length_append, ih, length_iovecBytes,
      List.length_cons]; omega

theorem length_deepinit : (deepinit a iov).1.length = iov.length := by
  induction iov generalizing a with
  | nil => rfl
  | cons d iov ih => exact congrArg (· + 1) ih

theorem deepinit_iovLen : (deepinit a iov).1.map Iovec.iovLen = iov.map Iovec.iovLen := by
  induction iov generalizing a with
  | nil => rfl
  | cons d iov ih => exact congrArg (d.iovLen :: ·) ih

/-! ## One buffer -/

def InDesc (src x : BitVec 64) : Prop := Region.Mem src 16 x

theorem InDesc.base (hx : Region.Mem src 8 x) : InDesc src x :=
  Nat.lt_of_lt_of_le hx (by decide)

theorem InDesc.len (hx : Region.Mem (src + 8#64) 8 x) : InDesc src x :=
  Region.Mem.add (k := 8) hx (by decide)

theorem descs_cons {P : BitVec 64 → Prop}
    (h : ∀ x, Region.Mem src (16 * (d :: iov).length) x → P x) :
    (∀ x, InDesc src x → P x) ∧
    ∀ x, Region.Mem (src + sizeofIovec) (16 * iov.length) x → P x := by
  rw [List.length_cons] at h
  constructor
  · exact fun x hx => h x (Nat.lt_of_lt_of_le hx (by omega))
  · exact fun x hx => h x (Region.Mem.add (k := 16) hx (by omega))

theorem deepcopyiovec_of_ne (hlen : d.iovLen ≠ readLen inside m h.check src) :
    deepcopyiovec inside h m d src = none :=
  if_pos hlen

theorem deepcopyiovec_of_eq (hlen : d.iovLen = readLen inside m h.check src) :
    deepcopyiovec inside h m d src =
      some ⟨write m (cells d.iovBase (memcpySource inside h m src).bytes),
        ⟨d.iovBase, readLen inside (write m (cells d.iovBase (memcpySource inside h m src).bytes))
          h.keep src⟩,
        memcpySource inside h m src⟩ :=
  if_neg (not_not.mpr hlen)

theorem length_memcpySource :
    (memcpySource inside h m src).bytes.length = (readLen inside m h.len src).toNat := by
  rw [memcpySource, length_fetch]

section

variable (hdesc : ∀ x, InDesc src x → m x = m' x)

include hdesc

end

/-! ## A vector -/

section Loop

theorem copyBack_of_ne (hlen : d.iovLen ≠ readLen inside m (host 0).check src) :
    copyBack inside host m src (d :: iov) = (⟨[], d :: iov, true⟩, m) := by
  rw [copyBack, deepcopyiovec_of_ne hlen]

def afterCopy (inside : BitVec 64 → Bool) (h : HostCopy) (m : Memory) (d : Iovec)
    (src : BitVec 64) : Memory :=
  write m (cells d.iovBase (memcpySource inside h m src).bytes)

theorem copyBack_of_eq (hlen : d.iovLen = readLen inside m (host 0).check src) :
    copyBack inside host m src (d :: iov) =
      let m₁ := afterCopy inside (host 0) m d src
      let rest := copyBack inside (fun i => host (i + 1)) m₁ (src + sizeofIovec) iov
      (⟨memcpySource inside (host 0) m src :: rest.1.stored,
        ⟨d.iovBase, readLen inside m₁ (host 0).keep src⟩ :: rest.1.iov, rest.1.crashed⟩,
        rest.2) := by
  rw [copyBack, deepcopyiovec_of_eq hlen]
  rfl

/-- At every buffer that is reached, the base and the length that are read for the copy are as
`Ok` asks. `owns` has what the call itself allocated for the buffers. -/
def EveryCopy (Ok : Iovec → BitVec 64 → Nat → Prop) (inside : BitVec 64 → Bool)
    (host : Nat → HostCopy) (m : Memory) (src : BitVec 64) : List Iovec → List Iovec → Prop
  | d :: iov, own :: owns =>
    d.iovLen = readLen inside m (host 0).check src →
      Ok own (readBase inside m (host 0).base src) (readLen inside m (host 0).len src).toNat ∧
      EveryCopy Ok inside (fun i => host (i + 1)) (afterCopy inside (host 0) m d src)
        (src + sizeofIovec) iov owns
  | _, _ => True

variable {Ok : Iovec → BitVec 64 → Nat → Prop}

theorem everyCopy_iff : EveryCopy Ok inside host m src iov owns ↔
    ∀ (i : Nat) (st : Stored) (own : Iovec),
      (copyBack inside host m src iov).1.stored[i]? = some st → owns[i]? = some own →
      Ok own st.src st.bytes.length := by
  induction iov generalizing host m src owns with
  | nil =>
    refine iff_of_true trivial fun i st own hst => ?_
    cases hst
  | cons d iov ih =>
    cases owns with
    | nil =>
      refine iff_of_true trivial fun i st own _ hown => ?_
      cases hown
    | cons own owns =>
      by_cases hlen : d.iovLen = readLen inside m (host 0).check src
      · rw [copyBack_of_eq hlen, EveryCopy, ih]
        constructor
        · intro hall i st b hst hb
          obtain ⟨hfirst, hrest⟩ := hall hlen
          cases i with
          | zero =>
            cases hst
            cases hb
            rwa [length_memcpySource]
          | succ i => exact hrest i st b hst hb
        · intro hall _
          refine ⟨?_, fun i st b hst hb => hall (i + 1) st b hst hb⟩
          have hfirst := hall 0 _ own rfl rfl
          rwa [length_memcpySource] at hfirst
      · rw [copyBack_of_ne hlen]
        refine iff_of_true (fun heq => absurd heq hlen) fun i st own hst => ?_
        cases hst

theorem EveryCopy.imp {Ok' : Iovec → BitVec 64 → Nat → Prop}
    (himp : ∀ own base len, Ok own base len → Ok' own base len)
    (hall : EveryCopy Ok inside host m src iov owns) :
    EveryCopy Ok' inside host m src iov owns :=
  everyCopy_iff.mpr fun i st own hst hown => himp _ _ _ (everyCopy_iff.mp hall i st own hst hown)

end Loop

end RktIo.Host
