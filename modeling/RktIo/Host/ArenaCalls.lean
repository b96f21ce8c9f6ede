import RktIo.Host.ReadCalls

/-!
# What the host calls do with the arena

A wrapper of a host call asks for as much room as its arguments take (`arena_ensure`), takes the
pieces one by one (`arena_alloc`) and gives everything back before it returns (`arena_free`).
`arena_alloc` does not look at the room that is left, so that the pieces stay in the arena rests on
the sum in every single wrapper. `HostCall.arenaOps` is the table of these calls; whatever else a
wrapper does leaves the arena alone. Where the arena is too small it is grown by a host call of its
own on the same slot, which is in the record of the run.
-/

namespace RktIo.Host

open List

/-! ## The operations -/

/-- `arena_new`; `mem` is the answer to the `mmap`. There is no result where the code crashes. The
test for an error compares a pointer, so the order is the unsigned one. -/
def arenaNew (a : Arena) (sz mem : BitVec 64) : Option Arena :=
  if mem < 0#64 then none else some { a with mem := mem, size := sz }

def arenaEnsureOrCrash (a : Arena) (sz newmem : BitVec 64) : Option Arena :=
  if a.size < sz then
    if newmem ≥ 0#64 then some { a with mem := newmem, size := sz } else none
  else some a

theorem arenaNew_eq (a : Arena) (sz mem : BitVec 64) :
    arenaNew a sz mem = some { a with mem := mem, size := sz } :=
  if_neg (by simp [BitVec.lt_def])

theorem arenaEnsureOrCrash_eq (a : Arena) (sz newmem : BitVec 64) :
    arenaEnsureOrCrash a sz newmem = some (arenaEnsure a sz newmem) := by
  have hge : newmem ≥ 0#64 := by simp [BitVec.le_def]
  rw [arenaEnsureOrCrash, if_pos hge, arenaEnsure]
  split <;> rfl

inductive ArenaOp where
  | ensure (sz : BitVec 64)
  | alloc (sz : BitVec 64)
  | free
deriving DecidableEq

def ArenaOp.size? : ArenaOp → Option (BitVec 64)
  | .alloc sz => some sz
  | .ensure _ | .free => none

/-! ## The wrappers -/

def sizeofFlock : BitVec 64 := 32#64
def sizeofFOwnerEx : BitVec 64 := 8#64
def sizeofUid : BitVec 64 := 4#64
def sizeofStat : BitVec 64 := 144#64
def sizeofPollfd : BitVec 64 := 8#64
def sizeofIfreq : BitVec 64 := 40#64
def sizeofInt : BitVec 64 := 4#64
def sizeofKSigaction : BitVec 64 := 32#64
def sizeofSigset : BitVec 64 := 128#64
def sizeofSiginfo : BitVec 64 := 128#64
def sizeofTimespec : BitVec 64 := 16#64

def fcntlLen (cmd : BitVec 64) : BitVec 64 :=
  if cmd = 15#64 /- F_SETOWN_EX -/ ∨ cmd = 16#64 /- F_GETOWN_EX -/ then 1#64 * sizeofFOwnerEx
  else if cmd = 17#64 /- F_GETOWNER_UIDS -/ then 2#64 * sizeofUid
  else if cmd = 5#64 /- F_GETLK -/ ∨ cmd = 6#64 /- F_SETLK -/ ∨ cmd = 7#64 /- F_SETLKW -/ ∨
      cmd = 36#64 /- F_OFD_GETLK -/ ∨ cmd = 37#64 /- F_OFD_SETLK -/ ∨
      cmd = 38#64 /- F_OFD_SETLKW -/ then 1#64 * sizeofFlock
  else 0#64

def ifreqRequests : List (BitVec 64) :=
  [0x8910, -- SIOCGIFNAME
   0x8933, -- SIOCGIFINDEX
   0x8913, 0x8914, -- SIOCGIFFLAGS, SIOCSIFFLAGS
   0x8935, 0x8934, -- SIOCGIFPFLAGS, SIOCSIFPFLAGS
   0x8915, 0x8916, -- SIOCGIFADDR, SIOCSIFADDR
   0x8917, 0x8918, -- SIOCGIFDSTADDR, SIOCSIFDSTADDR
   0x8919, 0x891a, -- SIOCGIFBRDADDR, SIOCSIFBRDADDR
   0x891b, 0x891c, -- SIOCGIFNETMASK, SIOCSIFNETMASK
   0x891d, 0x891e, -- SIOCGIFMETRIC, SIOCSIFMETRIC
   0x8921, 0x8922, -- SIOCGIFMTU, SIOCSIFMTU
   0x8927, 0x8924, -- SIOCGIFHWADDR, SIOCSIFHWADDR
   0x8937, -- SIOCSIFHWBROADCAST
   0x8970, 0x8971, -- SIOCGIFMAP, SIOCSIFMAP
   0x8931, 0x8932, -- SIOCADDMULTI, SIOCDELMULTI
   0x8942, 0x8943, -- SIOCGIFTXQLEN, SIOCSIFTXQLEN
   0x8923] -- SIOCSIFNAME

def ioctlLen (request : BitVec 64) : BitVec 64 :=
  if request ∈ ifreqRequests then sizeofIfreq else 0#64

/-- The wrappers, with those of their arguments that count for the arena. -/
inductive HostCall where
  | close
  | fcntl (cmd : BitVec 64)
  | fstat
  | poll (nfds : BitVec 64)
  | fdatasync
  | ioctl (request : BitVec 64)
  | pipe
  | pread64 (count : BitVec 64)
  | pwrite64 (count : BitVec 64)
  | read (count : BitVec 64)
  | readv (iov : List Iovec)
  | write (count : BitVec 64)
  | writev (iov : List Iovec)
  | mprotect
  | rtSigaction
  | rtSigpending (nsig : BitVec 64)
  | rtSigprocmask (nsig : BitVec 64)
  | rtSigsuspend
  /-- Whether `info` and `timeout` are given. -/
  | rtSigtimedwait (info timeout : Bool)
  | tkill
  | nanosleep
  | clockGetres
  | clockGettime
  | gettid
  | mmap
  | mremap
  | munmap
  | msync
  /-- `strlen(pathname)`, where there is a path. -/
  | open (pathname : Option (BitVec 64))
deriving DecidableEq

def oneArgument (len : BitVec 64) : List ArenaOp := [.ensure len, .alloc len, .free]

def twoArguments (len1 len2 : BitVec 64) : List ArenaOp :=
  [.ensure (len1 + len2), .alloc len1, .alloc len2, .free]

def vectorArgument (iov : List Iovec) : List ArenaOp :=
  .ensure (iov.foldl (fun len2 d => len2 + deepsizeiovec d) 0#64) ::
    .alloc (sizeofIovec * BitVec.ofNat 64 iov.length) ::
      (iov.map fun d => .alloc d.iovLen) ++ [.free]

def HostCall.arenaOps : HostCall → List ArenaOp
  | .close | .fdatasync | .tkill | .gettid | .mmap | .mremap | .munmap | .msync => []
  | .mprotect => [.free]
  | .fcntl cmd =>
    let len := fcntlLen cmd
    (if len > 0#64 then [.ensure len] else []) ++
      (if len = 0#64 then [] else [.alloc len]) ++ [.free]
  | .fstat => oneArgument sizeofStat
  | .poll nfds => oneArgument (sizeofPollfd * nfds)
  | .ioctl request =>
    let len3 := ioctlLen request
    (if len3 ≠ 0#64 then [.ensure len3, .alloc len3] else []) ++ [.free]
  | .pipe => oneArgument (sizeofInt * 2#64)
  | .pread64 count | .pwrite64 count | .read count | .write count => oneArgument count
  | .readv iov | .writev iov => vectorArgument iov
  | .rtSigaction => twoArguments sizeofKSigaction sizeofKSigaction
  | .rtSigpending nsig => oneArgument nsig
  | .rtSigprocmask nsig => twoArguments nsig nsig
  | .rtSigsuspend => oneArgument sizeofSigset
  | .rtSigtimedwait info timeout =>
    let len2 := if info then sizeofSiginfo else 0#64
    let len3 := if timeout then sizeofTimespec else 0#64
    .ensure (sizeofSigset + len2 + len3) :: .alloc sizeofSigset ::
      (if info then [.alloc len2] else []) ++ (if timeout then [.alloc len3] else []) ++ [.free]
  | .nanosleep => twoArguments sizeofTimespec sizeofTimespec
  | .clockGetres => oneArgument sizeofTimespec
  | .clockGettime => oneArgument sizeofTimespec
  | .open pathname =>
    oneArgument (match pathname with
      | some strlen => strlen + 1#64
      | none => 0#64)

def HostCall.NoWrap (c : HostCall) : Prop :=
  ((c.arenaOps.filterMap ArenaOp.size?).map BitVec.toNat).sum < 2 ^ 64

instance (c : HostCall) : Decidable c.NoWrap := inferInstanceAs (Decidable (_ < _))

/-! ## Runs -/

/-- What `arena_alloc` gave out, and the arena when it did. -/
structure Piece where
  addr : BitVec 64
  len : BitVec 64
  arena : Arena

/-- A nested call that grows the arena: what it asks for, what the host answers, and what is
allocated on its entry and on its exit. -/
structure Growth where
  asked : BitVec 64
  answer : BitVec 64
  allocated : BitVec 64

structure ArenaRun where
  pieces : List Piece
  growths : List Growth
  crashed : Bool
  arena : Arena

def runOps (newmem : BitVec 64) (a : Arena) : List ArenaOp → ArenaRun
  | [] => ⟨[], [], false, a⟩
  | .ensure sz :: ops =>
    -- the nested call itself has nothing to do with the arena
    let growths := if a.size < sz then [⟨sz, newmem, a.allocated⟩] else []
    match arenaEnsureOrCrash a sz newmem with
    | none => ⟨[], growths, true, a⟩
    | some a' =>
      let rest := runOps newmem a' ops
      { rest with growths := growths ++ rest.growths }
  | .alloc sz :: ops =>
    let val := arenaAlloc a sz
    let rest := runOps newmem val.2 ops
    -- `arena_alloc(0)` gives no memory
    { rest with pieces := (if sz = 0#64 then [] else [⟨val.1, sz, a⟩]) ++ rest.pieces }
  | .free :: ops => runOps newmem (arenaFree a) ops

structure ArenaCall where
  entry : Arena
  run : ArenaRun

def runCalls (a : Arena) : List (HostCall × BitVec 64) → List ArenaCall
  | [] => []
  | (c, newmem) :: calls =>
    let run := runOps newmem a c.arenaOps
    ⟨a, run⟩ :: if run.crashed then [] else runCalls run.arena calls

def Piece.Inside (p : Piece) (a : Arena) : Prop :=
  a.mem.toNat ≤ p.addr.toNat ∧ p.addr.toNat + p.len.toNat ≤ a.mem.toNat + a.size.toNat

def Piece.Disjoint (p q : Piece) : Prop :=
  p.addr.toNat + p.len.toNat ≤ q.addr.toNat ∨ q.addr.toNat + q.len.toNat ≤ p.addr.toNat

def Granted (mem sz : BitVec 64) : Prop := mem.toNat + sz.toNat ≤ 2 ^ 64

structure StaysInArena (r : ArenaCall) : Prop where
  entry : r.entry.allocated = 0#64
  exit : r.run.arena.allocated = 0#64
  nested : ∀ g ∈ r.run.growths, g.allocated = 0#64
  disjoint : r.run.pieces.Pairwise Piece.Disjoint
  inside : ∀ p ∈ r.run.pieces, p.Inside p.arena ∧ p.Inside r.run.arena

variable {a : Arena} {newmem sz : BitVec 64} {ops : List ArenaOp} {sizes : List (BitVec 64)}
  {c : HostCall} {calls : List (HostCall × BitVec 64)}

@[simp] theorem runOps_nil : runOps newmem a [] = ⟨[], [], false, a⟩ := rfl

@[simp] theorem runOps_free : runOps newmem a (.free :: ops) = runOps newmem (arenaFree a) ops :=
  rfl

theorem runOps_ensure : runOps newmem a (.ensure sz :: ops) =
    let rest := runOps newmem (arenaEnsure a sz newmem) ops
    { rest with
      growths := (if a.size < sz then [⟨sz, newmem, a.allocated⟩] else []) ++ rest.growths } := by
  rw [runOps, arenaEnsureOrCrash_eq]

theorem runOps_alloc (hsz : sz ≠ 0#64) : runOps newmem a (.alloc sz :: ops) =
    let rest := runOps newmem { a with allocated := a.allocated + sz } ops
    { rest with pieces := ⟨a.mem + a.allocated, sz, a⟩ :: rest.pieces } := by
  rw [runOps, arenaAlloc, if_neg hsz, if_neg hsz]
  rfl

/-! ## The sums -/

/-- What the arena calls of a wrapper look like: it does not allocate, or it asks for the sum of
what it then allocates. -/
inductive ArenaShape : List ArenaOp → Prop where
  | none : ArenaShape []
  | free : ArenaShape [.free]
  | args (sizes : List (BitVec 64)) :
      ArenaShape (.ensure sizes.sum :: (sizes.map .alloc ++ [.free]))

theorem shape_oneArgument (len : BitVec 64) : ArenaShape (oneArgument len) := by
  have h := ArenaShape.args [len]
  rwa [sum_singleton] at h

theorem shape_twoArguments (len1 len2 : BitVec 64) : ArenaShape (twoArguments len1 len2) := by
  have h := ArenaShape.args [len1, len2]
  rwa [sum_cons, sum_singleton] at h

theorem foldl_deepsizeiovec (iov : List Iovec) (len2 : BitVec 64) :
    iov.foldl (fun n d => n + deepsizeiovec d) len2 =
      len2 + (sizeofIovec * BitVec.ofNat 64 iov.length + (iov.map Iovec.iovLen).sum) := by
  induction iov generalizing len2 with
  | nil => simp
  | cons d iov ih =>
    have hlen : BitVec.ofNat 64 (d :: iov).length = BitVec.ofNat 64 iov.length + 1 := by
      rw [length_cons, BitVec.ofNat_add]
      rfl
    rw [foldl_cons, ih, map_cons, sum_cons, hlen, deepsizeiovec]
    ring

theorem shape_vectorArgument (iov : List Iovec) : ArenaShape (vectorArgument iov) := by
  have h := ArenaShape.args
    (sizeofIovec * BitVec.ofNat 64 iov.length :: iov.map Iovec.iovLen)
  rw [List.sum_cons, List.map_cons, List.map_map] at h
  rw [vectorArgument, foldl_deepsizeiovec, BitVec.zero_add]
  exact h

theorem arenaOps_shape (c : HostCall) : ArenaShape c.arenaOps := by
  cases c with
  | close | fdatasync | tkill | gettid | mmap | mremap | munmap | msync => exact .none
  | mprotect => exact .free
  | fcntl cmd =>
    by_cases hlen : fcntlLen cmd = 0#64
    · simpa [HostCall.arenaOps, hlen] using ArenaShape.free
    · have hpos : fcntlLen cmd > 0#64 := by bv_omega
      simpa [HostCall.arenaOps, hlen, hpos, oneArgument] using shape_oneArgument (fcntlLen cmd)
  | ioctl request =>
    by_cases hlen : ioctlLen request = 0#64
    · simpa [HostCall.arenaOps, hlen] using ArenaShape.free
    · simpa [HostCall.arenaOps, hlen, oneArgument] using shape_oneArgument (ioctlLen request)
  | readv iov | writev iov => exact shape_vectorArgument iov
  | rtSigaction | rtSigprocmask nsig | nanosleep => exact shape_twoArguments _ _
  | rtSigtimedwait info timeout =>
    cases info <;> cases timeout
    · exact ArenaShape.args [sizeofSigset]
    · exact ArenaShape.args [sizeofSigset, sizeofTimespec]
    · exact ArenaShape.args [sizeofSigset, sizeofSiginfo]
    · exact ArenaShape.args [sizeofSigset, sizeofSiginfo, sizeofTimespec]
  | _ => exact shape_oneArgument _

theorem filterMap_size_args (sizes : List (BitVec 64)) :
    (ArenaOp.ensure sz :: (sizes.map .alloc ++ [.free])).filterMap ArenaOp.size? = sizes := by
  rw [filterMap_cons_none rfl, filterMap_append, filterMap_map]
  exact (congrArg (· ++ []) (filterMap_some ..)).trans (append_nil _)

theorem toNat_sum (hsum : (sizes.map BitVec.toNat).sum < 2 ^ 64) :
    sizes.sum.toNat = (sizes.map BitVec.toNat).sum := by
  induction sizes with
  | nil => rfl
  | cons sz sizes ih =>
    rw [map_cons, sum_cons] at hsum ⊢
    rw [sum_cons, BitVec.toNat_add, ih (by omega), Nat.mod_eq_of_lt hsum]

/-! ## One call -/

structure ArenaFree (a : Arena) : Prop where
  allocated : a.allocated = 0#64
  granted : Granted a.mem a.size

/-- What is carved out of an arena that has the room: `a` is the arena before. -/
structure Carved (a : Arena) (r : ArenaRun) : Prop where
  growths : r.growths = []
  crashed : r.crashed = false
  arena : r.arena = arenaFree a
  disjoint : r.pieces.Pairwise Piece.Disjoint
  above : ∀ p ∈ r.pieces, a.mem.toNat + a.allocated.toNat ≤ p.addr.toNat
  below : ∀ p ∈ r.pieces, p.addr.toNat + p.len.toNat ≤ a.mem.toNat + a.size.toNat
  same : ∀ p ∈ r.pieces, p.arena.mem = a.mem ∧ p.arena.size = a.size

theorem carved_allocs (hroom : a.allocated.toNat + (sizes.map BitVec.toNat).sum ≤ a.size.toNat)
    (hmem : Granted a.mem a.size) :
    Carved a (runOps newmem a (sizes.map .alloc ++ [.free])) := by
  induction sizes generalizing a with
  | nil => constructor <;> simp
  | cons sz sizes ih =>
    rw [List.map_cons, List.sum_cons] at hroom
    by_cases hsz : sz = 0#64
    · subst hsz
      exact ih (by simpa using hroom) hmem
    · have hpos : 0 < sz.toNat := by bv_omega
      have hlt := a.size.isLt
      rw [Granted] at hmem
      have hnext : (a.allocated + sz).toNat = a.allocated.toNat + sz.toNat := by
        rw [BitVec.toNat_add, Nat.mod_eq_of_lt (by omega)]
      have haddr : (a.mem + a.allocated).toNat = a.mem.toNat + a.allocated.toNat := by
        rw [BitVec.toNat_add, Nat.mod_eq_of_lt (by omega)]
      -- what is left is carved from behind this piece
      have hrest := ih (a := { a with allocated := a.allocated + sz })
        (by dsimp only; omega) hmem
      rw [List.map_cons, List.cons_append, runOps_alloc hsz]
      constructor
      · exact hrest.growths
      · exact hrest.crashed
      · exact hrest.arena
      · refine List.Pairwise.cons (fun p hp => .inl ?_) hrest.disjoint
        have := hrest.above p hp
        dsimp only at this ⊢
        omega
      · refine List.forall_mem_cons.mpr ⟨haddr.ge, fun p hp => ?_⟩
        have := hrest.above p hp
        dsimp only at this
        omega
      · refine List.forall_mem_cons.mpr ⟨?_, hrest.below⟩
        dsimp only
        omega
      · exact List.forall_mem_cons.mpr ⟨⟨rfl, rfl⟩, hrest.same⟩

theorem size_arenaEnsure : sz ≤ (arenaEnsure a sz newmem).size := by
  rw [arenaEnsure]
  split
  case isTrue => exact BitVec.le_refl _
  case isFalse h => exact BitVec.not_lt.mp h

theorem granted_arenaEnsure (hmem : Granted a.mem a.size)
    (hgrant : a.size < sz → Granted newmem sz) :
    Granted (arenaEnsure a sz newmem).mem (arenaEnsure a sz newmem).size := by
  rw [arenaEnsure]
  split
  case isTrue h => exact hgrant h
  case isFalse => exact hmem

@[simp] theorem allocated_arenaEnsure : (arenaEnsure a sz newmem).allocated = a.allocated := by
  rw [arenaEnsure]
  split <;> rfl

theorem ArenaShape.staysInArena (hshape : ArenaShape ops) (ha : ArenaFree a)
    (hsum : ((ops.filterMap ArenaOp.size?).map BitVec.toNat).sum < 2 ^ 64)
    (hgrant : ∀ g ∈ (runOps newmem a ops).growths, Granted g.answer g.asked) :
    StaysInArena ⟨a, runOps newmem a ops⟩ ∧ ArenaFree (runOps newmem a ops).arena ∧
      (runOps newmem a ops).crashed = false := by
  cases hshape with
  | none =>
    refine ⟨⟨ha.allocated, ha.allocated, ?_, ?_, ?_⟩, ha, rfl⟩ <;> simp
  | free =>
    refine ⟨⟨ha.allocated, rfl, ?_, ?_, ?_⟩, ⟨rfl, ha.granted⟩, rfl⟩ <;> simp
  | args sizes =>
    rw [filterMap_size_args] at hsum
    rw [runOps_ensure] at hgrant ⊢
    dsimp only at hgrant ⊢
    have hmem : Granted (arenaEnsure a sizes.sum newmem).mem
        (arenaEnsure a sizes.sum newmem).size := by
      refine granted_arenaEnsure ha.granted fun hgrow =>
        hgrant ⟨sizes.sum, newmem, a.allocated⟩ (mem_append_left _ ?_)
      rw [if_pos hgrow]
      exact mem_singleton_self _
    have hroom : (arenaEnsure a sizes.sum newmem).allocated.toNat +
        (sizes.map BitVec.toNat).sum ≤ (arenaEnsure a sizes.sum newmem).size.toNat := by
      rw [allocated_arenaEnsure, ha.allocated, ← toNat_sum hsum, BitVec.toNat_zero, Nat.zero_add]
      exact BitVec.le_def.mp size_arenaEnsure
    have hcarved : Carved (arenaEnsure a sizes.sum newmem) (runOps newmem
        (arenaEnsure a sizes.sum newmem) (sizes.map .alloc ++ [.free])) := carved_allocs hroom hmem
    have hinside : ∀ p ∈ (runOps newmem (arenaEnsure a sizes.sum newmem)
        (sizes.map .alloc ++ [.free])).pieces, p.Inside (arenaEnsure a sizes.sum newmem) :=
      fun p hp => ⟨Nat.le_of_add_right_le (hcarved.above p hp), hcarved.below p hp⟩
    refine ⟨⟨ha.allocated, ?_, ?_, hcarved.disjoint, fun p hp => ⟨?_, ?_⟩⟩, ⟨?_, ?_⟩,
      hcarved.crashed⟩
    · exact congrArg Arena.allocated hcarved.arena
    · intro g hg
      dsimp only at hg
      rw [hcarved.growths, append_nil] at hg
      split at hg
      case isTrue => exact mem_singleton.mp hg ▸ ha.allocated
      case isFalse => cases hg
    · obtain ⟨hm, hs⟩ := hcarved.same p hp
      rw [Piece.Inside, hm, hs]
      exact hinside p hp
    · dsimp only
      rw [hcarved.arena]
      exact hinside p hp
    · exact congrArg Arena.allocated hcarved.arena
    · rw [hcarved.arena]
      exact hmem

/-! ## Sequences of calls -/

theorem runCalls_staysInArena (ha : ArenaFree a) (hsizes : ∀ c ∈ calls, c.1.NoWrap)
    (hgrant : ∀ r ∈ runCalls a calls, ∀ g ∈ r.run.growths, Granted g.answer g.asked) :
    ∀ r ∈ runCalls a calls, StaysInArena r := by
  induction calls generalizing a with
  | nil => exact fun r hr => absurd hr not_mem_nil
  | cons call calls ih =>
    obtain ⟨c, newmem⟩ := call
    rw [forall_mem_cons] at hsizes
    rw [runCalls] at hgrant ⊢
    rw [forall_mem_cons] at hgrant ⊢
    obtain ⟨hstays, hfree, hcrash⟩ :=
      (arenaOps_shape c).staysInArena ha hsizes.1 hgrant.1
    rw [hcrash] at hgrant ⊢
    exact ⟨hstays, ih hfree hsizes.2 hgrant.2⟩

def Arena.zeroed : Arena := ⟨0#64, 0#64, 0#64⟩

/-- Over every sequence of calls on an arena that the host has mapped and grown, the arena is empty
when a call starts and when it ends, also a nested one, and the pieces a call takes are pairwise
disjoint and in the arena. -/
theorem calls_stay_in_arena {mem : BitVec 64} (hnew : arenaNew .zeroed sz mem = some a)
    (hmap : Granted mem sz) (hsizes : ∀ c ∈ calls, c.1.NoWrap)
    (hgrant : ∀ r ∈ runCalls a calls, ∀ g ∈ r.run.growths, Granted g.answer g.asked) :
    ∀ r ∈ runCalls a calls, StaysInArena r := by
  rw [arenaNew_eq, Option.some.injEq] at hnew
  exact runCalls_staysInArena ⟨hnew ▸ rfl, hnew ▸ hmap⟩ hsizes hgrant

/-- A read that makes the arena grow, a `readv` of two buffers and an `fcntl`. -/
theorem calls_stay_in_arena_three :
    let calls : List (HostCall × BitVec 64) :=
      [(.read 5000#64, 0x7f0000100000#64),
        (.readv [⟨0x1000#64, 100#64⟩, ⟨0x2000#64, 7#64⟩], 0#64), (.fcntl 5#64, 0#64)]
    let a : Arena := ⟨0x7f0000000000#64, 4096#64, 0#64⟩
    ((runCalls a calls).map fun r => r.run.pieces.length) = [1, 3, 1] ∧
      ∀ r ∈ runCalls a calls, StaysInArena r := by
  refine ⟨by decide, ?_⟩
  have hnew : arenaNew .zeroed 4096#64 0x7f0000000000#64 =
      some ⟨0x7f0000000000#64, 4096#64, 0#64⟩ := arenaNew_eq _ _ _
  refine calls_stay_in_arena hnew (by unfold Granted; decide) (by decide) ?_
  have hgrowths : ∀ r ∈ runCalls ⟨0x7f0000000000#64, 4096#64, 0#64⟩
      [(.read 5000#64, 0x7f0000100000#64),
        (.readv [⟨0x1000#64, 100#64⟩, ⟨0x2000#64, 7#64⟩], 0#64), (.fcntl 5#64, 0#64)],
      ∀ g ∈ r.run.growths, g.answer.toNat + g.asked.toNat ≤ 2 ^ 64 := by
    decide
  exact hgrowths

/-! ## A refused mapping -/

def Refused (v : BitVec 64) : Prop := -4095 ≤ v.toInt ∧ v.toInt ≤ -1

/-- `arena_new` does not use a refused mapping: it stops, the arena is not at the error value, and
nothing is ever allocated there. -/
structure NewStops (a : Arena) (sz e : BitVec 64) : Prop where
  crash : arenaNew a sz e = none
  mem : ∀ a', arenaNew a sz e = some a' → a'.mem ≠ e
  later : ∀ a', arenaNew a sz e = some a' → ∀ calls, ∀ r ∈ runCalls a' calls,
    ∀ p ∈ r.run.pieces, p.arena.mem ≠ e

def Grows (a : Arena) (c : HostCall) : Prop := ∃ sz, .ensure sz ∈ c.arenaOps ∧ a.size < sz

structure GrowthStops (a : Arena) (c : HostCall) (e : BitVec 64) : Prop where
  crash : (runOps e a c.arenaOps).crashed = true
  mem : (runOps e a c.arenaOps).arena.mem ≠ e
  pieces : ∀ p ∈ (runOps e a c.arenaOps).pieces, p.arena.mem ≠ e
  later : ∀ calls, ∀ r ∈ runCalls (runOps e a c.arenaOps).arena calls,
    ∀ p ∈ r.run.pieces, p.arena.mem ≠ e

theorem runOps_crashed : (runOps newmem a ops).crashed = false := by
  induction ops generalizing a with
  | nil => rfl
  | cons op ops ih =>
    cases op with
    | ensure sz =>
      rw [runOps_ensure]
      exact ih
    | alloc sz => exact ih
    | free => exact ih

theorem mem_runOps_allocs :
    (runOps newmem a (sizes.map .alloc ++ [.free])).arena.mem = a.mem := by
  induction sizes generalizing a with
  | nil => rfl
  | cons sz sizes ih =>
    refine ih.trans ?_
    rw [arenaAlloc]
    split <;> rfl

theorem pieces_runOps_allocs (hsum : sizes.sum ≠ 0) :
    ∃ sz pieces, (runOps newmem a (sizes.map .alloc ++ [.free])).pieces =
      ⟨a.mem + a.allocated, sz, a⟩ :: pieces := by
  induction sizes with
  | nil => exact absurd rfl hsum
  | cons sz sizes ih =>
    by_cases hsz : sz = 0#64
    · subst hsz
      rw [sum_cons] at hsum
      exact ih (fun h => hsum (by rw [h]; rfl))
    · exact ⟨sz, _, congrArg ArenaRun.pieces (runOps_alloc hsz)⟩

theorem grows_runOps (e : BitVec 64) (hgrows : Grows a c) :
    (runOps e a c.arenaOps).arena.mem = e ∧
      ∃ p ∈ (runOps e a c.arenaOps).pieces, p.arena.mem = e ∧ p.addr = e + a.allocated := by
  obtain ⟨sz, hmem, hlt⟩ := hgrows
  revert hmem
  generalize c.arenaOps = ops, arenaOps_shape c = hshape
  intro hmem
  cases hshape with
  | none => cases hmem
  | free => simp at hmem
  | args sizes =>
    obtain rfl : sz = sizes.sum := by simpa using hmem
    have hensure : arenaEnsure a sizes.sum e = { a with mem := e, size := sizes.sum } := if_pos hlt
    rw [runOps_ensure, hensure]
    refine ⟨mem_runOps_allocs, ?_⟩
    have hne : sizes.sum ≠ 0 := by bv_omega
    obtain ⟨sz, pieces, hpieces⟩ : ∃ sz pieces, (runOps e { a with mem := e, size := sizes.sum }
        (sizes.map .alloc ++ [.free])).pieces =
          ⟨e + a.allocated, sz, { a with mem := e, size := sizes.sum }⟩ :: pieces :=
      pieces_runOps_allocs hne
    exact ⟨_, hpieces ▸ mem_cons_self, rfl, rfl⟩

/-- No error of the host is noticed: `arena_new` and every call that makes the arena grow go on,
with the error as the address of the arena, and allocate there. -/
theorem refused_mapping_used {e : BitVec 64} (_he : Refused e) :
    (∀ a sz, ¬ NewStops a sz e ∧ arenaNew a sz e = some { a with mem := e, size := sz }) ∧
    ∀ a c, Grows a c → ¬ GrowthStops a c e ∧
      (runOps e a c.arenaOps).crashed = false ∧ (runOps e a c.arenaOps).arena.mem = e ∧
      ∃ p ∈ (runOps e a c.arenaOps).pieces, p.addr = e + a.allocated := by
  constructor
  · intro a sz
    refine ⟨fun h => ?_, arenaNew_eq a sz e⟩
    exact absurd (h.crash.symm.trans (arenaNew_eq a sz e)) nofun
  · intro a c hgrows
    obtain ⟨hmem, p, hp, -, haddr⟩ := grows_runOps e hgrows
    exact ⟨fun h => h.mem hmem, runOps_crashed, hmem, p, hp, haddr⟩

/-- The host is out of memory when a read of 5000 bytes makes the arena grow. -/
theorem refused_mapping_used_enomem :
    Refused (-12#64) ∧ Grows ⟨0x7f0000000000#64, 4096#64, 0#64⟩ (.read 5000#64) ∧
      ¬ GrowthStops ⟨0x7f0000000000#64, 4096#64, 0#64⟩ (.read 5000#64) (-12#64) := by
  have hgrows : Grows ⟨0x7f0000000000#64, 4096#64, 0#64⟩ (.read 5000#64) :=
    ⟨5000#64, by decide, by decide⟩
  have hrefused : Refused (-12#64) := by unfold Refused; decide
  exact ⟨hrefused, hgrows, ((refused_mapping_used hrefused).2 _ _ hgrows).1⟩

/-- A fresh arena at `-12`: the next read gets its buffer at that address. -/
theorem arenaNew_enomem :
    ¬ NewStops .zeroed 4096#64 (-12#64) ∧
    ((arenaNew .zeroed 4096#64 (-12#64)).map fun a =>
      (runCalls a [(.read 100#64, 0#64)]).map fun r => r.run.pieces.map Piece.addr) =
        some [[-12#64]] := by
  refine ⟨fun h => ?_, by decide⟩
  exact absurd (h.crash.symm.trans (arenaNew_eq _ _ _)) nofun

end RktIo.Host
