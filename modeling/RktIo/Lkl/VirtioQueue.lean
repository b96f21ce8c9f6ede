import RktIo.Lib.Links

/-!
# Taking requests from a virtio queue (`lkl/virtio_queue.c`)

The driver puts the indices of descriptors into a ring of available entries; a request is the chain
of descriptors that starts there. `virtio_process_one` collects the buffers of one chain and hands
them to the device.

There is room for `VIRTIO_REQ_MAX_BUFS` buffers. When they are filled, the loop has already gone to
the descriptor behind them, and the test for a chain that is too long asks whether *that* one has a
successor. A chain with exactly one descriptor too many passes, and its last buffer is missing.
-/

namespace RktIo.Lkl.Virtio

def MAX_SKB_FRAGS : Nat := if 65536 / 4096 + 1 < 16 then 16 else 65536 / 4096 + 1

def VIRTIO_REQ_MAX_BUFS : Nat := MAX_SKB_FRAGS + 2

def LKL_VRING_DESC_F_NEXT : BitVec 16 := 1

structure VringDesc where
  addr : BitVec 64
  len : BitVec 32
  flags : BitVec 16
  next : BitVec 16
  deriving Repr, DecidableEq

/-- The fields of `struct virtio_queue` that are read, with the rings that it points to. -/
structure VirtioQueue where
  num : BitVec 32
  ready : Bool
  maxMergeLen : BitVec 32
  desc : Nat → VringDesc
  availRing : Nat → BitVec 16
  availIdx : BitVec 16
  lastQueuedIdx : BitVec 16

structure IoVec where
  base : BitVec 64
  len : BitVec 32
  deriving Repr, DecidableEq

/-- `struct _virtio_req`: the entry of the ring, the buffers, of which there are `buf_count`, and
their total length. -/
structure VirtioReq where
  idx : BitVec 16
  bufs : List IoVec := []
  totalLen : BitVec 32 := 0
  deriving Repr, DecidableEq

inductive VirtioPanic where
  | badVringDesc (base : BitVec 64) (len : BitVec 32)
  | tooManyChainedBufs
  deriving Repr, DecidableEq

/-! ## The functions -/

def VirtioQueue.slot (q : VirtioQueue) (idx : BitVec 16) : Nat :=
  (idx.setWidth 32 &&& (q.num - 1)).toNat

def vringDescAtLeIdx (q : VirtioQueue) (leIdx : BitVec 16) : VringDesc := q.desc (q.slot leIdx)

def vringDescAtAvailIdx (q : VirtioQueue) (idx : BitVec 16) : VringDesc :=
  vringDescAtLeIdx q (q.availRing (q.slot idx))

def VringDesc.hasNext (d : VringDesc) : Bool := d.flags &&& LKL_VRING_DESC_F_NEXT ≠ 0

def getNextDesc (q : VirtioQueue) (d : VringDesc) (idx : BitVec 16) :
    Option VringDesc × BitVec 16 :=
  if q.maxMergeLen ≠ 0 then
    if idx + 1 = q.availIdx then (none, idx + 1)
    else (some (vringDescAtLeIdx q (q.availRing (q.slot (idx + 1)))), idx + 1)
  else if d.hasNext then (some (vringDescAtLeIdx q d.next), idx)
  else (none, idx)

def VringDesc.iovec (d : VringDesc) : IoVec := ⟨d.addr, d.len⟩

def addDevBufFromVringDesc (req : VirtioReq) (d : VringDesc) : Except VirtioPanic VirtioReq :=
  if d.addr ≠ 0 ∧ d.len ≠ 0 then
    .ok { req with bufs := req.bufs ++ [d.iovec], totalLen := req.totalLen + d.len }
  else .error (.badVringDesc d.addr d.len)

/-- The loop of `virtio_process_one` when there is room for this many more buffers: the request,
and `desc` behind the loop. -/
def gather (q : VirtioQueue) :
    Nat → VirtioReq → VringDesc → BitVec 16 → Except VirtioPanic (VirtioReq × Option VringDesc)
  | 0, req, d, _ => .ok (req, some d)
  | room + 1, req, d, idx =>
    match addDevBufFromVringDesc req d with
    | .error e => .error e
    | .ok req =>
      if q.maxMergeLen ≠ 0 ∧ req.totalLen > q.maxMergeLen then .ok (req, some d)
      else
        match getNextDesc q d idx with
        | (none, _) => .ok (req, none)
        | (some d, idx) => gather q room req d idx

def virtioProcessOne (q : VirtioQueue) : Except VirtioPanic VirtioReq :=
  let idx := q.lastQueuedIdx
  match gather q VIRTIO_REQ_MAX_BUFS ⟨idx, [], 0⟩ (vringDescAtAvailIdx q idx) idx with
  | .error e => .error e
  | .ok (req, some d) => if d.hasNext then .error .tooManyChainedBufs else .ok req
  | .ok (req, none) => .ok req

/-! ## Chains -/

def nextDesc (q : VirtioQueue) (d : VringDesc) : Option VringDesc :=
  if d.hasNext then some (q.desc (d.next.toNat % q.num.toNat)) else none

def headDesc (q : VirtioQueue) (idx : BitVec 16) : VringDesc :=
  q.desc ((q.availRing (idx.toNat % q.num.toNat)).toNat % q.num.toNat)

def VirtioQueue.PowerOfTwo (q : VirtioQueue) : Prop := ∃ k < 32, q.num = BitVec.twoPow 32 k

def VirtioQueue.Filled (q : VirtioQueue) : Prop :=
  ∀ i < q.num.toNat, (q.desc i).addr ≠ 0 ∧ (q.desc i).len ≠ 0

variable {q : VirtioQueue}

section

variable (h : q.PowerOfTwo)

include h

theorem VirtioQueue.PowerOfTwo.toNat_num : ∃ k < 32, q.num.toNat = 2 ^ k := by
  obtain ⟨k, hk, hnum⟩ := h
  exact ⟨k, hk, by rw [hnum, BitVec.toNat_twoPow_of_lt hk]⟩

theorem slot_eq (idx : BitVec 16) : q.slot idx = idx.toNat % q.num.toNat := by
  obtain ⟨k, hk, hnum⟩ := h.toNat_num
  have hpos : 0 < 2 ^ k := Nat.two_pow_pos k
  have hone : (1 : BitVec 32) ≤ q.num := by
    rw [BitVec.le_def, hnum]
    exact hpos
  have hsub : (q.num - 1).toNat = 2 ^ k - 1 := by
    rw [BitVec.toNat_sub_of_le hone, hnum]
    rfl
  have hwide : (idx.setWidth 32).toNat = idx.toNat := by
    rw [BitVec.toNat_setWidth]
    exact Nat.mod_eq_of_lt (by have := idx.isLt; omega)
  rw [VirtioQueue.slot, BitVec.toNat_and, hsub, hwide, Nat.and_two_pow_sub_one_eq_mod, hnum]

theorem slot_lt (idx : BitVec 16) : q.slot idx < q.num.toNat := by
  obtain ⟨k, -, hnum⟩ := h.toNat_num
  rw [slot_eq h, hnum]
  exact Nat.mod_lt _ (Nat.two_pow_pos k)

theorem vringDescAtAvailIdx_eq (idx : BitVec 16) : vringDescAtAvailIdx q idx = headDesc q idx := by
  rw [vringDescAtAvailIdx, vringDescAtLeIdx, slot_eq h, slot_eq h, headDesc]

theorem getNextDesc_eq (hmerge : q.maxMergeLen = 0) (d : VringDesc) (idx : BitVec 16) :
    getNextDesc q d idx = (nextDesc q d, idx) := by
  rw [getNextDesc, if_neg (not_not.mpr hmerge), nextDesc, vringDescAtLeIdx, slot_eq h]
  split <;> rfl

end

def InTable (q : VirtioQueue) (d : VringDesc) : Prop := ∃ i < q.num.toNat, q.desc i = d

theorem inTable_headDesc (h : q.PowerOfTwo) (idx : BitVec 16) : InTable q (headDesc q idx) := by
  rw [← vringDescAtAvailIdx_eq h]
  exact ⟨_, slot_lt h _, rfl⟩

theorem inTable_next (h : q.PowerOfTwo) {d d' : VringDesc} (hnext : nextDesc q d = some d') :
    InTable q d' := by
  unfold nextDesc at hnext
  split at hnext
  · rw [← slot_eq h] at hnext
    exact ⟨_, slot_lt h _, Option.some.inj hnext⟩
  · cases hnext

/-! ## The loop -/

def VirtioReq.addAll (req : VirtioReq) (ds : List VringDesc) : VirtioReq :=
  { req with
    bufs := req.bufs ++ ds.map VringDesc.iovec
    totalLen := ds.foldl (fun total d => total + d.len) req.totalLen }

section

variable (h : q.PowerOfTwo) (hmerge : q.maxMergeLen = 0) (hfilled : q.Filled)

include h hmerge hfilled

/-- **The loop** follows the links as long as there is room. Induction on the room. -/
theorem gather_eq (room : Nat) (req : VirtioReq) {d : VringDesc} (hd : InTable q d)
    (idx : BitVec 16) :
    gather q room req d idx
      = .ok (req.addAll (Links.follow (nextDesc q) room d).1,
          (Links.follow (nextDesc q) room d).2) := by
  induction room generalizing req d with
  | zero => simp [gather, Links.follow, VirtioReq.addAll]
  | succ room ih =>
    have hadd : addDevBufFromVringDesc req d = .ok (req.addAll [d]) := by
      obtain ⟨i, hi, rfl⟩ := hd
      rw [addDevBufFromVringDesc, if_pos (hfilled i hi)]
      rfl
    rw [gather, hadd]
    dsimp only
    rw [if_neg (by simp [hmerge]), getNextDesc_eq h hmerge]
    cases hnext : nextDesc q d with
    | none =>
      rw [Links.follow_last hnext]
    | some d' =>
      rw [Links.follow_link hnext]
      dsimp only
      rw [ih _ (inTable_next h hnext)]
      simp [VirtioReq.addAll]

theorem gather_length_le {room : Nat} {idx : BitVec 16} {d : VringDesc} (hd : InTable q d)
    {req : VirtioReq} {rest : Option VringDesc}
    (hgather : gather q room ⟨idx, [], 0⟩ d idx = .ok (req, rest)) : req.bufs.length ≤ room := by
  rw [gather_eq h hmerge hfilled _ _ hd, Except.ok.injEq, Prod.mk.injEq] at hgather
  rw [← hgather.1]
  simpa [VirtioReq.addAll] using Links.follow_length_le (nextDesc q) room d

theorem virtioProcessOne_eq :
    virtioProcessOne q
      = if ((Links.follow (nextDesc q) VIRTIO_REQ_MAX_BUFS (headDesc q q.lastQueuedIdx)).2.any
          VringDesc.hasNext) = true then .error .tooManyChainedBufs
        else .ok (VirtioReq.addAll ⟨q.lastQueuedIdx, [], 0⟩
          (Links.follow (nextDesc q) VIRTIO_REQ_MAX_BUFS (headDesc q q.lastQueuedIdx)).1) := by
  have hgather := gather_eq h hmerge hfilled VIRTIO_REQ_MAX_BUFS ⟨q.lastQueuedIdx, [], 0⟩
    (inTable_headDesc h q.lastQueuedIdx) q.lastQueuedIdx
  rw [virtioProcessOne, vringDescAtAvailIdx_eq h, hgather]
  cases (Links.follow (nextDesc q) VIRTIO_REQ_MAX_BUFS (headDesc q q.lastQueuedIdx)).2 with
  | none => simp
  | some d => simp

end

theorem hasNext_iff (d : VringDesc) : d.hasNext = true ↔ nextDesc q d ≠ none := by
  unfold nextDesc
  split <;> simp_all

/-! ## Whole chains -/

def RequestChain (q : VirtioQueue) (ds : List VringDesc) : Prop :=
  Links.Chain (nextDesc q) (headDesc q q.lastQueuedIdx) ds

/-- The request carries its whole chain: no more than `VIRTIO_REQ_MAX_BUFS` buffers are stored, the
device gets the buffers of the chain in order if there is room for them, and there is a panic if
there is not, or if the chain runs in a circle. -/
structure CarriesChain (q : VirtioQueue) : Prop where
  bounded : ∀ req rest, gather q VIRTIO_REQ_MAX_BUFS ⟨q.lastQueuedIdx, [], 0⟩
      (vringDescAtAvailIdx q q.lastQueuedIdx) q.lastQueuedIdx = .ok (req, rest) →
    req.bufs.length ≤ VIRTIO_REQ_MAX_BUFS
  whole : ∀ req, virtioProcessOne q = .ok req →
    ∃ ds, RequestChain q ds ∧ req.bufs = ds.map VringDesc.iovec
  handed : ∀ ds, RequestChain q ds → ds.length ≤ VIRTIO_REQ_MAX_BUFS →
    ∃ req, virtioProcessOne q = .ok req
  refused : (¬ ∃ ds, RequestChain q ds ∧ ds.length ≤ VIRTIO_REQ_MAX_BUFS) →
    ∃ e, virtioProcessOne q = .error e

theorem RequestChain.length_gt {q : VirtioQueue} {d : VringDesc} {ds : List VringDesc}
    (hrest : (Links.follow (nextDesc q) VIRTIO_REQ_MAX_BUFS (headDesc q q.lastQueuedIdx)).2
      = some d)
    (hnext : d.hasNext = true) (hds : RequestChain q ds) : VIRTIO_REQ_MAX_BUFS + 1 < ds.length := by
  obtain ⟨rest, rfl, hchain⟩ := (Links.chain_iff_of_follow hrest).mp hds
  have hpos := hchain.length_pos
  have hone := mt hchain.length_eq_one_iff.mp ((hasNext_iff d).mp hnext)
  rw [List.length_append, Links.length_follow hrest]
  omega

theorem requestChain_concat {q : VirtioQueue} {d : VringDesc}
    (hrest : (Links.follow (nextDesc q) VIRTIO_REQ_MAX_BUFS (headDesc q q.lastQueuedIdx)).2
      = some d)
    (hnext : ¬ d.hasNext = true) :
    RequestChain q
      ((Links.follow (nextDesc q) VIRTIO_REQ_MAX_BUFS (headDesc q q.lastQueuedIdx)).1 ++ [d]) := by
  have hlast : nextDesc q d = none := by
    by_contra hsome
    exact hnext ((hasNext_iff d).mpr hsome)
  exact (Links.chain_iff_of_follow hrest).mpr ⟨[d], rfl, .last hlast⟩

/-- **A virtio request carries its whole descriptor chain** exactly if the chain does not have
`VIRTIO_REQ_MAX_BUFS + 1` descriptors. -/
theorem carries_chain_iff (q : VirtioQueue) (h : q.PowerOfTwo) (hmerge : q.maxMergeLen = 0)
    (hfilled : q.Filled) :
    CarriesChain q ↔ ¬ ∃ ds, RequestChain q ds ∧ ds.length = VIRTIO_REQ_MAX_BUFS + 1 := by
  have heq := virtioProcessOne_eq h hmerge hfilled
  have hbounded : ∀ req rest, gather q VIRTIO_REQ_MAX_BUFS ⟨q.lastQueuedIdx, [], 0⟩
      (vringDescAtAvailIdx q q.lastQueuedIdx) q.lastQueuedIdx = .ok (req, rest) →
      req.bufs.length ≤ VIRTIO_REQ_MAX_BUFS := by
    rw [vringDescAtAvailIdx_eq h]
    intro req rest
    exact gather_length_le h hmerge hfilled (inTable_headDesc h _)
  have hlen := Links.follow_length_le (nextDesc q) VIRTIO_REQ_MAX_BUFS (headDesc q q.lastQueuedIdx)
  cases hrest : (Links.follow (nextDesc q) VIRTIO_REQ_MAX_BUFS (headDesc q q.lastQueuedIdx)).2 with
  | none =>
    -- the chain ends in time
    have hchain : RequestChain q _ := Links.chain_of_follow hrest
    rw [hrest, Option.any_none, if_neg (by decide)] at heq
    refine iff_of_true ⟨hbounded, ?_, fun _ _ _ => ⟨_, heq⟩, ?_⟩ ?_
    · intro req hreq
      rw [heq, Except.ok.injEq] at hreq
      exact ⟨_, hchain, by rw [← hreq]; rfl⟩
    · intro hnone
      exact absurd ⟨_, hchain, hlen⟩ hnone
    · rintro ⟨ds, hds, hlong⟩
      rw [hchain.unique hds] at hlen
      omega
  | some d =>
    rw [hrest, Option.any_some] at heq
    by_cases hnext : d.hasNext = true
    · -- it is longer by two at least, or runs in a circle
      rw [if_pos hnext] at heq
      refine iff_of_true ⟨hbounded, ?_, ?_, fun _ => ⟨_, heq⟩⟩ ?_
      · intro req hreq
        rw [heq] at hreq
        cases hreq
      · intro ds hds hshort
        have hlong := hds.length_gt hrest hnext
        omega
      · rintro ⟨ds, hds, hone⟩
        have hlong := hds.length_gt hrest hnext
        omega
    · -- it is longer by one, and the last buffer is missing
      rw [if_neg hnext] at heq
      have hchain := requestChain_concat hrest hnext
      have hcut := Links.length_follow hrest
      refine iff_of_false ?_ (not_not.mpr ⟨_, hchain, by simp [hcut]⟩)
      intro hcarries
      obtain ⟨ds, hds, hbufs⟩ := hcarries.whole _ heq
      rw [← hchain.unique hds] at hbufs
      have := congrArg List.length hbufs
      simp [VirtioReq.addAll] at this

def chainQueue (n : Nat) : VirtioQueue where
  num := 32
  ready := true
  maxMergeLen := 0
  desc := fun i => ⟨1, 1, if i + 1 < n then 1 else 0, BitVec.ofNat 16 (i + 1)⟩
  availRing := fun _ => 0
  availIdx := 1
  lastQueuedIdx := 0

theorem chainQueue_powerOfTwo (n : Nat) : (chainQueue n).PowerOfTwo := ⟨5, by decide, rfl⟩

theorem chainQueue_filled (n : Nat) : (chainQueue n).Filled := by
  intro i _
  show (1 : BitVec 64) ≠ 0 ∧ (1 : BitVec 32) ≠ 0
  decide

/-- A chain of 19 descriptors is carried. -/
theorem carries_chain_iff_full : CarriesChain (chainQueue 19) := by
  refine (carries_chain_iff _ (chainQueue_powerOfTwo 19) rfl (chainQueue_filled 19)).mpr ?_
  have hchain : RequestChain (chainQueue 19) _ :=
    @Links.chain_of_follow _ (nextDesc (chainQueue 19)) _ 19 (by decide +kernel)
  rintro ⟨ds, hds, hlong⟩
  rw [← hchain.unique hds] at hlong
  exact absurd hlong (by decide +kernel)

/-- Of a chain of 20 descriptors, 19 buffers are handed to the device. -/
theorem last_buffer_missing :
    (∃ req, virtioProcessOne (chainQueue 20) = .ok req ∧ req.bufs.length = 19)
      ∧ (∃ ds, RequestChain (chainQueue 20) ds ∧ ds.length = 20)
      ∧ ¬ CarriesChain (chainQueue 20) := by
  have hone : ((virtioProcessOne (chainQueue 20)).map fun req => req.bufs.length) = .ok 19 := by
    decide +kernel
  have hchain : RequestChain (chainQueue 20) _ :=
    @Links.chain_of_follow _ (nextDesc (chainQueue 20)) _ 20 (by decide +kernel)
  have hlen : (Links.follow (nextDesc (chainQueue 20)) 20
      (headDesc (chainQueue 20) (chainQueue 20).lastQueuedIdx)).1.length = 20 := by decide +kernel
  cases hreq : virtioProcessOne (chainQueue 20) with
  | error e =>
    rw [hreq] at hone
    cases hone
  | ok req =>
    rw [hreq] at hone
    have hbufs : req.bufs.length = 19 := Except.ok.inj hone
    refine ⟨⟨req, rfl, hbufs⟩, ⟨_, hchain, hlen⟩, fun hcarries => ?_⟩
    obtain ⟨ds, hds, heq⟩ := hcarries.whole req hreq
    rw [← hchain.unique hds] at heq
    rw [heq, List.length_map, hlen] at hbufs
    cases hbufs

end RktIo.Lkl.Virtio
