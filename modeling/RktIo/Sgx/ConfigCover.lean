import RktIo.Queue.Mpmc
import RktIo.Sgx.ConfigCheck

/-!
# What the enclave accesses behind the configuration check

The host-call code writes the slots `S[i]` of the syscall page, `mpmc_enqueue` writes the cells of
the buffer that the queue at `syscallq` refers to, and the check itself reads the entries of
`wg.peers`. How far these reach is decided by counts and pointers that the host supplies as well.
With a range test that has no flaw, the check covers the first page of slots only.
-/

namespace RktIo.Sgx

/-! ## A range test without a flaw -/

instance (r : Range) (p : EnclaveParms) : Decidable (r.Outside p) :=
  decidable_of_iff' _ Range.outside_iff

theorem Range.Outside.mono {r : Range} {p : EnclaveParms} {k m : Nat} (h : r.Outside p)
    (hle : k + m ≤ r.len) : (⟨r.start + BitVec.ofNat 64 k, m⟩ : Range).Outside p :=
  fun x hx => h x (hx.add hle)

/-! ## The accesses -/

def syscallSize : Nat := 64

def EnclaveConfig.slot (c : EnclaveConfig) (i : Nat) : Range :=
  ⟨c.syscallpage + BitVec.ofNat 64 (syscallSize * i), syscallSize⟩

/-- `q->buffer[pos & q->buffer_mask]` for the queue at `syscallq`, in a memory in which the host
may have changed the queue since the check. -/
def EnclaveConfig.cell (c : EnclaveConfig) (mem : Memory) (pos : Word) : Range :=
  ⟨mem.load64 (c.syscallq + 128) + Queue.cellSize * (pos &&& mem.load64 (c.syscallq + 136)),
    Queue.cellSize.toNat⟩

def EnclaveConfig.peer (c : EnclaveConfig) (i : Nat) : Range := ⟨peerAddr c.peers i, peerSize⟩

structure EnclaveConfig.Covered (c : EnclaveConfig) (p : EnclaveParms) (later : Memory) : Prop where
  slots : ∀ i < c.maxsyscalls.toNat, (c.slot i).Outside p
  cells : ∀ pos, (c.cell later pos).Outside p
  peers : ∀ i < c.numPeers.toNat, (c.peer i).Outside p

end RktIo.Sgx
