import RktIo.Host.Arena

/-!
# Emulated CPUID (`sgx/sgx_enclave_config.c`)

`CPUID` is not allowed in an enclave. The exception handler calls `ecall_cpuid`, which puts the leaf
and the sub-leaf into a request of four words and calls `ocall_cpuid`; that one leaves the enclave
with a copy of the request in the arena, where the host finds it and puts its answer.

Both copies of `ocall_cpuid`, into the arena and back, are under the condition `!req`, that there is
no memory. So the host works on what happens to be in the arena, and the request comes back as it
was (`ecallCpuid_eq`): the leaf, two words that were never written, and the sub-leaf.
-/

namespace RktIo.Sgx

open SharedMem Host

structure CpuidRequest where
  eax : BitVec 32
  ebx : BitVec 32
  ecx : BitVec 32
  edx : BitVec 32
  deriving Repr, DecidableEq

structure Gprsgx where
  rax : BitVec 64
  rbx : BitVec 64
  rcx : BitVec 64
  rdx : BitVec 64
  rip : BitVec 64
  deriving Repr, DecidableEq

abbrev CpuidInstr := BitVec 32 → BitVec 32 → CpuidRequest

/-! ## The host -/

def loadUint (m : SharedMem.Memory) (a : BitVec 64) : BitVec 32 :=
  BitVec.ofNat 32 (Bytes.load (fun i => m (a + BitVec.ofNat 64 i)) 0 4)

def uintBytes (v : BitVec 32) : List (BitVec 8) := (List.range 4).map (Bytes.byte v.toNat)

def CpuidRequest.bytes (r : CpuidRequest) : List (BitVec 8) :=
  uintBytes r.eax ++ uintBytes r.ebx ++ uintBytes r.ecx ++ uintBytes r.edx

def doCpuid (cpuid : CpuidInstr) (m : SharedMem.Memory) (reg : BitVec 64) : SharedMem.Memory :=
  write m (cells reg (cpuid (loadUint m reg) (loadUint m (reg + 8#64))).bytes)

/-! ## The enclave -/

def ocallCpuid (cpuid : CpuidInstr) (a : Arena) (m : SharedMem.Memory) (request : CpuidRequest) :
    Option (CpuidRequest × Arena × SharedMem.Memory) :=
  let (req, a) := arenaAlloc a 16#64
  -- `if (!req)`: what follows are stores to a null pointer
  if req = 0#64 then none
  else
    let m := doCpuid cpuid m req
    -- `if (!req)` again
    some (request, arenaFree a, m)

def tscMask : BitVec 64 := ~~~16#64

def ecallCpuid (cpuid : CpuidInstr) (x86Capabilities : Nat → BitVec 32) (a : Arena)
    (m : SharedMem.Memory) (stack : CpuidRequest) (regs : Gprsgx) :
    Option (Gprsgx × Arena × SharedMem.Memory) := do
  let request := { stack with eax := regs.rax.setWidth 32, ecx := regs.rcx.setWidth 32 }
  let clearTsc := request.eax = 1#32
  let (regs, a, m) ←
    if request.eax = 7#32 ∧ request.ecx = 0#32 then
      some ({ regs with
        rax := 0#64
        rbx := (x86Capabilities 9).setWidth 64
        rcx := (x86Capabilities 16).setWidth 64
        rdx := (x86Capabilities 18).setWidth 64 }, a, m)
    else do
      let (request, a, m) ← ocallCpuid cpuid a m request
      pure ({ regs with
        rax := request.eax.setWidth 64
        rbx := request.ebx.setWidth 64
        rcx := request.ecx.setWidth 64
        rdx := request.edx.setWidth 64 }, a, m)
  let regs := if clearTsc then { regs with rdx := regs.rdx &&& tscMask } else regs
  return ({ regs with rip := regs.rip + 2#64 }, a, m)

/-! ## What it returns -/

structure HasRoom (a : Arena) : Prop where
  mem_ne : a.mem ≠ 0#64
  bounds : a.mem.toNat + a.size.toNat ≤ 2 ^ 64
  room : a.allocated.toNat + 16 ≤ a.size.toNat

variable {a : Arena} {cpuid : CpuidInstr} {caps : Nat → BitVec 32} {m : SharedMem.Memory}
  {stack : CpuidRequest} {regs : Gprsgx}

theorem HasRoom.arenaAlloc_ne (h : HasRoom a) : (arenaAlloc a 16#64).1 ≠ 0#64 := by
  obtain ⟨hmem, hbounds, hroom⟩ := h
  intro hzero
  have hsum : (a.mem + a.allocated).toNat = 0 := congrArg BitVec.toNat hzero
  rw [BitVec.toNat_add, Nat.mod_eq_of_lt (by omega)] at hsum
  exact hmem (BitVec.eq_of_toNat_eq (by simp; omega))

def answerRdx (leaf edx : BitVec 32) : BitVec 64 :=
  if leaf = 1#32 then edx.setWidth 64 &&& tscMask else edx.setWidth 64

def answered (regs : Gprsgx) (leaf : BitVec 32) (answer : CpuidRequest) : Gprsgx where
  rax := answer.eax.setWidth 64
  rbx := answer.ebx.setWidth 64
  rcx := answer.ecx.setWidth 64
  rdx := answerRdx leaf answer.edx
  rip := regs.rip + 2#64

theorem ocallCpuid_eq (hroom : HasRoom a) (request : CpuidRequest) :
    ocallCpuid cpuid a m request
      = some (request, arenaFree (arenaAlloc a 16#64).2,
        doCpuid cpuid m (arenaAlloc a 16#64).1) :=
  if_neg hroom.arenaAlloc_ne

theorem ecallCpuid_eq (cpuid : CpuidInstr) (caps : Nat → BitVec 32) (m : SharedMem.Memory)
    (stack : CpuidRequest) (hroom : HasRoom a)
    (hleaf : ¬ (regs.rax.setWidth 32 = 7#32 ∧ regs.rcx.setWidth 32 = 0#32)) :
    ∃ a' m', ecallCpuid cpuid caps a m stack regs
      = some (answered regs (regs.rax.setWidth 32)
        { stack with eax := regs.rax.setWidth 32, ecx := regs.rcx.setWidth 32 }, a', m') := by
  refine ⟨arenaFree (arenaAlloc a 16#64).2, doCpuid cpuid m (arenaAlloc a 16#64).1, ?_⟩
  unfold ecallCpuid
  simp only [if_neg hleaf, ocallCpuid_eq hroom]
  by_cases hone : regs.rax.setWidth 32 = 1#32
  · simp [answered, answerRdx, hone]
  · simp [answered, answerRdx, hone]

def EmulatesCpuid (cpuid : CpuidInstr) (caps : Nat → BitVec 32) (a : Arena) (m : SharedMem.Memory)
    (stack : CpuidRequest) (regs : Gprsgx) : Prop :=
  ∃ a' m', ecallCpuid cpuid caps a m stack regs
    = some (answered regs (regs.rax.setWidth 32)
      (cpuid (regs.rax.setWidth 32) (regs.rcx.setWidth 32)), a', m')

theorem setWidth_inj {v v' : BitVec 32} : v.setWidth 64 = v'.setWidth 64 ↔ v = v' := by
  constructor
  · intro h
    have hnat := congrArg BitVec.toNat h
    simp only [BitVec.toNat_setWidth] at hnat
    exact BitVec.eq_of_toNat_eq (by omega)
  · rintro rfl
    rfl

/-- **Emulated CPUID returns the host's answer** exactly if this is the request itself: the leaf and
the sub-leaf, and between and behind them the words that were on the stack, up to bit 4 of the last
one for leaf 1. -/
theorem emulates_cpuid_iff (cpuid : CpuidInstr) (caps : Nat → BitVec 32) (a : Arena)
    (m : SharedMem.Memory)
    (stack : CpuidRequest) (regs : Gprsgx) (hroom : HasRoom a)
    (hleaf : ¬ (regs.rax.setWidth 32 = 7#32 ∧ regs.rcx.setWidth 32 = 0#32)) :
    EmulatesCpuid cpuid caps a m stack regs
      ↔ (cpuid (regs.rax.setWidth 32) (regs.rcx.setWidth 32)).eax = regs.rax.setWidth 32
        ∧ (cpuid (regs.rax.setWidth 32) (regs.rcx.setWidth 32)).ebx = stack.ebx
        ∧ (cpuid (regs.rax.setWidth 32) (regs.rcx.setWidth 32)).ecx = regs.rcx.setWidth 32
        ∧ answerRdx (regs.rax.setWidth 32)
            (cpuid (regs.rax.setWidth 32) (regs.rcx.setWidth 32)).edx
          = answerRdx (regs.rax.setWidth 32) stack.edx := by
  obtain ⟨a', m', hcall⟩ := ecallCpuid_eq cpuid caps m stack hroom hleaf
  unfold EmulatesCpuid
  rw [hcall]
  generalize cpuid (regs.rax.setWidth 32) (regs.rcx.setWidth 32) = answer
  simp only [Option.some.injEq, Prod.mk.injEq, answered, Gprsgx.mk.injEq, setWidth_inj, and_true]
  constructor
  · rintro ⟨_, _, ⟨heax, hebx, hecx, hedx⟩, -⟩
    exact ⟨heax.symm, hebx.symm, hecx.symm, hedx.symm⟩
  · rintro ⟨heax, hebx, hecx, hedx⟩
    exact ⟨a', m', ⟨heax.symm, hebx.symm, hecx.symm, hedx.symm⟩, rfl, rfl⟩

def pageArena : Arena := ⟨4096#64, 4096#64, 0#64⟩

theorem pageArena_hasRoom : HasRoom pageArena := ⟨by decide, by decide, by decide⟩

/-- A host that answers with the request, and words on the stack that were 0. -/
theorem emulates_cpuid_iff_echo :
    EmulatesCpuid (fun leaf sub => ⟨leaf, 0#32, sub, 0#32⟩) (fun _ => 0#32) pageArena (fun _ => 0#8)
      ⟨0#32, 0#32, 0#32, 0#32⟩ ⟨2#64, 0#64, 3#64, 0#64, 100#64⟩ :=
  (emulates_cpuid_iff _ _ _ _ _ _ pageArena_hasRoom (by decide)).mpr ⟨rfl, rfl, rfl, rfl⟩

/-- Leaf 0 of a processor that names itself in `ebx`, `edx` and `ecx`: the registers hold the
request and what was on the stack. -/
theorem answer_not_copied :
    (∃ a' m', ecallCpuid (fun _ _ => ⟨22#32, 0x756e6547#32, 0x6c65746e#32, 0x49656e69#32⟩)
        (fun _ => 0#32) pageArena (fun _ => 0#8) ⟨0#32, 0#32, 0#32, 0#32⟩
        ⟨0#64, 0#64, 0#64, 0#64, 100#64⟩ = some (⟨0#64, 0#64, 0#64, 0#64, 102#64⟩, a', m'))
      ∧ ¬ EmulatesCpuid (fun _ _ => ⟨22#32, 0x756e6547#32, 0x6c65746e#32, 0x49656e69#32⟩)
        (fun _ => 0#32) pageArena (fun _ => 0#8) ⟨0#32, 0#32, 0#32, 0#32⟩
        ⟨0#64, 0#64, 0#64, 0#64, 100#64⟩ := by
  obtain ⟨a₁, m₁, hcall⟩ := @ecallCpuid_eq pageArena ⟨0#64, 0#64, 0#64, 0#64, 100#64⟩
    (fun _ _ => ⟨22#32, 0x756e6547#32, 0x6c65746e#32, 0x49656e69#32⟩) (fun _ => 0#32) (fun _ => 0#8)
    ⟨0#32, 0#32, 0#32, 0#32⟩ pageArena_hasRoom (by decide)
  refine ⟨⟨a₁, m₁, hcall⟩, ?_⟩
  rintro ⟨a', m', hanswer⟩
  rw [hcall] at hanswer
  have hregs := (Prod.mk.inj (Option.some.inj hanswer)).1
  exact absurd (congrArg Gprsgx.rax hregs) (by decide)

end RktIo.Sgx
