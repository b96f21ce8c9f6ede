import RktIo.Sgx.EnclaveSize

/-!
# What is signed is what is loaded (`sgx/sgx.c`)

The signing tool writes the parameters into `.tdata`, measures the pages, and writes the
signature. The loader reads the parameters back and adds the pages. Both see the same pages: the
signature stands outside of what is loaded, and neither it nor the parameters move the mark that
the parameters are found by.
-/

namespace RktIo.Sgx

open Bytes List

/-! ## Libraries that can be signed -/

/-- The library has its parameters at word `i` of `.tdata` and room for the signature in
`.note.sigstruct`, and the segments, the thread local storage and the entry are there. -/
structure ElfImage.WellFormed (img : ElfImage) (tdata sig : Shdr) (i : Nat) : Prop where
  tdata_eq : img.tdata = some tdata
  sig_eq : img.noteSigstruct = some sig
  tdata_offset : 0 < tdata.offset.toNat ∧ tdata.offset.toNat < 2 ^ 31
  sig_offset : 0 < sig.offset.toNat ∧ sig.offset.toNat < 2 ^ 31
  mark : load img.file (tdata.offset.toNat + 8 * i) 8 = parmsMagic
  first : ∀ j < i, load img.file (tdata.offset.toNat + 8 * j) 8 ≠ parmsMagic
  parms_in_tdata : 8 * i + enclaveParmsSize ≤ tdata.size.toNat
  parms_in_tls : 8 * i + enclaveParmsSize ≤ (getTlsInfo img).filesz
  parms_in_page : schedTcbBaseSize + 8 * i + enclaveParmsWritten ≤ pageSize
  tdata_in_file : tdata.offset.toNat + tdata.size.toNat ≤ img.size
  sig_room : sigstructSize ≤ sig.size.toNat
  apart : tdata.offset.toNat + tdata.size.toNat ≤ sig.offset.toNat ∨
    sig.offset.toNat + sig.size.toNat ≤ tdata.offset.toNat
  entry : img.entry.isSome
  fits : ∀ h ∈ img.loads, h.Fits

def ElfImage.SigOutside (img : ElfImage) (sig : Shdr) : Prop :=
  ∀ h ∈ img.loads, ∀ x, sig.offset.toNat ≤ x → x < sig.offset.toNat + sig.size.toNat →
    ¬ (h.offset.toNat ≤ x ∧ x < h.offset.toNat + h.filesz.toNat)

variable {file : Nat → BitVec 8}

theorem findMagic_eq_some {off i n : Nat} (hi : i < n)
    (hmark : load file (off + 8 * i) 8 = parmsMagic)
    (hfirst : ∀ j < i, load file (off + 8 * j) 8 ≠ parmsMagic) : findMagic file off n = some i := by
  rw [findMagic, find?_range_eq_some]
  refine ⟨?_, ?_, ?_⟩
  · simpa using hmark
  · simpa using hi
  · intro j hj
    simpa using hfirst j hj

section WellFormed

variable {img : ElfImage} {tdata sig : Shdr} {i : Nat}

def parmsAt (tdata : Shdr) (i : Nat) : Nat := tdata.offset.toNat + 8 * i

namespace ElfImage.WellFormed

variable (hwf : img.WellFormed tdata sig i)

include hwf

theorem findMagic_eq {n : Nat} (hi : i < n) : findMagic img.file tdata.offset.toNat n = some i :=
  findMagic_eq_some hi hwf.mark hwf.first

theorem lt_tls : i < (getTlsInfo img).filesz / 8 := by
  have htls := hwf.parms_in_tls
  unfold enclaveParmsSize at htls
  omega

theorem getEnclaveParms_eq : getEnclaveParms img = some (parmsAt tdata i) := by
  have hsize := hwf.parms_in_tdata
  have hfile := hwf.tdata_in_file
  rw [getEnclaveParms, hwf.tdata_eq]
  simp only [Option.bind_eq_bind, Option.bind_some]
  rw [hwf.findMagic_eq (by unfold enclaveParmsSize at hsize; omega)]
  rfl

theorem of_eq (hfile : ∀ x, tdata.offset.toNat ≤ x → x < parmsAt tdata i + 8 → file x = img.file x) :
    ({ img with file := file } : ElfImage).WellFormed tdata sig i := by
  have hload : ∀ j ≤ i, load file (tdata.offset.toNat + 8 * j) 8 =
      load img.file (tdata.offset.toNat + 8 * j) 8 := by
    intro j hj
    refine load_congr fun x hlow hhigh => hfile x (by omega) ?_
    unfold parmsAt
    omega
  exact { hwf with
    mark := (hload i (Nat.le_refl i)).trans hwf.mark
    first := fun j hj => by
      rw [hload j hj.le]
      exact hwf.first j hj }

end ElfImage.WellFormed

end WellFormed

/-! ## What the pages depend on -/

theorem mem_of_mem_carried {x : Phdr × Word} {prot : Word} {hs : List Phdr}
    (hx : x ∈ carried prot hs) : x.1 ∈ hs := by
  induction hs generalizing prot with
  | nil => cases hx
  | cons h hs ih =>
    rcases mem_cons.mp hx with rfl | hx
    · exact mem_cons_self
    · exact mem_cons_of_mem h (ih hx)

def Phdr.SameBytes (f g : Nat → BitVec 8) (h : Phdr) : Prop :=
  ∀ x, h.offset.toNat ≤ x → x < h.offset.toNat + h.filesz.toNat → f x = g x

theorem Phdr.SameBytes.calls {f g : Nat → BitVec 8} {h : Phdr} (hsame : h.SameBytes f g)
    (libbase : Nat) (prot : Word) : h.calls f libbase prot = h.calls g libbase prot := by
  refine map_congr_left fun k _ => ?_
  have hpage : h.pageAt f (h.firstPage + k) = h.pageAt g (h.firstPage + k) := by
    funext j
    show h.content f _ = h.content g _
    unfold Phdr.content
    split
    case isTrue hin => exact hsame _ (by omega) (by omega)
    case isFalse => rfl
  rw [Phdr.call, Phdr.call, hpage]

theorem segmentLoop_congr {f g : Nat → BitVec 8} {phdrs : List Phdr}
    (hsame : ∀ h ∈ loadSegments phdrs, h.SameBytes f g) (libbase : Nat) (prot : Word)
    (pageoffset : Nat) :
    segmentLoop f libbase phdrs prot pageoffset = segmentLoop g libbase phdrs prot pageoffset := by
  rw [segmentLoop_eq, segmentLoop_eq]
  have hmap : (carried prot (loadSegments phdrs)).map (fun x => (x.1, x.1.calls f libbase x.2)) =
      (carried prot (loadSegments phdrs)).map (fun x => (x.1, x.1.calls g libbase x.2)) :=
    map_congr_left fun x hx => by
      rw [(hsame x.1 (mem_of_mem_carried hx)).calls libbase x.2]
  rw [hmap]

section Pages

variable {img : ElfImage} {tdata sig : Shdr} {i : Nat}

theorem processPages_congr (hwf : img.WellFormed tdata sig i)
    (hwf' : ({ img with file := file } : ElfImage).WellFormed tdata sig i)
    (hsame : ∀ h ∈ img.loads, h.SameBytes file img.file) (heap stack : Nat) (tcsp : Int)
    (nssa : Nat) (mapHeapFirst : Bool) :
    processPages { img with file := file } heap stack tcsp nssa mapHeapFirst =
      processPages img heap stack tcsp nssa mapHeapFirst := by
  have hmark : findMagic file tdata.offset.toNat ((getTlsInfo img).filesz / 8) =
      findMagic img.file tdata.offset.toNat ((getTlsInfo img).filesz / 8) := by
    rw [hwf.findMagic_eq hwf.lt_tls]
    exact hwf'.findMagic_eq hwf.lt_tls
  have htls : getTlsInfo { img with file := file } = getTlsInfo img := rfl
  have hentry : threadEntry { img with file := file } tcsp = threadEntry img tcsp := rfl
  have hparms : ∀ codeEnd i entry,
      threadParms { img with file := file } heap stack tcsp nssa mapHeapFirst codeEnd i entry =
        threadParms img heap stack tcsp nssa mapHeapFirst codeEnd i entry := fun _ _ _ => rfl
  unfold processPages
  simp only [segmentLoop_congr hsame, htls, hentry, hparms]
  simp only [hwf.tdata_eq, Option.bind_eq_bind, Option.bind_some, hmark]

theorem ElfImage.WellFormed.processPages_isSome (hwf : img.WellFormed tdata sig i)
    (heap stack : Nat) (tcsp : Int) (nssa : Nat) (mapHeapFirst : Bool) :
    ∃ run, processPages img heap stack tcsp nssa mapHeapFirst = some run := by
  have hloop := (segmentLoop_eq img.file (libBase heap mapHeapFirst) img.phdrs 0
    (libBase heap mapHeapFirst)).trans (if_pos hwf.fits)
  obtain ⟨entry, hentry⟩ : ∃ entry, threadEntry img tcsp = some entry := by
    obtain ⟨value, hvalue⟩ := Option.isSome_iff_exists.mp hwf.entry
    unfold threadEntry
    split
    · exact ⟨0, rfl⟩
    · exact ⟨_, congrArg _ hvalue⟩
  have hguard : (guard (tcsp ≤ 0 ∨ schedTcbBaseSize + 8 * i + enclaveParmsWritten ≤ pageSize) :
      Option Unit) = some () := (Option.guard_eq_some' _).mpr (.inr hwf.parms_in_page)
  unfold processPages
  simp only [hloop, hwf.tdata_eq, hwf.findMagic_eq hwf.lt_tls, hguard, hentry, Option.bind_eq_bind,
    Option.bind_some]
  exact ⟨_, rfl⟩

end Pages

/-! ## The parameters in the library -/

structure ElfImage.HasParms (img : ElfImage) (enc heap stack : Nat) (tcsp : Int) : Prop where
  tcsn : load img.file (enc + parmsTcsn) 8 = toSize tcsp
  heapSize : load img.file (enc + parmsHeapSize) 8 = heap * pageSize
  stackSize : load img.file (enc + parmsStackSize) 8 = stack * pageSize

section Parms

variable (f : Nat → BitVec 8) (enc heap stack ossa tcsn heapSize stackSize : Nat)

theorem parmsFields_of_notMem {x : Nat} (hx : x < enc + 8 ∨ enc + 80 ≤ x) :
    storeFields f (parmsFields enc heap stack ossa tcsn heapSize stackSize) x = f x := by
  refine storeFields_of_notMem ?_ f
  simp only [parmsFields, mem_cons, not_mem_nil, or_false, forall_eq_or_imp, forall_eq,
    Field.Covers, parmsHeap, parmsStack, parmsOssa, parmsTcsn, parmsHeapSize, parmsStackSize]
  omega

theorem parmsFields_apart :
    (parmsFields enc heap stack ossa tcsn heapSize stackSize).Pairwise Field.Apart := by
  simp only [parmsFields, pairwise_cons, mem_cons, not_mem_nil, or_false,
    forall_eq_or_imp, forall_eq, Field.Apart, parmsHeap, parmsStack, parmsOssa, parmsTcsn,
    parmsHeapSize, parmsStackSize, false_imp_iff, implies_true, List.Pairwise.nil, and_true]
  omega

theorem load_parmsFields :
    load (storeFields f (parmsFields enc heap stack ossa tcsn heapSize stackSize))
        (enc + parmsTcsn) 8 = tcsn % 256 ^ 8 ∧
    load (storeFields f (parmsFields enc heap stack ossa tcsn heapSize stackSize))
        (enc + parmsHeapSize) 8 = heapSize % 256 ^ 8 ∧
    load (storeFields f (parmsFields enc heap stack ossa tcsn heapSize stackSize))
        (enc + parmsStackSize) 8 = stackSize % 256 ^ 8 := by
  have hload := fun g hg => load_storeFields (f := g)
    (parmsFields_apart enc heap stack ossa tcsn heapSize stackSize) hg f
  exact ⟨hload (enc + parmsTcsn, 8, tcsn) (by simp [parmsFields]),
    hload (enc + parmsHeapSize, 8, heapSize) (by simp [parmsFields]),
    hload (enc + parmsStackSize, 8, stackSize) (by simp [parmsFields])⟩

end Parms

/-! ## Loading -/

/-- What is added, as it is measured: the offset, type and permissions, whether the measurement
is extended, and the bytes -/
def AddPage.measured (base : Nat) (p : AddPage) : Measured :=
  ⟨toSize (p.addr - base), p.secinfo, p.mrmask ≠ 0, p.src⟩

theorem addPage_measured {c : PageCall} (hlt : c.offset < 2 ^ 64) (base : Nat) :
    (addPage base c).measured base = measurePage c := by
  have hoff : toSize (toSize (base + c.offset) - base) = c.offset := by
    unfold toSize
    omega
  unfold AddPage.measured addPage measurePage
  simp only [hoff, Measured.mk.injEq, true_and, and_true]
  split <;> simp_all

def Signed.LoadsAsMeasured (s : Signed) (mapHeapFirst : Bool) : Prop :=
  ∀ ubase, (createEnclaveMem s.image ubase none mapHeapFirst).isSome ∧
    ∀ baseZeroMax, ∀ l ∈ createEnclaveMem s.image ubase baseZeroMax mapHeapFirst,
      l.size = s.size ∧ l.pages.map (AddPage.measured ubase) = s.measured

theorem toInt32_toSize {x : Int} (hlow : -2 ^ 31 ≤ x) (hhigh : x < 2 ^ 31) :
    toInt32 (toSize x) = x := by
  rw [toSize_cast, toInt32_eq]
  split <;> omega

variable {size : Nat}

section SignLoad

variable {img : ElfImage} {tdata sig : Shdr} {i heap stack : Nat} {tcsp : Int}
  {mapHeapFirst : Bool}

theorem createEnclaveMem_eq (hwf : img.WellFormed tdata sig i)
    (hparms : img.HasParms (parmsAt tdata i) heap stack tcsp) (hlow : -2 ^ 31 ≤ tcsp)
    (hhigh : tcsp < 2 ^ 31) {run : Run}
    (hrun : processPages img heap stack tcsp 2 mapHeapFirst = some run) (ubase : Nat)
    (baseZeroMax : Option Nat)
    (hsize : size = getEnclaveSize heap stack tcsp 1 2 (getLoadableSize img) 1) :
    createEnclaveMem img ubase baseZeroMax mapHeapFirst =
      if ∀ m ∈ baseZeroMax, toSize (size * pageSize) ≤ m then
        some ⟨getNextPower2 (toSize (size * pageSize)), run.calls.map (addPage ubase)⟩
      else none := by
  have hpage : 0 < pageSize := by decide
  subst hsize
  unfold createEnclaveMem
  simp only [hwf.sig_eq, hwf.getEnclaveParms_eq, hparms.tcsn, hparms.heapSize, hparms.stackSize,
    toInt32_toSize hlow hhigh, Nat.mul_div_cancel _ hpage, hrun, Option.bind_eq_bind,
    Option.bind_some, guard]
  split <;> rfl

section

variable (hwf : img.WellFormed tdata sig i) (hout : img.SigOutside sig)
  (hparms : img.HasParms (parmsAt tdata i) heap stack tcsp)

include hwf hout hparms

theorem putSigstruct_spec (sigstruct : Nat → BitVec 8) :
    (img.putSigstruct sig.offset.toNat sigstruct).WellFormed tdata sig i ∧
    (img.putSigstruct sig.offset.toNat sigstruct).HasParms (parmsAt tdata i) heap stack tcsp ∧
    ∀ heap stack tcsp nssa mapHeapFirst,
      processPages (img.putSigstruct sig.offset.toNat sigstruct) heap stack tcsp nssa mapHeapFirst =
        processPages img heap stack tcsp nssa mapHeapFirst := by
  have hroom := hwf.sig_room
  have hapart := hwf.apart
  have hin := hwf.parms_in_tdata
  -- the sections do not overlap
  have hfile : ∀ x, tdata.offset.toNat ≤ x → x < parmsAt tdata i + 80 →
      (img.putSigstruct sig.offset.toNat sigstruct).file x = img.file x := by
    intro x hlow hhigh
    refine if_neg ?_
    unfold parmsAt at hhigh
    unfold enclaveParmsSize at hin
    omega
  have hload : ∀ k, k + 8 ≤ 80 →
      load (img.putSigstruct sig.offset.toNat sigstruct).file (parmsAt tdata i + k) 8 =
        load img.file (parmsAt tdata i + k) 8 := by
    intro k hk
    refine load_congr fun x hlow hhigh => hfile x ?_ ?_ <;> unfold parmsAt at * <;> omega
  have hwf' : (img.putSigstruct sig.offset.toNat sigstruct).WellFormed tdata sig i :=
    hwf.of_eq fun x hlow hhigh => hfile x hlow (by omega)
  have hsame : ∀ h ∈ img.loads,
      h.SameBytes (img.putSigstruct sig.offset.toNat sigstruct).file img.file := by
    intro h hh x hlow hhigh
    refine if_neg fun hsig => hout h hh x hsig.1 (by omega) ⟨hlow, hhigh⟩
  refine ⟨hwf', ⟨?_, ?_, ?_⟩, processPages_congr hwf hwf' hsame⟩
  · exact (hload parmsTcsn (by decide)).trans hparms.tcsn
  · exact (hload parmsHeapSize (by decide)).trans hparms.heapSize
  · exact (hload parmsStackSize (by decide)).trans hparms.stackSize

theorem loadsAsMeasured_of_hasParms (hlow : -2 ^ 31 ≤ tcsp) (hhigh : tcsp < 2 ^ 31) {run : Run}
    (hrun : processPages img heap stack tcsp 2 mapHeapFirst = some run)
    (sigstruct : Nat → BitVec 8)
    (hsize : size = getEnclaveSize heap stack tcsp 1 2 (getLoadableSize img) 1) :
    Signed.LoadsAsMeasured
      ⟨img.putSigstruct sig.offset.toNat sigstruct, getNextPower2 (toSize (size * pageSize)),
        run.calls.map measurePage⟩ mapHeapFirst := by
  obtain ⟨hwf', hparms', hpages⟩ := putSigstruct_spec hwf hout hparms sigstruct
  have hload := fun ubase baseZeroMax => createEnclaveMem_eq hwf' hparms' hlow hhigh
    ((hpages heap stack tcsp 2 mapHeapFirst).trans hrun) ubase baseZeroMax hsize
  have hmeasured : ∀ ubase, (run.calls.map (addPage ubase)).map (AddPage.measured ubase) =
      run.calls.map measurePage := by
    intro ubase
    rw [map_map]
    exact map_congr_left fun c hc => addPage_measured (processPages_offset_lt hrun c hc) ubase
  intro ubase
  refine ⟨?_, fun baseZeroMax l hl => ?_⟩
  · rw [hload, if_pos (by simp)]
    rfl
  · rw [hload] at hl
    split at hl
    case isTrue =>
      cases hl
      exact ⟨rfl, hmeasured ubase⟩
    case isFalse => cases hl

end

/-! ## Signing -/

theorem Shdr.intOffset_eq {s : Shdr} (hpos : 0 < s.offset.toNat) (hlt : s.offset.toNat < 2 ^ 31) :
    s.intOffset = some s.offset.toNat := by
  rw [Shdr.intOffset, toInt32_of_lt hlt, if_pos (by omega), Int.toNat_natCast]

theorem toInt32_getLoadableSize (img : ElfImage) :
    toInt32 (toSize (getLoadableSize img)) = getLoadableSize img := by
  obtain ⟨maxAddr, hmax⟩ : ∃ maxAddr, getLoadableSize img = toInt32 maxAddr / pageSize := ⟨_, rfl⟩
  have hrange := toInt32_range maxAddr
  rw [hmax, pageSize]
  exact toInt32_toSize (by omega) (by omega)

section

variable (hwf : img.WellFormed tdata sig i) (hheap : heap * pageSize < 2 ^ 64)
  (hstack : stack * pageSize < 2 ^ 64)

include hwf hheap hstack

theorem fillEnclaveParms_spec (tcsp : Int) (heapOffset stackOffset ossaOffset : Nat) :
    ∃ filled, fillEnclaveParms img heapOffset stackOffset ossaOffset (toSize tcsp)
        (toSize (heap * pageSize)) (toSize (stack * pageSize)) = some filled ∧
      filled.WellFormed tdata sig i ∧ filled.HasParms (parmsAt tdata i) heap stack tcsp ∧
      filled.phdrs = img.phdrs := by
  have hin := hwf.parms_in_tdata
  have hsize : ∀ {n : Nat}, n * pageSize < 2 ^ 64 → toSize (n * pageSize) = n * pageSize := by
    intro n hn
    exact_mod_cast toSize_of_lt hn
  have hfill : fillEnclaveParms img heapOffset stackOffset ossaOffset (toSize tcsp)
      (heap * pageSize) (stack * pageSize) = some { img with
        file := storeFields img.file (parmsFields (parmsAt tdata i) heapOffset stackOffset ossaOffset
          (toSize tcsp) (heap * pageSize) (stack * pageSize)) } := by
    refine Option.bind_eq_some_iff.mpr ⟨tdata, hwf.tdata_eq, ?_⟩
    refine Option.bind_eq_some_iff.mpr
      ⟨_, Shdr.intOffset_eq hwf.tdata_offset.1 hwf.tdata_offset.2, ?_⟩
    exact Option.bind_eq_some_iff.mpr
      ⟨i, hwf.findMagic_eq (by unfold enclaveParmsSize at hin; omega), rfl⟩
  rw [hsize hheap, hsize hstack]
  refine ⟨_, hfill, hwf.of_eq ?_, ?_, rfl⟩
  · exact fun x _ hhigh => parmsFields_of_notMem _ _ _ _ _ _ _ _ (.inl hhigh)
  · obtain ⟨htcsn, hheap', hstack'⟩ := load_parmsFields img.file (parmsAt tdata i) heapOffset
      stackOffset ossaOffset (toSize tcsp) (heap * pageSize) (stack * pageSize)
    have hword : ∀ n < 2 ^ 64, n % 256 ^ 8 = n := by omega
    rw [hword _ (toSize_lt tcsp)] at htcsn
    rw [hword _ hheap] at hheap'
    rw [hword _ hstack] at hstack'
    exact ⟨htcsn, hheap', hstack'⟩

theorem fillAndMeasure_spec (size : Nat) (tcsp : Int) (mapHeapFirst : Bool) :
    ∃ filled run,
      fillAndMeasure img heap stack size tcsp mapHeapFirst =
        some ⟨filled, getNextPower2 (toSize (size * pageSize)), run.calls.map measurePage⟩ ∧
      filled.WellFormed tdata sig i ∧ filled.HasParms (parmsAt tdata i) heap stack tcsp ∧
      filled.phdrs = img.phdrs ∧
      processPages filled heap stack tcsp 2 mapHeapFirst = some run := by
  obtain ⟨value, hentry⟩ := Option.isSome_iff_exists.mp hwf.entry
  have hsymbol : getSymbolAddress img = some _ := congrArg _ hentry
  obtain ⟨filled, hfill, hwf', hparms, hphdrs⟩ : ∃ filled,
      fillParms img heap stack tcsp mapHeapFirst = some filled ∧
        filled.WellFormed tdata sig i ∧ filled.HasParms (parmsAt tdata i) heap stack tcsp ∧
        filled.phdrs = img.phdrs := fillEnclaveParms_spec hwf hheap hstack tcsp _ _ _
  obtain ⟨run, hrun⟩ := hwf'.processPages_isSome heap stack tcsp 2 mapHeapFirst
  refine ⟨filled, run, ?_, hwf', hparms, hphdrs, hrun⟩
  rw [fillAndMeasure, hsymbol, hfill]
  simp only [Option.bind_eq_bind, Option.bind_some, hrun]
  rfl

end

theorem fillAndMeasure_loads (hwf : img.WellFormed tdata sig i) (hout : img.SigOutside sig)
    (hheap : heap * pageSize < 2 ^ 64) (hstack : stack * pageSize < 2 ^ 64)
    (hlow : -2 ^ 31 ≤ tcsp) (hhigh : tcsp < 2 ^ 31)
    (hsize : size = getEnclaveSize heap stack tcsp 1 2 (getLoadableSize img) 1)
    (mapHeapFirst : Bool) :
    ∃ s, fillAndMeasure img heap stack size tcsp mapHeapFirst = some s ∧
      s.image.noteSigstruct = some sig ∧
      ∀ sigstruct, Signed.LoadsAsMeasured
        { s with image := s.image.putSigstruct sig.offset.toNat sigstruct } mapHeapFirst := by
  obtain ⟨filled, run, hfill, hwf', hparms, hphdrs, hrun⟩ :=
    fillAndMeasure_spec hwf hheap hstack size tcsp mapHeapFirst
  have hout' : filled.SigOutside sig := by
    unfold ElfImage.SigOutside ElfImage.loads
    rw [hphdrs]
    exact hout
  have hsize' : size = getEnclaveSize heap stack tcsp 1 2 (getLoadableSize filled) 1 := by
    rw [hsize, getLoadableSize, getLoadableSize, hphdrs]
  exact ⟨_, hfill, hwf'.sig_eq, fun sigstruct =>
    loadsAsMeasured_of_hasParms hwf' hout' hparms hlow hhigh hrun sigstruct hsize'⟩

/-- What is signed is what is loaded, after `enclave_sign` and after `enclave_update_heap`. -/
theorem signed_is_loaded (hwf : img.WellFormed tdata sig i) (hout : img.SigOutside sig)
    (hpos : 0 < heap) (hheap : heap * pageSize < 2 ^ 64)
    (sign : Nat → List Measured → Nat → BitVec 8) (mapHeapFirst : Bool) :
    (∀ stack tcsp, stack * pageSize < 2 ^ 64 → -2 ^ 31 ≤ tcsp → tcsp < 2 ^ 31 →
      ∃ s, enclaveSign sign img heap stack tcsp mapHeapFirst = some s ∧
        s.LoadsAsMeasured mapHeapFirst) ∧
    ∃ s, enclaveUpdateHeap sign img (heap * pageSize) mapHeapFirst = some s ∧
      s.LoadsAsMeasured mapHeapFirst := by
  refine ⟨?_, ?_⟩
  · intro stack tcsp hstack hlow hhigh
    obtain ⟨s, hs, hnote, hloads⟩ :=
      fillAndMeasure_loads hwf hout hheap hstack hlow hhigh rfl mapHeapFirst
    refine ⟨_, ?_, hloads (sign s.size s.measured)⟩
    have hoffset : s.image.noteSigstruct.bind Shdr.intOffset = some sig.offset.toNat :=
      Option.bind_eq_some_iff.mpr
        ⟨sig, hnote, Shdr.intOffset_eq hwf.sig_offset.1 hwf.sig_offset.2⟩
    unfold enclaveSign
    simp only [toInt32_getLoadableSize, if_neg hpos.ne']
    exact Option.bind_eq_some_iff.mpr ⟨s, hs, Option.bind_eq_some_iff.mpr ⟨_, hoffset, rfl⟩⟩
  · -- the number of threads and the size of the stack are those in the library
    obtain ⟨enc, henc⟩ : ∃ enc, enc = parmsAt tdata i := ⟨_, rfl⟩
    have hstack : load img.file (enc + parmsStackSize) 8 / pageSize * pageSize < 2 ^ 64 := by
      have hlt := load_lt img.file (enc + parmsStackSize) 8
      have hle := Nat.div_mul_le_self (load img.file (enc + parmsStackSize) 8) pageSize
      omega
    have hwf' : ({ img with file := store img.file (enc + parmsHeapSize) 8 (heap * pageSize) } :
        ElfImage).WellFormed tdata sig i := by
      refine hwf.of_eq fun x _ hhigh => store_of_notMem ?_
      unfold parmsHeapSize
      omega
    obtain ⟨hlow, hhigh⟩ := toInt32_range (load img.file (enc + parmsTcsn) 8)
    obtain ⟨s, hs, hnote, hloads⟩ :=
      fillAndMeasure_loads hwf' hout hheap hstack hlow hhigh rfl mapHeapFirst
    refine ⟨_, ?_, hloads (sign s.size s.measured)⟩
    refine Option.bind_eq_some_iff.mpr ⟨enc, henc ▸ hwf.getEnclaveParms_eq, ?_⟩
    simp only [toInt32_getLoadableSize, Nat.mul_div_cancel heap (show 0 < pageSize by decide),
      if_neg hpos.ne']
    exact Option.bind_eq_some_iff.mpr ⟨s, hs, Option.bind_eq_some_iff.mpr ⟨sig, hnote, rfl⟩⟩

end SignLoad

def signableLibrary : ElfImage := { smallLibrary with noteSigstruct := some ⟨0x1000, 0x710⟩ }

theorem signableLibrary_wellFormed :
    signableLibrary.WellFormed ⟨0x100, 0x170⟩ ⟨0x1000, 0x710⟩ 0 where
  tdata_eq := rfl
  sig_eq := rfl
  tdata_offset := by decide
  sig_offset := by decide
  mark := by decide +kernel
  first := fun j hj => absurd hj (Nat.not_lt_zero j)
  parms_in_tdata := by decide
  parms_in_tls := by decide
  parms_in_page := by decide
  tdata_in_file := by decide
  sig_room := by decide
  apart := by decide
  entry := rfl
  fits := by decide

theorem signableLibrary_sigOutside : signableLibrary.SigOutside ⟨0x1000, 0x710⟩ := by
  have hlow : ∀ h ∈ signableLibrary.loads, h.offset.toNat + h.filesz.toNat ≤ 0x1000 := by decide
  intro h hh x hx _ hin
  have hle : 0x1000 ≤ x := hx
  have := hlow h hh
  omega

theorem signed_is_loaded_small :
    ∃ s, enclaveSign (fun _ _ _ => 0) signableLibrary 4 1 1 true = some s ∧
      s.LoadsAsMeasured true :=
  (signed_is_loaded signableLibrary_wellFormed signableLibrary_sigOutside (by decide) (by decide)
    (fun _ _ _ => 0) true).1 1 1 (by decide) (by decide) (by decide)

end RktIo.Sgx
