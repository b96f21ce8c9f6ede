import RktIo.Sgx.Loader

/-!
# The signature of an enclave (`sgx/sgx_sign.c`)

`cmd_sign` signs the header and the body of a `sigstruct_t`, and stores the modulus of the key, the
signature `S` and two quotients, from which the processor verifies the signature without a division.
The numbers come as big-endian bytes and are reversed in place.

The key file is not modelled: the modulus `M` is the number in the bytes of the public key, and the
RSA operation is a function of the signed bytes. The numbers of the crypto library are those of Lean.
-/

namespace RktIo.Sgx

open Bytes List

/-! ## The structure -/

def keyLength : Nat := 384

/-- Offsets in `sigstruct_t`; the header stands in front of `modulus`, the body of 128 bytes starts
with `miscselect`. -/
def sigModulus : Nat := 128
def sigExponent : Nat := 512
def sigSignature : Nat := 516
def sigMiscselect : Nat := 900
def sigQ1 : Nat := 1040
def sigQ2 : Nat := 1424

/-! ## Reversing -/

def reverseStep (a : Nat) (s : (Nat → BitVec 8) × Int) (i : Nat) : (Nat → BitVec 8) × Int :=
  let temp := s.1 (a + i)
  let buf := Function.update s.1 (a + i) (s.1 (a + s.2.toNat))
  (Function.update buf (a + s.2.toNat) temp, s.2 - 1)

def reverse (f : Nat → BitVec 8) (a bytes : Nat) : Nat → BitVec 8 :=
  ((List.range (bytes / 2)).foldl (reverseStep a) (f, (bytes : Int) - 1)).1

def exchanged (f : Nat → BitVec 8) (a n k : Nat) : Nat → BitVec 8 := fun x =>
  if a ≤ x ∧ x < a + n ∧ (x - a < k ∨ n - k ≤ x - a) then mirror f a n (x - a) else f x

variable {k : Nat}

theorem reverseStep_exchanged (f : Nat → BitVec 8) (a n : Nat) (hk : k < n / 2) :
    reverseStep a (exchanged f a n k, (n : Int) - 1 - k) k =
      (exchanged f a n (k + 1), (n : Int) - 1 - (k + 1 : Nat)) := by
  have hend : ((n : Int) - 1 - k).toNat = n - 1 - k := by omega
  -- both bytes have not been moved yet
  have hfirst : exchanged f a n k (a + k) = f (a + k) := if_neg (by omega)
  have hlast : exchanged f a n k (a + (n - 1 - k)) = f (a + (n - 1 - k)) := if_neg (by omega)
  rw [reverseStep]
  simp only [hend, hfirst, hlast]
  refine congrArg₂ Prod.mk (funext fun x => ?_) (by push_cast; ring)
  by_cases hx : x = a + (n - 1 - k)
  · subst hx
    rw [Function.update_self, exchanged, if_pos (by omega), mirror]
    congr 1
    omega
  · rw [Function.update_of_ne hx]
    by_cases hx' : x = a + k
    · subst hx'
      rw [Function.update_self, exchanged, if_pos (by omega), mirror, Nat.add_sub_cancel_left]
    · rw [Function.update_of_ne hx', exchanged, exchanged]
      exact if_congr (by omega) rfl rfl

theorem foldl_reverseStep (f : Nat → BitVec 8) (a n : Nat) (hk : k ≤ n / 2) :
    (List.range k).foldl (reverseStep a) (f, (n : Int) - 1) =
      (exchanged f a n k, (n : Int) - 1 - k) := by
  induction k with
  | zero =>
    -- nothing has been exchanged
    refine Prod.ext (funext fun x => (if_neg ?_).symm) (by simp)
    omega
  | succ k ih =>
    rw [range_succ, foldl_append, ih (by omega), foldl_cons, foldl_nil,
      reverseStep_exchanged f a n hk]

theorem reverse_apply (f : Nat → BitVec 8) (a n x : Nat) :
    reverse f a n x = if a ≤ x ∧ x < a + n then mirror f a n (x - a) else f x := by
  rw [reverse, foldl_reverseStep f a n le_rfl]
  dsimp only [exchanged]
  by_cases hin : a ≤ x ∧ x < a + n
  · rw [if_pos hin]
    split
    case isTrue => rfl
    case isFalse hmid =>
      -- the middle byte is its own mirror image
      rw [mirror]
      congr 1
      omega
  · rw [if_neg hin, if_neg fun h => hin ⟨h.1, h.2.1⟩]

theorem reverse_of_mem {f : Nat → BitVec 8} {a n x : Nat} (h : a ≤ x ∧ x < a + n) :
    reverse f a n x = mirror f a n (x - a) := (reverse_apply f a n x).trans (if_pos h)

theorem reverse_of_notMem {f : Nat → BitVec 8} {a n x : Nat} (h : ¬ (a ≤ x ∧ x < a + n)) :
    reverse f a n x = f x := (reverse_apply f a n x).trans (if_neg h)

/-! ## Fields that are copied and reversed -/

variable {field : Nat × (Nat → BitVec 8)}

section KeyFields

variable {n : Nat} {fields : List (Nat × (Nat → BitVec 8))} {x : Nat}

def InField (n : Nat) (field : Nat × (Nat → BitVec 8)) (x : Nat) : Prop :=
  field.1 ≤ x ∧ x < field.1 + n

def copyFields (n : Nat) (fields : List (Nat × (Nat → BitVec 8))) (f : Nat → BitVec 8) :
    Nat → BitVec 8 :=
  fields.foldl (fun f field => copy n field.2 0 f field.1) f

def reverseFields (n : Nat) (fields : List (Nat × (Nat → BitVec 8))) (f : Nat → BitVec 8) :
    Nat → BitVec 8 :=
  fields.foldl (fun f field => reverse f field.1 n) f

theorem copyFields_cons (field : Nat × (Nat → BitVec 8)) (f : Nat → BitVec 8) :
    copyFields n (field :: fields) f = copyFields n fields (copy n field.2 0 f field.1) := rfl

theorem reverseFields_cons (field : Nat × (Nat → BitVec 8)) (f : Nat → BitVec 8) :
    reverseFields n (field :: fields) f = reverseFields n fields (reverse f field.1 n) := rfl

section

variable (h : ∀ field ∈ fields, ¬ InField n field x) (f : Nat → BitVec 8)

include h f

theorem copyFields_of_notMem : copyFields n fields f x = f x := by
  induction fields generalizing f with
  | nil => rfl
  | cons field fields ih =>
    obtain ⟨hhead, htail⟩ := forall_mem_cons.mp h
    rw [copyFields_cons, ih htail, copy_of_notMem hhead]

theorem reverseFields_of_notMem : reverseFields n fields f x = f x := by
  induction fields generalizing f with
  | nil => rfl
  | cons field fields ih =>
    obtain ⟨hhead, htail⟩ := forall_mem_cons.mp h
    rw [reverseFields_cons, ih htail, reverse_of_notMem hhead]

end

def FieldsApart (n : Nat) (field field' : Nat × (Nat → BitVec 8)) : Prop :=
  field.1 + n ≤ field'.1 ∨ field'.1 + n ≤ field.1

theorem FieldsApart.not_inField {field' : Nat × (Nat → BitVec 8)} (h : FieldsApart n field field')
    (hx : InField n field x) : ¬ InField n field' x := by
  unfold FieldsApart InField at *
  omega

variable (hapart : fields.Pairwise (FieldsApart n))

include hapart

section

variable (hf : field ∈ fields) (hx : InField n field x) (f : Nat → BitVec 8)

include hf hx f

theorem copyFields_of_mem : copyFields n fields f x = field.2 (x - field.1) := by
  induction fields generalizing f with
  | nil => cases hf
  | cons g gs ih =>
    obtain ⟨hhead, htail⟩ := pairwise_cons.mp hapart
    rcases mem_cons.mp hf with rfl | hf
    · rw [copyFields_cons, copyFields_of_notMem fun g hg => (hhead g hg).not_inField hx,
        copy_of_mem hx, Nat.zero_add]
    · rw [copyFields_cons, ih htail hf]

theorem reverseFields_of_mem : reverseFields n fields f x = mirror f field.1 n (x - field.1) := by
  induction fields generalizing f with
  | nil => cases hf
  | cons g gs ih =>
    obtain ⟨hhead, htail⟩ := pairwise_cons.mp hapart
    rcases mem_cons.mp hf with rfl | hf
    · rw [reverseFields_cons, reverseFields_of_notMem fun g hg => (hhead g hg).not_inField hx,
        reverse_of_mem hx]
    · -- the other end of the field is not in `g` either
      have hout : ¬ InField n g (field.1 + (n - 1 - (x - field.1))) := by
        have hg := hhead field hf
        unfold FieldsApart InField at *
        omega
      rw [reverseFields_cons, ih htail hf, mirror, reverse_of_notMem hout, mirror]

end

theorem reverse_copyFields (hf : field ∈ fields) (hk : k < n) (f : Nat → BitVec 8) :
    reverseFields n fields (copyFields n fields f) (field.1 + k) = mirror field.2 0 n k := by
  have hx : InField n field (field.1 + k) := ⟨by omega, by omega⟩
  have hx' : InField n field (field.1 + (n - 1 - k)) := ⟨by omega, by omega⟩
  rw [reverseFields_of_mem hapart hf hx, Nat.add_sub_cancel_left, mirror,
    copyFields_of_mem hapart hf hx', Nat.add_sub_cancel_left, mirror, Nat.zero_add]

end KeyFields

/-! ## The quotients -/

def quotients (s m : Nat) : Nat × Nat :=
  let t1 := s * s
  let q1 := t1 / m
  let t1 := t1 * s
  let t2 := q1 * s * m
  (q1, (((t1 : Int) - t2).tdiv m).natAbs)

theorem quotients_snd (s m : Nat) : (quotients s m).2 = s * s % m * s / m := by
  -- the subtraction leaves the remainder of the first division, times `s`
  have hdiff : ((s * s * s : Nat) : Int) - (s * s / m * s * m : Nat) = (s * s % m * s : Nat) := by
    have hdiv := Nat.div_add_mod (s * s) m
    generalize s * s / m = q at *
    generalize s * s % m = r at *
    rw [← hdiv]
    push_cast
    ring
  unfold quotients
  simp only [hdiff]
  rfl

theorem quotients_spec {s m : Nat} (hlt : s < m) {q1 q2 : Nat} (hq : quotients s m = (q1, q2)) :
    q1 < m ∧ q2 < m ∧
      ∃ r, r < m ∧ s * s = q1 * m + r ∧ r * s = q2 * m + s ^ 3 % m := by
  have hpos : 0 < m := by omega
  have hq1 : q1 = s * s / m := (congrArg Prod.fst hq).symm
  have hq2 : q2 = s * s % m * s / m := (congrArg Prod.snd hq).symm.trans (quotients_snd s m)
  have hr : s * s % m < m := Nat.mod_lt _ hpos
  refine ⟨?_, ?_, s * s % m, hr, ?_, ?_⟩
  · rw [hq1, Nat.div_lt_iff_lt_mul hpos]
    exact Nat.mul_lt_mul'' hlt hlt
  · rw [hq2, Nat.div_lt_iff_lt_mul hpos]
    exact Nat.mul_lt_mul'' hr hlt
  · rw [hq1, Nat.div_add_mod']
  · have hcube : s ^ 3 % m = s * s % m * s % m := by
      rw [Nat.mod_mul_mod]
      ring_nf
    rw [hq2, hcube, Nat.mul_comm _ m, Nat.div_add_mod]

/-! ## Signing -/

def writeBinary (v n : Nat) (buf : Nat → BitVec 8) : Nat → BitVec 8 :=
  if v < 256 ^ n then copy n (bytesBE v n) 0 buf 0 else buf

theorem loadBE_writeBinary {v n : Nat} (hv : v < 256 ^ n) (buf : Nat → BitVec 8) :
    loadBE (writeBinary v n buf) 0 n = v := by
  have hcopy : loadBE (writeBinary v n buf) 0 n = loadBE (bytesBE v n) 0 n := by
    refine load_congr fun k _ hk => ?_
    rw [mirror, mirror, writeBinary, if_pos hv, copy_of_mem (by omega), Nat.zero_add, Nat.zero_add,
      Nat.sub_zero]
  rw [hcopy, loadBE_bytesBE, Nat.mod_eq_of_lt hv]

section CmdSign

variable (sign : List (BitVec 8) → Nat) (pubkey sigstruct : Nat → BitVec 8)

def sig2 : Nat → BitVec 8 :=
  let sig2 := copy sigstructSize sigstruct 0 (fun _ => 0) 0
  copy 128 sig2 sigMiscselect sig2 sigModulus

def rsaSign : Nat → BitVec 8 := bytesBE (sign (slice (sig2 sigstruct) 0 256)) keyLength

def signQuotients : (Nat → BitVec 8) × (Nat → BitVec 8) :=
  let q := quotients (loadBE (rsaSign sign sigstruct) 0 keyLength) (loadBE pubkey 0 keyLength)
  (writeBinary q.1 keyLength fun _ => 0, writeBinary q.2 keyLength fun _ => 0)

def clearedFields : Nat → BitVec 8 :=
  let sigstruct := store sigstruct sigModulus keyLength 0
  let sigstruct := store sigstruct sigExponent 4 0
  let sigstruct := store sigstruct sigSignature keyLength 0
  let sigstruct := store sigstruct sigQ1 keyLength 0
  store sigstruct sigQ2 keyLength 0

def cmdSign : Nat → BitVec 8 :=
  let q := signQuotients sign pubkey sigstruct
  let f := copy sigstructSize (sig2 sigstruct) 0 (clearedFields sigstruct) 0
  let f := store f sigExponent 4 3
  let f := copy keyLength pubkey 0 f sigModulus
  let f := copy keyLength (rsaSign sign sigstruct) 0 f sigSignature
  let f := copy keyLength q.1 0 f sigQ1
  let f := copy keyLength q.2 0 f sigQ2
  let f := reverse f sigModulus keyLength
  let f := reverse f sigSignature keyLength
  let f := reverse f sigQ1 keyLength
  reverse f sigQ2 keyLength

def keyFields : List (Nat × (Nat → BitVec 8)) :=
  [(sigModulus, pubkey), (sigSignature, rsaSign sign sigstruct),
   (sigQ1, (signQuotients sign pubkey sigstruct).1), (sigQ2, (signQuotients sign pubkey sigstruct).2)]

theorem cmdSign_eq :
    cmdSign sign pubkey sigstruct = reverseFields keyLength (keyFields sign pubkey sigstruct)
      (copyFields keyLength (keyFields sign pubkey sigstruct)
        (store (copy sigstructSize (sig2 sigstruct) 0 (clearedFields sigstruct) 0) sigExponent 4
          3)) := by
  simp only [cmdSign, keyFields, copyFields_cons, reverseFields_cons]
  simp only [copyFields, reverseFields, foldl_nil]

theorem keyFields_apart :
    (keyFields sign pubkey sigstruct).Pairwise (FieldsApart keyLength) := by
  simp only [keyFields, pairwise_cons, mem_cons, not_mem_nil, or_false,
    forall_eq_or_imp, forall_eq, FieldsApart, false_imp_iff, implies_true, List.Pairwise.nil,
    and_true]
  decide

def IsWritten (x : Nat) : Prop :=
  (sigModulus ≤ x ∧ x < sigMiscselect) ∨ (sigQ1 ≤ x ∧ x < sigstructSize)

theorem not_inField_of_not_isWritten {x : Nat} (hx : ¬ IsWritten x) :
    ∀ field ∈ keyFields sign pubkey sigstruct, ¬ InField keyLength field x := by
  simp only [keyFields, mem_cons, not_mem_nil, or_false, forall_eq_or_imp, forall_eq,
    InField]
  unfold IsWritten sigModulus sigMiscselect sigSignature sigQ1 sigQ2 sigstructSize keyLength at *
  omega

theorem cmdSign_of_not_isWritten {x : Nat} (hx : ¬ IsWritten x) :
    cmdSign sign pubkey sigstruct x = sigstruct x := by
  have hout := not_inField_of_not_isWritten sign pubkey sigstruct hx
  rw [cmdSign_eq, reverseFields_of_notMem hout, copyFields_of_notMem hout]
  unfold IsWritten sigModulus sigMiscselect sigQ1 sigstructSize at hx
  unfold clearedFields sig2 sigModulus sigExponent sigSignature sigMiscselect sigQ1 sigQ2 keyLength
    sigstructSize
  rw [store_of_notMem (by omega)]
  -- inside, the byte comes back from `sig2`; behind the structure, nothing is stored
  by_cases hin : x < 1808
  · rw [copy_of_mem (by omega), Nat.sub_zero, Nat.zero_add, copy_of_notMem (by omega),
      copy_of_mem (by omega), Nat.sub_zero, Nat.zero_add]
  · rw [copy_of_notMem (by omega), store_of_notMem (by omega), store_of_notMem (by omega),
      store_of_notMem (by omega), store_of_notMem (by omega), store_of_notMem (by omega)]

theorem cmdSign_of_inField (hf : field ∈ keyFields sign pubkey sigstruct) (hk : k < keyLength) :
    cmdSign sign pubkey sigstruct (field.1 + k) = mirror field.2 0 keyLength k := by
  rw [cmdSign_eq]
  exact reverse_copyFields (keyFields_apart sign pubkey sigstruct) hf hk _

theorem cmdSign_exponent {x : Nat} (hx : sigExponent ≤ x ∧ x < sigExponent + 4) :
    cmdSign sign pubkey sigstruct x = byte 3 (x - sigExponent) := by
  have hout : ∀ field ∈ keyFields sign pubkey sigstruct, ¬ InField keyLength field x := by
    simp only [keyFields, mem_cons, not_mem_nil, or_false, forall_eq_or_imp, forall_eq,
      InField]
    unfold sigExponent sigModulus sigSignature sigQ1 sigQ2 keyLength at *
    omega
  rw [cmdSign_eq, reverseFields_of_notMem hout, copyFields_of_notMem hout, store, if_pos hx]

theorem isWritten_cases {x : Nat} (hx : IsWritten x) :
    (∃ field ∈ keyFields sign pubkey sigstruct, ∃ k < keyLength, x = field.1 + k) ∨
      (sigExponent ≤ x ∧ x < sigExponent + 4) := by
  have hfield : ∀ field ∈ keyFields sign pubkey sigstruct, InField keyLength field x →
      ∃ field ∈ keyFields sign pubkey sigstruct, ∃ k < keyLength, x = field.1 + k := by
    intro field hf hin
    unfold InField at hin
    exact ⟨field, hf, x - field.1, by omega, by omega⟩
  have hsplit : (sigModulus ≤ x ∧ x < sigModulus + keyLength) ∨
      (sigExponent ≤ x ∧ x < sigExponent + 4) ∨
      (sigSignature ≤ x ∧ x < sigSignature + keyLength) ∨ (sigQ1 ≤ x ∧ x < sigQ1 + keyLength) ∨
      (sigQ2 ≤ x ∧ x < sigQ2 + keyLength) := by
    unfold IsWritten at hx
    unfold sigModulus sigExponent sigSignature sigMiscselect sigQ1 sigQ2 sigstructSize keyLength at *
    omega
  rcases hsplit with hin | hin | hin | hin | hin
  · exact .inl (hfield (sigModulus, pubkey) (by simp [keyFields]) hin)
  · exact .inr hin
  · exact .inl (hfield (sigSignature, rsaSign sign sigstruct) (by simp [keyFields]) hin)
  · exact .inl (hfield (sigQ1, (signQuotients sign pubkey sigstruct).1) (by simp [keyFields]) hin)
  · exact .inl (hfield (sigQ2, (signQuotients sign pubkey sigstruct).2) (by simp [keyFields]) hin)

theorem load_keyField (hf : field ∈ keyFields sign pubkey sigstruct) :
    load (cmdSign sign pubkey sigstruct) field.1 keyLength = loadBE field.2 0 keyLength := by
  exact load_eq_loadBE fun k hk => cmdSign_of_inField sign pubkey sigstruct hf hk

theorem load_exponent : load (cmdSign sign pubkey sigstruct) sigExponent 4 = 3 := by
  have hload : load (cmdSign sign pubkey sigstruct) sigExponent 4 =
      load (store (fun _ => 0) sigExponent 4 3) sigExponent 4 := by
    refine load_congr fun x hlow hhigh => ?_
    rw [cmdSign_exponent sign pubkey sigstruct ⟨hlow, hhigh⟩, store, if_pos ⟨hlow, hhigh⟩]
  rw [hload, load_store]
  rfl

theorem slice_sig2 :
    slice (sig2 sigstruct) 0 256 = slice sigstruct 0 128 ++ slice sigstruct sigMiscselect 128 := by
  have hcopy : ∀ x < sigstructSize,
      copy sigstructSize sigstruct 0 (fun _ => 0) 0 x = sigstruct x := by
    intro x hx
    rw [copy_of_mem (by omega), Nat.zero_add, Nat.sub_zero]
  have hheader : slice (sig2 sigstruct) 0 128 = slice sigstruct 0 128 := by
    refine slice_congr fun x _ hx => ?_
    rw [sig2, copy_of_notMem (by unfold sigModulus; omega), hcopy x (by unfold sigstructSize; omega)]
  have hbody : slice (sig2 sigstruct) sigModulus 128 = slice sigstruct sigMiscselect 128 := by
    refine slice_copy.trans (slice_congr fun x _ hx => hcopy x ?_)
    unfold sigMiscselect at hx
    unfold sigstructSize
    omega
  rw [← hheader, ← hbody]
  exact slice_add (sig2 sigstruct) 0 128 128

/-- What `cmd_sign` should do, for the key with the modulus in `pubkey` -/
structure SignedCorrectly (result : Nat → BitVec 8) : Prop where
  header : ∀ x < 128, result x = sigstruct x
  body : ∀ x, sigMiscselect ≤ x → x < sigMiscselect + 128 → result x = sigstruct x
  signature : load result sigSignature keyLength =
    sign (slice sigstruct 0 128 ++ slice sigstruct sigMiscselect 128)
  modulus : load result sigModulus keyLength = loadBE pubkey 0 keyLength
  exponent : load result sigExponent 4 = 3
  q1_lt : load result sigQ1 keyLength < loadBE pubkey 0 keyLength
  q2_lt : load result sigQ2 keyLength < loadBE pubkey 0 keyLength
  quotients : let s := load result sigSignature keyLength
    let m := load result sigModulus keyLength
    ∃ r < m, s * s = load result sigQ1 keyLength * m + r ∧
      r * s = load result sigQ2 keyLength * m + s ^ 3 % m

variable {sign pubkey}

theorem keyFields_congr {sigstruct sigstruct' : Nat → BitVec 8}
    (hheader : ∀ x < 128, sigstruct' x = sigstruct x)
    (hbody : ∀ x, sigMiscselect ≤ x → x < sigMiscselect + 128 → sigstruct' x = sigstruct x) :
    keyFields sign pubkey sigstruct' = keyFields sign pubkey sigstruct := by
  have hslice : slice (sig2 sigstruct') 0 256 = slice (sig2 sigstruct) 0 256 := by
    rw [slice_sig2, slice_sig2, slice_congr hbody, slice_congr fun x _ hx => hheader x (by omega)]
  have hsign : rsaSign sign sigstruct' = rsaSign sign sigstruct := by
    rw [rsaSign, rsaSign, hslice]
  rw [keyFields, keyFields, signQuotients, signQuotients, hsign]

theorem cmdSign_header : ∀ x < 128, cmdSign sign pubkey sigstruct x = sigstruct x := by
  intro x hx
  refine cmdSign_of_not_isWritten sign pubkey sigstruct ?_
  unfold IsWritten sigModulus sigMiscselect sigQ1 sigstructSize
  omega

theorem cmdSign_body : ∀ x, sigMiscselect ≤ x → x < sigMiscselect + 128 →
    cmdSign sign pubkey sigstruct x = sigstruct x := by
  intro x hlow hhigh
  refine cmdSign_of_not_isWritten sign pubkey sigstruct ?_
  unfold IsWritten sigModulus sigMiscselect sigQ1 sigstructSize at *
  omega

theorem cmdSign_cmdSign :
    cmdSign sign pubkey (cmdSign sign pubkey sigstruct) = cmdSign sign pubkey sigstruct := by
  have hfields : keyFields sign pubkey (cmdSign sign pubkey sigstruct) =
      keyFields sign pubkey sigstruct :=
    keyFields_congr (cmdSign_header sigstruct) (cmdSign_body sigstruct)
  funext x
  by_cases hx : IsWritten x
  · rcases isWritten_cases sign pubkey sigstruct hx with ⟨field, hf, k, hk, rfl⟩ | hexp
    · have hf' := hf
      rw [← hfields] at hf'
      rw [cmdSign_of_inField sign pubkey _ hf' hk, cmdSign_of_inField sign pubkey _ hf hk]
    · rw [cmdSign_exponent sign pubkey _ hexp, cmdSign_exponent sign pubkey _ hexp]
  · rw [cmdSign_of_not_isWritten sign pubkey _ hx]

variable (hsign : ∀ bytes, sign bytes < loadBE pubkey 0 keyLength)

include hsign

theorem loadBE_rsaSign :
    loadBE (rsaSign sign sigstruct) 0 keyLength =
      sign (slice sigstruct 0 128 ++ slice sigstruct sigMiscselect 128) := by
  rw [rsaSign, slice_sig2, loadBE_bytesBE,
    Nat.mod_eq_of_lt ((hsign _).trans (loadBE_lt pubkey 0 keyLength))]

theorem cmdSign_signedCorrectly :
    SignedCorrectly sign pubkey sigstruct (cmdSign sign pubkey sigstruct) := by
  obtain ⟨s, hs⟩ : ∃ s, s = sign (slice sigstruct 0 128 ++ slice sigstruct sigMiscselect 128) :=
    ⟨_, rfl⟩
  obtain ⟨m, hm⟩ : ∃ m, m = loadBE pubkey 0 keyLength := ⟨_, rfl⟩
  obtain ⟨⟨q1, q2⟩, hq⟩ : ∃ q, quotients s m = q := ⟨_, rfl⟩
  have hlt : s < m := hs ▸ hm ▸ hsign _
  have hfit : m < 256 ^ keyLength := hm ▸ loadBE_lt pubkey 0 keyLength
  obtain ⟨hq1, hq2, hquot⟩ := quotients_spec hlt hq
  have hbytes : signQuotients sign pubkey sigstruct =
      (writeBinary q1 keyLength fun _ => 0, writeBinary q2 keyLength fun _ => 0) := by
    rw [signQuotients, loadBE_rsaSign sigstruct hsign, ← hs, ← hm, hq]
  have hload : ∀ field ∈ keyFields sign pubkey sigstruct,
      load (cmdSign sign pubkey sigstruct) field.1 keyLength = loadBE field.2 0 keyLength :=
    fun field hf => load_keyField sign pubkey sigstruct hf
  have hsignature : load (cmdSign sign pubkey sigstruct) sigSignature keyLength = s :=
    (hload (sigSignature, rsaSign sign sigstruct) (by simp [keyFields])).trans
      ((loadBE_rsaSign sigstruct hsign).trans hs.symm)
  have hmodulus : load (cmdSign sign pubkey sigstruct) sigModulus keyLength = m :=
    (hload (sigModulus, pubkey) (by simp [keyFields])).trans hm.symm
  have hload1 : load (cmdSign sign pubkey sigstruct) sigQ1 keyLength = q1 := by
    refine (hload (sigQ1, (signQuotients sign pubkey sigstruct).1) (by simp [keyFields])).trans ?_
    rw [hbytes, loadBE_writeBinary (hq1.trans hfit)]
  have hload2 : load (cmdSign sign pubkey sigstruct) sigQ2 keyLength = q2 := by
    refine (hload (sigQ2, (signQuotients sign pubkey sigstruct).2) (by simp [keyFields])).trans ?_
    rw [hbytes, loadBE_writeBinary (hq2.trans hfit)]
  constructor
  · exact cmdSign_header sigstruct
  · exact cmdSign_body sigstruct
  · rw [hsignature, hs]
  · rw [hmodulus, hm]
  · exact load_exponent sign pubkey sigstruct
  · rw [hload1, ← hm]
    exact hq1
  · rw [hload2, ← hm]
    exact hq2
  · rw [hsignature, hmodulus, hload1, hload2]
    exact hquot

/-- For every structure and every key: header and body stay, signature, modulus, exponent and
quotients are what the processor expects, and signing again changes nothing. -/
theorem cmdSign_correct :
    SignedCorrectly sign pubkey sigstruct (cmdSign sign pubkey sigstruct) ∧
      cmdSign sign pubkey (cmdSign sign pubkey sigstruct) = cmdSign sign pubkey sigstruct :=
  ⟨cmdSign_signedCorrectly sigstruct hsign, cmdSign_cmdSign sigstruct⟩

end CmdSign

/-- The modulus 35, and 11 as the signature of the 256 bytes -/
theorem cmdSign_correct_35 :
    SignedCorrectly (fun bytes => bytes.length % 35) (bytesBE 35 keyLength) (BitVec.ofNat 8)
        (cmdSign (fun bytes => bytes.length % 35) (bytesBE 35 keyLength) (BitVec.ofNat 8)) ∧
      cmdSign (fun bytes => bytes.length % 35) (bytesBE 35 keyLength)
          (cmdSign (fun bytes => bytes.length % 35) (bytesBE 35 keyLength) (BitVec.ofNat 8)) =
        cmdSign (fun bytes => bytes.length % 35) (bytesBE 35 keyLength) (BitVec.ofNat 8) := by
  refine cmdSign_correct (BitVec.ofNat 8) fun bytes => ?_
  have hfit : 35 < 256 ^ keyLength :=
    lt_of_lt_of_le (by decide : 35 < 256 ^ 1) (Nat.pow_le_pow_right (by decide) (by decide))
  rw [loadBE_bytesBE, Nat.mod_eq_of_lt hfit]
  exact Nat.mod_lt _ (by decide)

end RktIo.Sgx
