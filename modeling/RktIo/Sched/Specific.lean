import RktIo.Sched.Futex

/-!
# Thread-specific data (`lthread_setspecific`, `lthread_key_create`)

The keys with their destructors are one list, the values of an lthread a list of slots of its own.
A pointer is a number and `NULL` is 0.
-/

namespace RktIo.Sched

open Walk List

abbrev Key := BitVec 32

def ENOMEM : Int := 12

structure TlsSlot where
  key : Key
  data : Nat
  deriving Repr, DecidableEq

structure TlsDestructor where
  key : Key
  destructor : Nat
  deriving Repr, DecidableEq

/-! ## Values -/

def lthreadFindtlsslot (tls : List TlsSlot) (key : Key) : Option TlsSlot :=
  tls.find? (fun d => d.key = key)

def lthreadAddtlsslot (tls : List TlsSlot) (key : Key) (data : Nat) (alloc : Bool) :
    Int × List TlsSlot :=
  if alloc then (0, ⟨key, data⟩ :: tls) else (ENOMEM, tls)

def lthreadGetspecific (tls : List TlsSlot) (key : Key) : Nat :=
  ((lthreadFindtlsslot tls key).map TlsSlot.data).getD 0

def storeData (key : Key) (value : Nat) : List TlsSlot → List TlsSlot
  | [] => []
  | d :: tls => if d.key = key then { d with data := value } :: tls else d :: storeData key value tls

def lthreadSetspecific (tls : List TlsSlot) (key : Key) (value : Nat) (alloc : Bool) :
    Int × List TlsSlot :=
  if (lthreadFindtlsslot tls key).isSome then (0, storeData key value tls)
  else lthreadAddtlsslot tls key value alloc

/-! ## Keys -/

def lthreadKeyCreate (keys : List TlsDestructor) (globalCount : Key) (destructor : Nat)
    (alloc : Bool) : Int × List TlsDestructor × Key :=
  if alloc then (0, ⟨globalCount, destructor⟩ :: keys, globalCount + 1)
  else (ENOMEM, keys, globalCount)

def lthreadKeyDelete (keys : List TlsDestructor) (key : Key) : Int × List TlsDestructor :=
  if keys.any (fun d => d.key = key) then (0, keys.eraseP (fun d => d.key = key)) else (-1, keys)

def lthreadFinddestr (keys : List TlsDestructor) (key : Key) : Nat :=
  ((keys.find? (fun d => d.key = key)).map TlsDestructor.destructor).getD 0

def DistinctKeys (keys : List TlsDestructor) : Prop := (keys.map TlsDestructor.key).Nodup

variable {keys : List TlsDestructor}

theorem lthreadKeyCreate_distinct (h : DistinctKeys keys) {globalCount : Key}
    (hnew : globalCount ∉ keys.map TlsDestructor.key) (destructor : Nat) (alloc : Bool) :
    DistinctKeys (lthreadKeyCreate keys globalCount destructor alloc).2.1 := by
  unfold lthreadKeyCreate
  cases alloc with
  | false => exact h
  | true => exact nodup_cons.mpr ⟨hnew, h⟩

theorem lthreadKeyDelete_distinct (h : DistinctKeys keys) (key : Key) :
    DistinctKeys (lthreadKeyDelete keys key).2 := by
  unfold lthreadKeyDelete
  split
  · exact ((eraseP_sublist (l := keys)).map TlsDestructor.key).nodup h
  · exact h

/-! ## Destructors -/

inductive TlsCall where
  | destructor (destructor data : Nat)
  | free (d : TlsSlot)
  deriving Repr, DecidableEq

def runDestructor (keys : List TlsDestructor) (d : TlsSlot) : List TlsCall :=
  let destr := lthreadFinddestr keys d.key
  (if d.data ≠ 0 ∧ destr ≠ 0 then [.destructor destr d.data] else []) ++ [.free d]

def lthreadRundestructors (keys : List TlsDestructor) (tls : List TlsSlot) : List TlsCall :=
  tls.flatMap (runDestructor keys)

def TlsCall.destructor? : TlsCall → Option (Nat × Nat)
  | .destructor f data => some (f, data)
  | .free _ => none

/-! ## What is assigned -/

structure SetCall where
  key : Key
  value : Nat
  alloc : Bool
  deriving Repr, DecidableEq

def setAll (tls : List TlsSlot) : List SetCall → List TlsSlot
  | [] => tls
  | c :: calls => setAll (lthreadSetspecific tls c.key c.value c.alloc).2 calls

def assigned (tls : List TlsSlot) (values : Key → Nat) : List SetCall → Key → Nat
  | [] => values
  | c :: calls =>
    let r := lthreadSetspecific tls c.key c.value c.alloc
    assigned r.2 (if r.1 = 0 then Function.update values c.key c.value else values) calls

theorem lthreadGetspecific_cons (d : TlsSlot) (tls : List TlsSlot) (key : Key) :
    lthreadGetspecific (d :: tls) key = if d.key = key then d.data else lthreadGetspecific tls key := by
  unfold lthreadGetspecific lthreadFindtlsslot
  by_cases h : d.key = key
  · rw [find?_cons_of_pos (by simpa using h), if_pos h]
    rfl
  · rw [find?_cons_of_neg (by simpa using h), if_neg h]

theorem map_key_storeData (key : Key) (value : Nat) (tls : List TlsSlot) :
    (storeData key value tls).map TlsSlot.key = tls.map TlsSlot.key := by
  induction tls with
  | nil => rfl
  | cons d tls ih =>
    unfold storeData
    split
    · rfl
    · rw [map_cons, map_cons, ih]

variable {tls : List TlsSlot} {key : Key}

theorem isSome_findtlsslot :
    (lthreadFindtlsslot tls key).isSome = true ↔ key ∈ tls.map TlsSlot.key := by
  simp [lthreadFindtlsslot, find?_isSome]

theorem lthreadGetspecific_storeData (value : Nat) (h : key ∈ tls.map TlsSlot.key) (k : Key) :
    lthreadGetspecific (storeData key value tls) k
      = Function.update (lthreadGetspecific tls) key value k := by
  induction tls with
  | nil => cases h
  | cons d tls ih =>
    by_cases hd : d.key = key
    · rw [storeData, if_pos hd, lthreadGetspecific_cons]
      by_cases hk : k = key
      · subst hk
        rw [if_pos hd, Function.update_self]
      · rw [Function.update_of_ne hk, lthreadGetspecific_cons]
        simp only [hd, Ne.symm hk, if_false]
    · have hmem : key ∈ tls.map TlsSlot.key := by
        rcases mem_cons.mp h with rfl | h
        · cases hd rfl
        · exact h
      rw [storeData, if_neg hd, lthreadGetspecific_cons, ih hmem]
      by_cases hk : k = key
      · subst hk
        rw [if_neg hd, Function.update_self, Function.update_self]
      · rw [Function.update_of_ne hk, Function.update_of_ne hk, lthreadGetspecific_cons]

/-- **One call** of `lthread_setspecific`: if it returns 0, the key has the value and the others
are as before, otherwise nothing changes. -/
theorem lthreadSetspecific_spec (tls : List TlsSlot) (key : Key) (value : Nat) (alloc : Bool) :
    let r := lthreadSetspecific tls key value alloc
    lthreadGetspecific r.2
        = (if r.1 = 0 then Function.update (lthreadGetspecific tls) key value
          else lthreadGetspecific tls)
      ∧ ((tls.map TlsSlot.key).Nodup → (r.2.map TlsSlot.key).Nodup) := by
  unfold lthreadSetspecific lthreadAddtlsslot
  by_cases hfind : (lthreadFindtlsslot tls key).isSome = true
  · rw [if_pos hfind]
    refine ⟨?_, ?_⟩
    · funext k
      exact lthreadGetspecific_storeData value (isSome_findtlsslot.mp hfind) k
    · intro hnodup
      rw [map_key_storeData]
      exact hnodup
  · rw [if_neg hfind]
    cases alloc with
    | false => exact ⟨rfl, id⟩
    | true =>
      refine ⟨?_, ?_⟩
      · funext k
        show lthreadGetspecific (⟨key, value⟩ :: tls) k = _
        rw [lthreadGetspecific_cons]
        by_cases hk : k = key
        · subst hk
          simp
        · simp [hk, Ne.symm hk]
      · intro hnodup
        exact nodup_cons.mpr ⟨fun hmem => hfind (isSome_findtlsslot.mpr hmem), hnodup⟩

/-- **What a run of calls leaves.** Induction on the calls. -/
theorem setAll_getspecific (calls : List SetCall) : ∀ tls : List TlsSlot,
    lthreadGetspecific (setAll tls calls) = assigned tls (lthreadGetspecific tls) calls
      ∧ ((tls.map TlsSlot.key).Nodup → ((setAll tls calls).map TlsSlot.key).Nodup) := by
  induction calls with
  | nil => intro tls; exact ⟨rfl, id⟩
  | cons c calls ih =>
    intro tls
    obtain ⟨hget, hnodup⟩ := lthreadSetspecific_spec tls c.key c.value c.alloc
    obtain ⟨hget', hnodup'⟩ := ih (lthreadSetspecific tls c.key c.value c.alloc).2
    refine ⟨?_, fun h => hnodup' (hnodup h)⟩
    rw [setAll, hget', assigned, hget]

/-! ## What the destructors get -/

def dueCall (keys : List TlsDestructor) (values : Key → Nat) (key : Key) : Option (Nat × Nat) :=
  let destr := lthreadFinddestr keys key
  if values key ≠ 0 ∧ destr ≠ 0 then some (destr, values key) else none

def dueCalls (keys : List TlsDestructor) (values : Key → Nat) : List (Nat × Nat) :=
  keys.filterMap (fun d =>
    if values d.key ≠ 0 ∧ d.destructor ≠ 0 then some (d.destructor, values d.key) else none)

theorem lthreadFinddestr_of_mem (h : DistinctKeys keys) {d : TlsDestructor} (hd : d ∈ keys) :
    lthreadFinddestr keys d.key = d.destructor := by
  rw [lthreadFinddestr, find?_of_mem h hd]
  rfl

theorem lthreadFinddestr_of_notMem (h : key ∉ keys.map TlsDestructor.key) :
    lthreadFinddestr keys key = 0 := by
  rw [lthreadFinddestr, find?_of_notMem h]
  rfl

theorem lthreadGetspecific_of_mem (h : (tls.map TlsSlot.key).Nodup) {d : TlsSlot} (hd : d ∈ tls) :
    lthreadGetspecific tls d.key = d.data := by
  rw [lthreadGetspecific, lthreadFindtlsslot, find?_of_mem h hd]
  rfl

theorem lthreadGetspecific_of_notMem (h : key ∉ tls.map TlsSlot.key) :
    lthreadGetspecific tls key = 0 := by
  rw [lthreadGetspecific, lthreadFindtlsslot, find?_of_notMem h]
  rfl

theorem rundestructors_filterMap (h : (tls.map TlsSlot.key).Nodup) :
    (lthreadRundestructors keys tls).filterMap TlsCall.destructor?
      = (tls.map TlsSlot.key).filterMap (dueCall keys (lthreadGetspecific tls)) := by
  have hbody : ∀ d ∈ tls, (runDestructor keys d).filterMap TlsCall.destructor?
      = (dueCall keys (lthreadGetspecific tls) d.key).toList := by
    intro d hd
    unfold runDestructor dueCall
    rw [lthreadGetspecific_of_mem h hd]
    by_cases hdue : d.data ≠ 0 ∧ lthreadFinddestr keys d.key ≠ 0
    · simp only [if_pos hdue]
      rfl
    · simp only [if_neg hdue]
      rfl
  rw [lthreadRundestructors, filterMap_flatMap, filterMap_map,
    filterMap_eq_flatMap_toList]
  exact flatMap_congr hbody

/-- **The destructors run once for each key that has one and a value**, and for no other. -/
theorem rundestructors_calls (hkeys : DistinctKeys keys) (htls : (tls.map TlsSlot.key).Nodup) :
    ((lthreadRundestructors keys tls).filterMap TlsCall.destructor?).Perm
      (dueCalls keys (lthreadGetspecific tls)) := by
  have hdue : dueCalls keys (lthreadGetspecific tls)
      = (keys.map TlsDestructor.key).filterMap (dueCall keys (lthreadGetspecific tls)) := by
    rw [filterMap_map]
    apply filterMap_congr
    intro d hd
    simp only [Function.comp, dueCall, lthreadFinddestr_of_mem hkeys hd]
  rw [rundestructors_filterMap htls, hdue]
  apply filterMap_perm htls hkeys
  intro key hcall
  have hboth : lthreadGetspecific tls key ≠ 0 ∧ lthreadFinddestr keys key ≠ 0 := by
    by_contra hnot
    exact hcall (if_neg hnot)
  refine iff_of_true ?_ ?_
  · by_contra hnot
    exact hboth.1 (lthreadGetspecific_of_notMem hnot)
  · by_contra hnot
    exact hboth.2 (lthreadFinddestr_of_notMem hnot)

theorem free_mem_rundestructors (keys : List TlsDestructor) {d : TlsSlot} (hd : d ∈ tls) :
    TlsCall.free d ∈ lthreadRundestructors keys tls :=
  mem_flatMap.mpr ⟨d, hd, mem_append_right _ (mem_singleton_self _)⟩

/-! ## All lthreads

The calls of any number of lthreads, one after the other. What the lists hold is read off the
history of the calls and their results, in which the last call comes first. -/

structure TlsSys where
  keys : List TlsDestructor
  globalCount : Key
  tls : Nat → List TlsSlot

inductive TlsOp where
  | keyCreate (destructor : Nat) (alloc : Bool)
  | keyDelete (key : Key)
  | setspecific (lt : Nat) (key : Key) (value : Nat) (alloc : Bool)
  | getspecific (lt : Nat) (key : Key)
  deriving Repr, DecidableEq

inductive TlsResult where
  | key (key : Key)
  | code (r : Int)
  | data (p : Nat)
  deriving Repr, DecidableEq

abbrev TlsEvent := TlsOp × TlsResult

def TlsSys.step (s : TlsSys) : TlsOp → TlsSys × TlsResult
  | .keyCreate destructor alloc =>
    let r := lthreadKeyCreate s.keys s.globalCount destructor alloc
    ({ s with keys := r.2.1, globalCount := r.2.2 },
      if r.1 = 0 then .key s.globalCount else .code r.1)
  | .keyDelete key =>
    let r := lthreadKeyDelete s.keys key
    ({ s with keys := r.2 }, .code r.1)
  | .setspecific lt key value alloc =>
    let r := lthreadSetspecific (s.tls lt) key value alloc
    ({ s with tls := Function.update s.tls lt r.2 }, .code r.1)
  | .getspecific lt key => (s, .data (lthreadGetspecific (s.tls lt) key))

def TlsSys.record (r : TlsSys × List TlsEvent) (op : TlsOp) : TlsSys × List TlsEvent :=
  ((r.1.step op).1, (op, (r.1.step op).2) :: r.2)

def TlsResult.key? : TlsResult → Option Key
  | .key key => some key
  | _ => none

def createdKeys (hist : List TlsEvent) : List Key := hist.filterMap fun e => e.2.key?

def TlsEvent.assigned? (lt : Nat) (k : Key) : TlsEvent → Option Nat
  | (.setspecific lt' key value _, .code r) =>
    if lt' = lt ∧ key = k ∧ r = 0 then some value else none
  | _ => none

def lastSet (lt : Nat) (k : Key) (hist : List TlsEvent) : Nat :=
  (hist.findSome? (TlsEvent.assigned? lt k)).getD 0

def TlsEvent.destructor? (k : Key) : TlsEvent → Option Nat
  | (.keyCreate destructor _, .key key) => if key = k then some destructor else none
  | (.keyDelete key, _) => if key = k then some 0 else none
  | _ => none

def liveDestructor (k : Key) (hist : List TlsEvent) : Nat :=
  (hist.findSome? (TlsEvent.destructor? k)).getD 0

theorem getD_findSome?_cons {α β : Type} (f : α → Option β) (a : α) (as : List α) (b : β) :
    ((a :: as).findSome? f).getD b = (f a).getD ((as.findSome? f).getD b) := by
  rw [findSome?_cons]
  cases f a <;> rfl

theorem lthreadFinddestr_cons (d : TlsDestructor) (keys : List TlsDestructor) (k : Key) :
    lthreadFinddestr (d :: keys) k
      = if d.key = k then d.destructor else lthreadFinddestr keys k := by
  unfold lthreadFinddestr
  by_cases h : d.key = k
  · rw [find?_cons_of_pos (by simpa using h), if_pos h]
    rfl
  · rw [find?_cons_of_neg (by simpa using h), if_neg h]

theorem lthreadFinddestr_keyDelete (h : DistinctKeys keys) (key k : Key) :
    lthreadFinddestr (lthreadKeyDelete keys key).2 k
      = if key = k then 0 else lthreadFinddestr keys k := by
  unfold lthreadKeyDelete
  split
  case isFalse hany =>
    split
    · subst k
      refine lthreadFinddestr_of_notMem fun hmem => hany ?_
      simpa using hmem
    · rfl
  case isTrue hany =>
    clear hany
    show lthreadFinddestr (keys.eraseP (fun d => d.key = key)) k = _
    induction keys with
    | nil => exact (ite_self _).symm
    | cons d keys ih =>
      obtain ⟨hnot, hnodup⟩ := nodup_cons.mp h
      by_cases hd : d.key = key
      · subst hd
        rw [eraseP_cons_of_pos (by simp), lthreadFinddestr_cons]
        split
        · subst k
          exact lthreadFinddestr_of_notMem hnot
        · rfl
      · rw [eraseP_cons_of_neg (by simpa using hd), lthreadFinddestr_cons,
          lthreadFinddestr_cons, ih hnodup]
        split
        · subst k
          rw [if_neg (Ne.symm hd)]
        · rfl

/-- The invariant of the calls: the keys are the first numbers, and those in the list are among
them. -/
structure TlsInv (s : TlsSys) (hist : List TlsEvent) : Prop where
  created : createdKeys hist = (List.range (createdKeys hist).length).reverse.map (BitVec.ofNat 32)
  count : s.globalCount = BitVec.ofNat 32 (createdKeys hist).length
  known : ∀ key ∈ s.keys.map TlsDestructor.key, key ∈ createdKeys hist
  distinct : DistinctKeys s.keys
  slots : ∀ lt, ((s.tls lt).map TlsSlot.key).Nodup
  values : ∀ lt k, lthreadGetspecific (s.tls lt) k = lastSet lt k hist
  destructors : ∀ k, lthreadFinddestr s.keys k = liveDestructor k hist

theorem ofNat_notMem_range {n : Nat} (hn : n < 2 ^ 32) :
    BitVec.ofNat 32 n ∉ (List.range n).reverse.map (BitVec.ofNat 32) := by
  intro hmem
  obtain ⟨i, hi, heq⟩ := mem_map.mp hmem
  have hlt : i < n := mem_range.mp (mem_reverse.mp hi)
  have hnat := congrArg BitVec.toNat heq
  rw [BitVec.toNat_ofNat, BitVec.toNat_ofNat, Nat.mod_eq_of_lt hn,
    Nat.mod_eq_of_lt (hlt.trans hn)] at hnat
  omega

variable {s : TlsSys} {hist : List TlsEvent}

theorem TlsInv.keyCreate (h : TlsInv s hist) (destructor : Nat) (alloc : Bool)
    (hlt : (createdKeys (TlsSys.record (s, hist) (.keyCreate destructor alloc)).2).length
      < 2 ^ 32) :
    TlsInv (TlsSys.record (s, hist) (.keyCreate destructor alloc)).1
      (TlsSys.record (s, hist) (.keyCreate destructor alloc)).2 := by
  cases alloc with
  | false => exact { h with }
  | true =>
    have hcreated : createdKeys (TlsSys.record (s, hist) (.keyCreate destructor true)).2
        = s.globalCount :: createdKeys hist := rfl
    have hlen : (createdKeys hist).length < 2 ^ 32 := by
      rw [hcreated, length_cons] at hlt
      omega
    have hnew : s.globalCount ∉ createdKeys hist := by
      rw [h.created, h.count]
      exact ofNat_notMem_range hlen
    refine
      { h with
        created := ?_, count := ?_, known := ?_, distinct := ?_, destructors := ?_ }
    · rw [hcreated, length_cons, range_succ, reverse_append, map_append,
        ← h.created, h.count]
      rfl
    · rw [hcreated, length_cons]
      show s.globalCount + 1 = _
      rw [h.count, BitVec.ofNat_add]
      rfl
    · intro key hmem
      rcases mem_cons.mp hmem with rfl | hmem
      · exact mem_cons_self
      · exact mem_cons_of_mem _ (h.known key hmem)
    · exact lthreadKeyCreate_distinct h.distinct (fun hmem => hnew (h.known _ hmem)) _ true
    · intro k
      show lthreadFinddestr (⟨s.globalCount, destructor⟩ :: s.keys) k = _
      rw [lthreadFinddestr_cons, h.destructors, liveDestructor, liveDestructor, TlsSys.record,
        getD_findSome?_cons]
      show _ = (if s.globalCount = k then some destructor else none).getD _
      split <;> rfl

theorem TlsInv.keyDelete (h : TlsInv s hist) (key : Key) :
    TlsInv (TlsSys.record (s, hist) (.keyDelete key)).1
      (TlsSys.record (s, hist) (.keyDelete key)).2 := by
  refine { h with known := ?_, distinct := ?_, destructors := ?_ }
  · intro k hmem
    refine h.known k ?_
    have hsub : (lthreadKeyDelete s.keys key).2.Sublist s.keys := by
      unfold lthreadKeyDelete
      split
      · exact eraseP_sublist
      · exact List.Sublist.refl _
    exact (hsub.map _).subset hmem
  · exact lthreadKeyDelete_distinct h.distinct key
  · intro k
    show lthreadFinddestr (lthreadKeyDelete s.keys key).2 k = _
    rw [lthreadFinddestr_keyDelete h.distinct, h.destructors, liveDestructor, liveDestructor,
      TlsSys.record, getD_findSome?_cons]
    show _ = (if key = k then some 0 else none).getD _
    split <;> rfl

/-- **A call of `lthread_setspecific` on one lthread**, as all lthreads see it. -/
theorem getspecific_setspecific (s : TlsSys) (lt : Nat) (key : Key) (value : Nat) (alloc : Bool)
    (lt' : Nat) (k : Key) :
    lthreadGetspecific ((s.step (.setspecific lt key value alloc)).1.tls lt') k
      = (TlsEvent.assigned? lt' k (.setspecific lt key value alloc,
          (s.step (.setspecific lt key value alloc)).2)).getD
            (lthreadGetspecific (s.tls lt') k) := by
  obtain ⟨hget, -⟩ := lthreadSetspecific_spec (s.tls lt) key value alloc
  show lthreadGetspecific (Function.update s.tls lt
    (lthreadSetspecific (s.tls lt) key value alloc).2 lt') k = (if lt = lt' ∧ key = k ∧
      (lthreadSetspecific (s.tls lt) key value alloc).1 = 0 then some value else none).getD _
  by_cases hlt : lt = lt'
  · subst hlt
    rw [Function.update_self, hget]
    by_cases hkey : key = k
    · subst hkey
      split <;> simp_all
    · have hother : ¬ (lt = lt ∧ key = k ∧
          (lthreadSetspecific (s.tls lt) key value alloc).1 = 0) := fun hc => hkey hc.2.1
      rw [if_neg hother]
      split
      · exact Function.update_of_ne (Ne.symm hkey) _ _
      · rfl
  · rw [Function.update_of_ne (Ne.symm hlt), if_neg (fun hc => hlt hc.1)]
    rfl

theorem TlsInv.setspecific (h : TlsInv s hist) (lt : Nat) (key : Key) (value : Nat)
    (alloc : Bool) :
    TlsInv (TlsSys.record (s, hist) (.setspecific lt key value alloc)).1
      (TlsSys.record (s, hist) (.setspecific lt key value alloc)).2 := by
  refine { h with slots := ?_, values := ?_ }
  · intro lt'
    show ((Function.update s.tls lt _ lt').map TlsSlot.key).Nodup
    by_cases hlt : lt' = lt
    · subst hlt
      rw [Function.update_self]
      exact (lthreadSetspecific_spec (s.tls lt') key value alloc).2 (h.slots lt')
    · rw [Function.update_of_ne hlt]
      exact h.slots lt'
  · intro lt' k
    rw [lastSet, TlsSys.record, getD_findSome?_cons, getspecific_setspecific, h.values]
    rfl

theorem TlsInv.record (h : TlsInv s hist) (op : TlsOp)
    (hlt : (createdKeys (TlsSys.record (s, hist) op).2).length < 2 ^ 32) :
    TlsInv (TlsSys.record (s, hist) op).1 (TlsSys.record (s, hist) op).2 := by
  cases op with
  | keyCreate destructor alloc => exact h.keyCreate destructor alloc hlt
  | keyDelete key => exact h.keyDelete key
  | setspecific lt key value alloc => exact h.setspecific lt key value alloc
  | getspecific lt key => exact { h with }

end RktIo.Sched
