import RktIo.Spdk.Hugetbl

/-!
# The controllers and queue pairs of the NVMe driver (`shared/spdk_context.c`)

`spdk_initialize` lets SPDK attach to the controllers of the host and keeps lists of them and of
their namespaces; in the enclave's process it also allocates a queue pair for each core and
namespace. `spdk_context_detach` gives back what SPDK has given, `spdk_context_free` the memory of
the lists, and both are called again by `main` of `sgx-lkl-userpci` when `spdk_initialize` has
failed.

`spdk_context_detach` frees the queue pairs that are `NULL`, and no others. A failed attach is
answered with the return value of the probe, which is 0. Releasing a context leaves its lists as
they are, so the second release goes through them again; a freed entry is taken to be as it was.
-/

namespace RktIo.Spdk

open List

/-! ## The context -/

/-- `struct spdk_ns_entry` at the address `entry`; the array has `qpairs_num` elements. -/
structure NsEntry where
  entry : Nat
  ctrlr : Nat
  ns : Nat
  qpairs : Option (List (Option Nat))
  deriving Repr, DecidableEq

structure CtrlrEntry where
  entry : Nat
  ctrlr : Nat
  deriving Repr, DecidableEq

structure Context where
  controllers : List CtrlrEntry
  namespaces : List NsEntry
  attachError : Int
  ctrlrThreadId : Nat
  deriving Repr, DecidableEq

inductive Call where
  | freeIoQpair (qpair : Option Nat)
  | detach (ctrlr : Nat)
  | freeQpairs (entry : Nat)
  | freeEntry (entry : Nat)
  | cancelThread (id : Nat)
  deriving Repr, DecidableEq

def spdkContextDetach (ctx : Context) : List Call :=
  (ctx.namespaces.flatMap fun ns =>
    (ns.qpairs.getD []).flatMap fun qpair => if qpair.isNone then [.freeIoQpair qpair] else [])
  ++ ctx.controllers.map fun c => .detach c.ctrlr

def spdkContextFree (ctx : Context) : Context × List Call :=
  ({ ctx with ctrlrThreadId := 0 },
    (ctx.namespaces.flatMap fun ns =>
      (if ns.qpairs.isSome then [.freeQpairs ns.entry] else []) ++ [.freeEntry ns.entry])
    ++ (ctx.controllers.map fun c => .freeEntry c.entry)
    ++ if ctx.ctrlrThreadId = 0 then [] else [.cancelThread ctx.ctrlrThreadId])

def spdkContextCleanup (ctx : Context) : Context × List Call :=
  ((spdkContextFree ctx).1, spdkContextDetach ctx ++ (spdkContextFree ctx).2)

/-! ## Queue pairs -/

/-- What the calls of `register_qpairs` return, for the namespaces from a given one on. -/
structure QpairCalls where
  cores : Nat
  calloc : Nat → Bool
  allocIoQpair : Nat → Nat → Option Nat

def registerQpairs (calls : QpairCalls) : Nat → List NsEntry → Int × List NsEntry
  | _, [] => (0, [])
  | k, ns :: rest =>
    if calls.calloc k = false then (-enomem, { ns with qpairs := none } :: rest)
    else
      let qpairs := allocateAll (calls.allocIoQpair k) calls.cores 0
      if none ∈ qpairs then (-enomem, { ns with qpairs := some qpairs } :: rest)
      else
        let r := registerQpairs calls (k + 1) rest
        (r.1, { ns with qpairs := some qpairs } :: r.2)

def Context.qpairs (ctx : Context) : List (Option Nat) :=
  ctx.namespaces.flatMap fun ns => ns.qpairs.getD []

/-- Every queue pair is freed once and `NULL` never, and every controller is detached once, when its
queue pairs have been freed. -/
structure ReleasedOnce (ctx : Context) (calls : List Call) : Prop where
  qpairs : ∀ q, calls.count (.freeIoQpair (some q)) = ctx.qpairs.count (some q)
  null : .freeIoQpair none ∉ calls
  controllers : ∀ c, calls.count (.detach c) = (ctx.controllers.map CtrlrEntry.ctrlr).count c
  order : ∀ ns ∈ ctx.namespaces, ∀ q, some q ∈ ns.qpairs.getD [] →
    ∀ before after, calls = before ++ .detach ns.ctrlr :: after → .freeIoQpair (some q) ∈ before

theorem freeIoQpair_mem_detach {ctx : Context} {qpair : Option Nat} :
    .freeIoQpair qpair ∈ spdkContextDetach ctx ↔ qpair = none ∧ none ∈ ctx.qpairs := by
  simp only [spdkContextDetach, Context.qpairs, mem_append, mem_flatMap, mem_map]
  constructor
  · rintro (⟨ns, hns, q, hq, hmem⟩ | ⟨c, -, hc⟩)
    · cases q with
      | none =>
        obtain rfl : qpair = none := by simpa using hmem
        exact ⟨rfl, ns, hns, hq⟩
      | some q => simp at hmem
    · cases hc
  · rintro ⟨rfl, ns, hns, hq⟩
    exact Or.inl ⟨ns, hns, none, hq, by simp⟩

theorem count_detach (ctx : Context) (c : Nat) :
    (spdkContextDetach ctx).count (.detach c)
      = (ctx.controllers.map CtrlrEntry.ctrlr).count c := by
  have hqpairs : Call.detach c ∉ ctx.namespaces.flatMap fun ns => (ns.qpairs.getD []).flatMap
      fun qpair => if qpair.isNone then [.freeIoQpair qpair] else [] := by
    simp only [mem_flatMap, not_exists, not_and]
    rintro ns - qpair - hmem
    split at hmem <;> simp at hmem
  have hinj : Function.Injective Call.detach := fun _ _ h => Call.detach.inj h
  rw [spdkContextDetach, count_append, count_eq_zero_of_not_mem hqpairs, Nat.zero_add,
    ← count_map_of_injective _ _ hinj, map_map]
  rfl

/-- **Queue pairs are released rightly** exactly if there are none. -/
theorem detach_releases_once_iff (ctx : Context) :
    ReleasedOnce ctx (spdkContextDetach ctx) ↔ ctx.qpairs = [] := by
  constructor
  · intro h
    refine List.eq_nil_iff_forall_not_mem.mpr fun qpair hmem => ?_
    cases qpair with
    | none => exact h.null (freeIoQpair_mem_detach.mpr ⟨rfl, hmem⟩)
    | some q =>
      have hpos : 0 < (spdkContextDetach ctx).count (.freeIoQpair (some q)) := by
        rw [h.qpairs]
        exact List.count_pos_iff.mpr hmem
      obtain ⟨hnone, -⟩ := freeIoQpair_mem_detach.mp (List.count_pos_iff.mp hpos)
      cases hnone
  · intro h
    have hfree (qpair : Option Nat) : .freeIoQpair qpair ∉ spdkContextDetach ctx := by
      rw [freeIoQpair_mem_detach, h]
      simp
    refine ⟨fun q => ?_, hfree none, count_detach ctx, fun ns hns q hq => ?_⟩
    · rw [List.count_eq_zero_of_not_mem (hfree (some q)), h]
      rfl
    · have hmem : some q ∈ ctx.qpairs := List.mem_flatMap.mpr ⟨ns, hns, hq⟩
      rw [h] at hmem
      cases hmem

def partialQpairs : Int × List NsEntry :=
  registerQpairs ⟨2, fun _ => true, fun _ i => if i = 0 then some 7 else none⟩ 0 [⟨20, 1, 5, none⟩]

/-- The queue pair that there is stays allocated, and the missing one is freed. -/
theorem null_qpair_freed :
    partialQpairs.1 = -enomem ∧
      spdkContextDetach ⟨[⟨10, 1⟩], partialQpairs.2, 0, 0⟩ = [.freeIoQpair none, .detach 1] ∧
      ¬ ReleasedOnce ⟨[⟨10, 1⟩], partialQpairs.2, 0, 0⟩
        (spdkContextDetach ⟨[⟨10, 1⟩], partialQpairs.2, 0, 0⟩) := by
  refine ⟨by decide, by decide, fun h => h.null (by decide)⟩

/-! ## Initialisation -/

/-- What the calls for one namespace return: the namespace, whether it is active, and the memory for
its entry. -/
structure NsCalls where
  ns : Option Nat
  active : Bool
  calloc : Option Nat
  deriving Repr, DecidableEq

/-- A call of `attach_cb`: the controller, the memory for its entry, and its namespaces. -/
structure Attach where
  ctrlr : Nat
  malloc : Option Nat
  namespaces : List NsCalls
  deriving Repr, DecidableEq

def Attach.memory (a : Attach) : List Nat :=
  a.malloc.toList ++ a.namespaces.filterMap NsCalls.calloc

/-- What the calls of `spdk_initialize` return, and the calls of `attach_cb` that the probe makes:
each for another controller. Memory is not given out twice. -/
structure InitCalls where
  envInit : Int
  attaches : List Attach
  probe : Int
  pthreadCreate : Int
  threadId : Nat
  qpairs : QpairCalls
  ctrlrs_nodup : (attaches.map Attach.ctrlr).Nodup
  memory_nodup : (attaches.flatMap Attach.memory).Nodup

def registerNs (ctx : Context) (ctrlr ns : Nat) (calls : NsCalls) : Int × Context :=
  if calls.active = false then (0, ctx)
  else
    match calls.calloc with
    | none => (-enomem, ctx)
    | some entry => (0, { ctx with namespaces := ⟨entry, ctrlr, ns, none⟩ :: ctx.namespaces })

def registerNamespaces (ctrlr : Nat) : Context → List NsCalls → Context
  | ctx, [] => ctx
  | ctx, calls :: rest =>
    match calls.ns with
    | none => registerNamespaces ctrlr ctx rest
    | some ns =>
      let r := registerNs ctx ctrlr ns calls
      if r.1 < 0 then { r.2 with attachError := r.1 } else registerNamespaces ctrlr r.2 rest

def attachCb (ctx : Context) (a : Attach) : Context :=
  match a.malloc with
  | none => { ctx with attachError := -enomem }
  | some entry =>
    registerNamespaces a.ctrlr { ctx with controllers := ⟨entry, a.ctrlr⟩ :: ctx.controllers }
      a.namespaces

/-- What `spdk_initialize` leaves: its return value, the context, whether it has released it, and
the calls of the release. -/
structure Initialized where
  result : Int
  ctx : Context
  released : Bool
  calls : List Call
  deriving Repr, DecidableEq

def releasing (result : Int) (ctx : Context) : Initialized :=
  ⟨result, (spdkContextCleanup ctx).1, true, (spdkContextCleanup ctx).2⟩

def InitCalls.attached (calls : InitCalls) (ctx : Context) : Context :=
  calls.attaches.foldl attachCb ctx

def spdkInitialize (calls : InitCalls) (ctx : Context) (primaryProc : Bool) : Initialized :=
  if calls.envInit < 0 then ⟨calls.envInit, ctx, false, []⟩
  else
    let ctx := calls.attached ctx
    if calls.probe ≠ 0 then releasing calls.probe ctx
    else if ctx.attachError ≠ 0 then releasing calls.probe ctx
    else if primaryProc then ⟨0, ctx, false, []⟩
    else if calls.pthreadCreate ≠ 0 then releasing calls.pthreadCreate ctx
    else
      let r := registerQpairs calls.qpairs 0 ctx.namespaces
      let ctx := { ctx with ctrlrThreadId := calls.threadId, namespaces := r.2 }
      if r.1 < 0 then releasing r.1 ctx else ⟨0, ctx, false, []⟩

def emptyContext : Context := ⟨[], [], 0, 0⟩

/-- The calls for the context that `main` of `sgx-lkl-userpci` makes. Whatever else fails or not,
it comes to the same end. -/
def userpciMain (calls : InitCalls) : List Call :=
  let init := spdkInitialize calls emptyContext true
  init.calls ++ (spdkContextDetach init.ctx ++ (spdkContextFree init.ctx).2)

def Call.detach? : Call → Option Nat
  | .detach ctrlr => some ctrlr
  | _ => none

def Call.freeEntry? : Call → Option Nat
  | .freeEntry entry => some entry
  | _ => none

/-- A failure is reported, and no controller is detached and no entry freed twice. -/
structure FailureHandled (calls : InitCalls) : Prop where
  reported : ∀ primaryProc, (spdkInitialize calls emptyContext primaryProc).released = true
      ∨ (spdkInitialize calls emptyContext primaryProc).ctx.attachError ≠ 0 →
    (spdkInitialize calls emptyContext primaryProc).result ≠ 0
  detach : ((userpciMain calls).filterMap Call.detach?).Nodup
  free : ((userpciMain calls).filterMap Call.freeEntry?).Nodup

def NsCalls.fails (calls : NsCalls) : Bool :=
  calls.ns.isSome && calls.active && calls.calloc.isNone

def Attach.fails (a : Attach) : Bool := a.malloc.isNone || a.namespaces.any NsCalls.fails

/-! ### What is in the lists -/

def Context.ctrlrs (ctx : Context) : List Nat := ctx.controllers.map CtrlrEntry.ctrlr

def Context.entries (ctx : Context) : List Nat :=
  ctx.namespaces.map NsEntry.entry ++ ctx.controllers.map CtrlrEntry.entry

theorem filterMap_spdkContextDetach (ctx : Context) :
    (spdkContextDetach ctx).filterMap Call.detach? = ctx.ctrlrs ∧
      (spdkContextDetach ctx).filterMap Call.freeEntry? = [] := by
  constructor
  · simp [spdkContextDetach, filterMap_flatMap, apply_ite (List.filterMap Call.detach?),
      Call.detach?, Context.ctrlrs, Function.comp_def]
  · simp [spdkContextDetach, filterMap_flatMap, apply_ite (List.filterMap Call.freeEntry?),
      Call.freeEntry?, Function.comp_def]

theorem filterMap_spdkContextFree (ctx : Context) :
    (spdkContextFree ctx).2.filterMap Call.detach? = [] ∧
      (spdkContextFree ctx).2.filterMap Call.freeEntry? = ctx.entries := by
  constructor
  · simp [spdkContextFree, filterMap_flatMap, apply_ite (List.filterMap Call.detach?),
      Call.detach?, Function.comp_def]
  · simp [spdkContextFree, filterMap_flatMap, apply_ite (List.filterMap Call.freeEntry?),
      filterMap_cons, Call.freeEntry?, Context.entries, map_eq_flatMap]

variable {ctrlr : Nat}

section

variable (ctx : Context) (calls : List NsCalls)

include ctx calls

theorem registerNamespaces_controllers :
    (registerNamespaces ctrlr ctx calls).controllers = ctx.controllers := by
  fun_induction registerNamespaces ctrlr ctx calls <;> grind [registerNs]

theorem registerNamespaces_attachError :
    (registerNamespaces ctrlr ctx calls).attachError
      = if calls.any NsCalls.fails then -enomem else ctx.attachError := by
  fun_induction registerNamespaces ctrlr ctx calls <;> grind [registerNs, NsCalls.fails, enomem]

theorem count_registerNamespaces (entry : Nat) :
    ((registerNamespaces ctrlr ctx calls).namespaces.map NsEntry.entry).count entry
      ≤ (ctx.namespaces.map NsEntry.entry).count entry
        + (calls.filterMap NsCalls.calloc).count entry := by
  fun_induction registerNamespaces ctrlr ctx calls <;> grind [registerNs]

end

variable {attaches : List Attach}

section

variable (ctx : Context)

include ctx

theorem attachCb_controllers (a : Attach) :
    (attachCb ctx a).controllers
      = (a.malloc.map fun entry => ⟨entry, a.ctrlr⟩).toList ++ ctx.controllers := by
  unfold attachCb
  cases a.malloc with
  | none => rfl
  | some entry => exact registerNamespaces_controllers _ _

theorem attachCb_attachError (a : Attach) :
    (attachCb ctx a).attachError = if a.fails then -enomem else ctx.attachError := by
  unfold attachCb Attach.fails
  cases a.malloc with
  | none => rfl
  | some entry => exact registerNamespaces_attachError _ _

theorem count_entries_attachCb (a : Attach) (entry : Nat) :
    (attachCb ctx a).entries.count entry ≤ ctx.entries.count entry + a.memory.count entry := by
  unfold attachCb Attach.memory
  cases a.malloc with
  | none => exact Nat.le_add_right _ _
  | some e =>
    have hns := @count_registerNamespaces a.ctrlr
      { ctx with controllers := ⟨e, a.ctrlr⟩ :: ctx.controllers } a.namespaces entry
    simp only [Context.entries, registerNamespaces_controllers, count_append, map_cons,
      count_cons, Option.toList_some, count_nil] at hns ⊢
    omega

theorem attachAll_lists (c entry : Nat) :
    (attaches.foldl attachCb ctx).ctrlrs.count c
        ≤ ctx.ctrlrs.count c + (attaches.map Attach.ctrlr).count c ∧
      (attaches.foldl attachCb ctx).entries.count entry
        ≤ ctx.entries.count entry + (attaches.flatMap Attach.memory).count entry := by
  induction attaches generalizing ctx with
  | nil => exact ⟨Nat.le_add_right _ _, Nat.le_add_right _ _⟩
  | cons a attaches ih =>
    obtain ⟨hctrlrs, hentries⟩ := ih (attachCb ctx a)
    have hentry := count_entries_attachCb ctx a entry
    have hctrlr : (attachCb ctx a).ctrlrs.count c ≤ ctx.ctrlrs.count c + [a.ctrlr].count c := by
      rw [Context.ctrlrs, attachCb_controllers]
      cases a.malloc <;> simp [Context.ctrlrs, count_cons]
    rw [foldl_cons, map_cons, flatMap_cons, count_append,
      ← singleton_append, count_append]
    omega

theorem attachAll_attachError :
    (attaches.foldl attachCb ctx).attachError
      = if attaches.any Attach.fails then -enomem else ctx.attachError := by
  induction attaches generalizing ctx with
  | nil => rfl
  | cons a attaches ih =>
    rw [foldl_cons, ih, attachCb_attachError, any_cons]
    cases a.fails <;> simp

theorem attachAll_ctrlrs_eq_nil_iff :
    (attaches.foldl attachCb ctx).ctrlrs = []
      ↔ (∀ a ∈ attaches, a.malloc = none) ∧ ctx.ctrlrs = [] := by
  induction attaches generalizing ctx with
  | nil => simp
  | cons a attaches ih =>
    rw [foldl_cons, ih, forall_mem_cons, Context.ctrlrs, attachCb_controllers]
    cases a.malloc <;> simp [Context.ctrlrs]

theorem attachAll_entries_of_none (h : ∀ a ∈ attaches, a.malloc = none) :
    (attaches.foldl attachCb ctx).entries = ctx.entries := by
  induction attaches generalizing ctx with
  | nil => rfl
  | cons a attaches ih =>
    obtain ⟨ha, hattaches⟩ := forall_mem_cons.mp h
    rw [foldl_cons, ih _ hattaches, attachCb, ha]
    rfl

end

/-! ### When a failure is handled -/

def InitCalls.Succeeds (calls : InitCalls) : Prop :=
  calls.probe = 0 ∧ ∀ a ∈ calls.attaches, a.fails = false

variable {calls : InitCalls}

theorem succeeds_iff :
    calls.Succeeds ↔ calls.probe = 0 ∧ (calls.attached emptyContext).attachError = 0 := by
  rw [InitCalls.Succeeds, InitCalls.attached, attachAll_attachError]
  by_cases hany : calls.attaches.any Attach.fails = true
  · have hsome : ¬ ∀ a ∈ calls.attaches, a.fails = false := by simpa using hany
    rw [if_pos hany]
    exact and_congr_right fun _ => iff_of_false hsome (by decide)
  · have hnone : ∀ a ∈ calls.attaches, a.fails = false := by simpa using hany
    rw [if_neg hany]
    exact and_congr_right fun _ => iff_of_true hnone rfl

theorem spdkInitialize_of_not_succeeds (primaryProc : Bool) (henv : 0 ≤ calls.envInit)
    (h : ¬ calls.Succeeds) :
    spdkInitialize calls emptyContext primaryProc
      = releasing calls.probe (calls.attached emptyContext) := by
  rw [succeeds_iff, not_and] at h
  rw [spdkInitialize, if_neg (not_lt.mpr henv)]
  by_cases hprobe : calls.probe = 0
  · simp [hprobe, h hprobe]
  · simp [hprobe]

theorem userpciMain_of_not_succeeds (henv : 0 ≤ calls.envInit) (h : ¬ calls.Succeeds) :
    (userpciMain calls).filterMap Call.detach?
        = (calls.attached emptyContext).ctrlrs ++ (calls.attached emptyContext).ctrlrs ∧
      (userpciMain calls).filterMap Call.freeEntry?
        = (calls.attached emptyContext).entries ++ (calls.attached emptyContext).entries := by
  rw [userpciMain, spdkInitialize_of_not_succeeds true henv h]
  simp only [releasing, spdkContextCleanup, filterMap_append, filterMap_spdkContextDetach,
    filterMap_spdkContextFree, append_nil, nil_append]
  exact ⟨rfl, rfl⟩

theorem userpciMain_of_succeeds (henv : 0 ≤ calls.envInit) (h : calls.Succeeds) :
    (userpciMain calls).filterMap Call.detach? = (calls.attached emptyContext).ctrlrs ∧
      (userpciMain calls).filterMap Call.freeEntry? = (calls.attached emptyContext).entries := by
  obtain ⟨hprobe, herror⟩ := succeeds_iff.mp h
  have hinit : spdkInitialize calls emptyContext true
      = ⟨0, calls.attached emptyContext, false, []⟩ := by
    rw [spdkInitialize, if_neg (not_lt.mpr henv)]
    simp [hprobe, herror]
  rw [userpciMain, hinit]
  simp [filterMap_spdkContextDetach, filterMap_spdkContextFree]

theorem attached_nodup (calls : InitCalls) :
    (calls.attached emptyContext).ctrlrs.Nodup ∧ (calls.attached emptyContext).entries.Nodup := by
  have hlists (c entry : Nat) := @attachAll_lists calls.attaches emptyContext c entry
  have hctrlrs := nodup_iff_count_le_one.mp calls.ctrlrs_nodup
  have hmemory := nodup_iff_count_le_one.mp calls.memory_nodup
  refine ⟨nodup_iff_count_le_one.mpr fun c => ?_, nodup_iff_count_le_one.mpr fun e => ?_⟩
  · exact (hlists c 0).1.trans ((Nat.zero_add _).trans_le (hctrlrs c))
  · exact (hlists 0 e).2.trans ((Nat.zero_add _).trans_le (hmemory e))

theorem reported_of_succeeds (henv : 0 ≤ calls.envInit) (h : calls.Succeeds) (primaryProc : Bool)
    (hfailed : (spdkInitialize calls emptyContext primaryProc).released = true
      ∨ (spdkInitialize calls emptyContext primaryProc).ctx.attachError ≠ 0) :
    (spdkInitialize calls emptyContext primaryProc).result ≠ 0 := by
  obtain ⟨hprobe, herror⟩ := succeeds_iff.mp h
  revert hfailed
  rw [spdkInitialize, if_neg (not_lt.mpr henv)]
  simp only [hprobe, herror, ne_eq, not_true_eq_false, if_false]
  cases primaryProc with
  | true => simp [herror]
  | false =>
    by_cases hthread : calls.pthreadCreate = 0
    · simp only [hthread, Bool.false_eq_true, not_true_eq_false, if_false]
      split
      case isTrue hneg => exact fun _ => hneg.ne
      case isFalse => simp
    · simp [hthread, releasing]

/-- **A failure is reported and cleaned up once** exactly if the environment is not initialised, or
the probe succeeds with all its callbacks, or it fails and none of them has got memory for its
controller. -/
theorem failure_handled_iff (calls : InitCalls) :
    FailureHandled calls ↔ calls.envInit < 0 ∨ calls.Succeeds ∨
      calls.probe ≠ 0 ∧ ∀ a ∈ calls.attaches, a.malloc = none := by
  by_cases henv : calls.envInit < 0
  · have hinit (primaryProc : Bool) : spdkInitialize calls emptyContext primaryProc
        = ⟨calls.envInit, emptyContext, false, []⟩ := by
      rw [spdkInitialize, if_pos henv]
    have hmain : userpciMain calls = [] := by
      rw [userpciMain, hinit]
      rfl
    refine iff_of_true ⟨?_, ?_, ?_⟩ (Or.inl henv)
    · intro primaryProc _
      rw [hinit]
      exact henv.ne
    · rw [hmain]
      exact List.nodup_nil
    · rw [hmain]
      exact List.nodup_nil
  · rw [or_iff_right henv]
    have henv := not_lt.mp henv
    obtain ⟨hctrlrs, hentries⟩ := attached_nodup calls
    by_cases h : calls.Succeeds
    · obtain ⟨hdetach, hfree⟩ := userpciMain_of_succeeds henv h
      exact iff_of_true ⟨reported_of_succeeds henv h, hdetach ▸ hctrlrs, hfree ▸ hentries⟩ (.inl h)
    · rw [or_iff_right h]
      obtain ⟨hdetach, hfree⟩ := userpciMain_of_not_succeeds henv h
      have hinit := fun primaryProc => spdkInitialize_of_not_succeeds primaryProc henv h
      constructor
      · rintro ⟨hreported, hnodup, -⟩
        have hprobe := hreported true (by rw [hinit]; exact Or.inl rfl)
        rw [hinit] at hprobe
        rw [hdetach] at hnodup
        have hnil : (calls.attached emptyContext).ctrlrs = [] :=
          List.eq_nil_iff_forall_not_mem.mpr fun c hc =>
            (List.nodup_append.mp hnodup).2.2 c hc c hc rfl
        exact ⟨hprobe, ((attachAll_ctrlrs_eq_nil_iff emptyContext).mp hnil).1⟩
      · rintro ⟨hprobe, hnone⟩
        refine ⟨?_, ?_, ?_⟩
        · intro primaryProc _
          rw [hinit]
          exact hprobe
        · rw [hdetach, InitCalls.attached,
            (attachAll_ctrlrs_eq_nil_iff emptyContext).mpr ⟨hnone, rfl⟩]
          exact List.nodup_nil
        · rw [hfree, InitCalls.attached, attachAll_entries_of_none emptyContext hnone]
          exact List.nodup_nil

def secondAttachFails : InitCalls where
  envInit := 0
  attaches := [⟨1, some 10, []⟩, ⟨2, none, []⟩]
  probe := 0
  pthreadCreate := 0
  threadId := 1
  qpairs := ⟨1, fun _ => true, fun _ _ => none⟩
  ctrlrs_nodup := by decide
  memory_nodup := by decide

/-- The failure is reported as a success, and the first controller is detached and its entry freed
a second time. -/
theorem failed_attach_released_twice :
    (spdkInitialize secondAttachFails emptyContext true).released = true ∧
      (spdkInitialize secondAttachFails emptyContext true).ctx.attachError = -enomem ∧
      (spdkInitialize secondAttachFails emptyContext true).result = 0 ∧
      userpciMain secondAttachFails = [.detach 1, .freeEntry 10, .detach 1, .freeEntry 10] ∧
      ¬ FailureHandled secondAttachFails := by
  refine ⟨by decide, by decide, by decide, by decide, fun h => ?_⟩
  exact h.reported true (Or.inl (by decide)) (by decide)

end RktIo.Spdk
