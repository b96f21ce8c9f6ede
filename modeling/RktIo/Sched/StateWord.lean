import Mathlib

/-!
# The state word of an lthread (`attr.state`)

The flags of an lthread are bits of one `int`, which its own scheduler and other lthreads
write. The operations that other lthreads perform on it (`lthread_detach2`, `lthread_cancel`,
and the lock and unlock of `lthread_join`) each write one flag.

* `LtState.test`, `LtState.set`, `LtState.clear` — `state & BIT(b)`, `state |= BIT(b)` and
  `state &= CLEARBIT(b)`;
* **`opsResult_test_detach`**, **`opsResult_test_cancelled`**, **`opsResult_test_busy`** — what
  a sequence of operations leaves in the word.
-/

namespace RktIo.Sched

open List

inductive LtSt where
  | new
  | ready
  | exited
  | busy
  | sleeping
  | expired
  | detach
  | cancelled
  | cancelState
  | cancelDisabled
  | pinned
  deriving Repr, DecidableEq

abbrev LtState := BitVec 32

def LtSt.bit (b : LtSt) : LtState := 1#32 <<< b.ctorIdx

theorem LtSt.ctorIdx_lt (b : LtSt) : b.ctorIdx < 32 := by
  cases b <;> decide

theorem LtSt.getLsbD_bit (b c : LtSt) : b.bit.getLsbD c.ctorIdx = decide (b = c) := by
  cases b <;> cases c <;> decide

namespace LtState

def test (w : LtState) (b : LtSt) : Bool := w &&& b.bit != 0

def set (w : LtState) (b : LtSt) : LtState := w ||| b.bit

def clear (w : LtState) (b : LtSt) : LtState := w &&& ~~~b.bit

theorem test_eq_getLsbD (w : LtState) (b : LtSt) : w.test b = w.getLsbD b.ctorIdx := by
  have hbit : b.bit = BitVec.twoPow 32 b.ctorIdx := (BitVec.twoPow_eq 32 b.ctorIdx).symm
  rw [test, hbit, BitVec.and_twoPow]
  cases w.getLsbD b.ctorIdx with
  | false => rfl
  | true => cases b <;> decide

@[simp] theorem test_set (w : LtState) (b c : LtSt) :
    (w.set b).test c = (w.test c || decide (b = c)) := by
  simp only [test_eq_getLsbD, set, BitVec.getLsbD_or, LtSt.getLsbD_bit]

@[simp] theorem test_clear (w : LtState) (b c : LtSt) :
    (w.clear b).test c = (w.test c && !decide (b = c)) := by
  simp only [test_eq_getLsbD, clear, BitVec.getLsbD_and, BitVec.getLsbD_not, LtSt.getLsbD_bit,
    LtSt.ctorIdx_lt, decide_true, Bool.true_and]

end LtState

inductive LtOp where
  | detach2
  | cancel
  | lock
  | unlock
  deriving Repr, DecidableEq

def lthreadDeschedSleep (w : LtState) : LtState :=
  if w.test .sleeping then ((w.clear .sleeping).set .ready).clear .expired else w

theorem lthreadDeschedSleep_test (w : LtState) {b : LtSt}
    (hb : b ∉ [LtSt.sleeping, .ready, .expired]) :
    (lthreadDeschedSleep w).test b = w.test b := by
  simp only [mem_cons, not_mem_nil, or_false, not_or] at hb
  obtain ⟨hs, hr, he⟩ := hb
  unfold lthreadDeschedSleep
  split
  · simp [Ne.symm hs, Ne.symm hr, Ne.symm he]
  · rfl

namespace LtOp

def enabled : LtOp → LtState → Bool
  | .detach2, w | .lock, w => !w.test .busy
  | .cancel, _ | .unlock, _ => true

def apply : LtOp → LtState → LtState
  | .detach2, w => w.set .detach
  | .cancel, w => if w.test .cancelState then w else lthreadDeschedSleep (w.set .cancelled)
  | .lock, w => w.set .busy
  | .unlock, w => w.clear .busy

def step (op : LtOp) (w : LtState) : Option LtState :=
  if op.enabled w then some (op.apply w) else none

def busy? : LtOp → Option Bool
  | .lock => some true
  | .unlock => some false
  | .detach2 | .cancel => none

theorem cancel_apply_test (w : LtState) {b : LtSt} (hb : b ∉ [LtSt.sleeping, .ready, .expired]) :
    (LtOp.cancel.apply w).test b =
      (w.test b || (decide (LtSt.cancelled = b) && !w.test .cancelState)) := by
  simp only [apply]
  split
  · simp [*]
  · rw [lthreadDeschedSleep_test _ hb, LtState.test_set]
    simp [*]

section

variable (op : LtOp) (w : LtState)

include op w

theorem apply_test_detach :
    (op.apply w).test .detach = (w.test .detach || decide (.detach2 = op)) := by
  cases op with
  | cancel => simp [cancel_apply_test]
  | _ => simp [apply]

theorem apply_test_cancelState : (op.apply w).test .cancelState = w.test .cancelState := by
  cases op with
  | cancel => simp [cancel_apply_test]
  | _ => simp [apply]

theorem apply_test_cancelled :
    (op.apply w).test .cancelled =
      (w.test .cancelled || (decide (.cancel = op) && !w.test .cancelState)) := by
  cases op with
  | cancel => simp [cancel_apply_test]
  | _ => simp [apply]

theorem apply_test_busy : (op.apply w).test .busy = op.busy?.getD (w.test .busy) := by
  cases op with
  | cancel => simp [cancel_apply_test, busy?]
  | _ => simp [apply, busy?]

end

end LtOp

def opsResult (w : LtState) (ops : List LtOp) : LtState :=
  ops.foldl (fun w op => op.apply w) w

theorem opsResult_test_detach (w : LtState) (ops : List LtOp) :
    (opsResult w ops).test .detach = (w.test .detach || decide (.detach2 ∈ ops)) := by
  induction ops generalizing w with
  | nil => simp [opsResult]
  | cons op ops ih =>
    rw [opsResult, foldl_cons, ← opsResult, ih, LtOp.apply_test_detach]
    simp [Bool.or_assoc]

theorem opsResult_test_cancelled (w : LtState) (ops : List LtOp) :
    (opsResult w ops).test .cancelled =
      (w.test .cancelled || (decide (.cancel ∈ ops) && !w.test .cancelState)) := by
  induction ops generalizing w with
  | nil => simp [opsResult]
  | cons op ops ih =>
    rw [opsResult, foldl_cons, ← opsResult, ih, LtOp.apply_test_cancelled,
      LtOp.apply_test_cancelState]
    simp [Bool.or_assoc, Bool.and_or_distrib_right]

theorem opsResult_test_busy (w : LtState) (ops : List LtOp) :
    (opsResult w ops).test .busy =
      (ops.filterMap LtOp.busy?).getLast?.getD (w.test .busy) := by
  induction ops generalizing w with
  | nil => rfl
  | cons op ops ih =>
    rw [opsResult, foldl_cons, ← opsResult, ih, LtOp.apply_test_busy, filterMap_cons]
    cases op.busy? with
    | none => rfl
    | some b => simp [getLast?_cons]

end RktIo.Sched
