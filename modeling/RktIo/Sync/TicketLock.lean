import RktIo.Lib.SeqNum
import RktIo.Lib.Transition

/-!
# The ticket lock (`include/ticketlock.h`)

`n` threads call `ticket_lock`, `ticket_trylock` and `ticket_unlock` on one lock. Its two
halves are words of 32 bits that wrap; `ticket_trylock` compares and swaps them as one word of
64 bits. Every access to the lock is one step, `ticket++` in `ticket_unlock` is two.

The state also records who has taken a ticket and who has obtained the lock, in order, and how
many threads held the lock or waited for it when a `ticket_trylock` succeeded.
-/

namespace RktIo.Sync

open Transition Function List

/-! ## The lock -/

structure TicketLock where
  ticket : BitVec 32
  users : BitVec 32
  deriving Repr, DecidableEq

def TicketLock.u (l : TicketLock) : BitVec 64 := l.users ++ l.ticket

def TicketLock.ofU (u : BitVec 64) : TicketLock := ⟨u.extractLsb' 0 32, u.extractLsb' 32 32⟩

def packU (hi lo : BitVec 32) : BitVec 64 := (hi.setWidth 64 <<< 32) + lo.setWidth 64

inductive TicketPc where
  | idle
  /-- `me = a_fetch_add_uint(&t->s.users, 1)` -/
  | lockAdd
  /-- `while (t->s.ticket != me)` -/
  | lockSpin (me : BitVec 32)
  | holding
  /-- `t->s.ticket++`, the load -/
  | unlockLoad
  /-- `t->s.ticket++`, the store -/
  | unlockStore (ticket : BitVec 32)
  /-- `me = t->s.users` -/
  | tryLoad
  /-- `a_cas_64(&t->u, cmp, cmpnew)` -/
  | tryCas (me : BitVec 32)
  deriving Repr, DecidableEq

def TicketPc.holds : TicketPc → Bool
  | .holding | .unlockLoad | .unlockStore _ => true
  | _ => false

def TicketPc.waits : TicketPc → Bool
  | .lockSpin _ => true
  | _ => false

/-- The lock, the threads, and the record of the run: `tickets` are the threads in the order in
which they have increased `users`, `obtained` in the order in which they have got the lock, each
with the information whether it was `ticket_lock`; `tryGranted` has, for each successful
`ticket_trylock`, the number of threads that held the lock or waited for it. -/
structure TicketSys (n : Nat) where
  lock : TicketLock
  threads : Fin n → TicketPc
  tickets : List (Fin n × Bool)
  obtained : List (Fin n × Bool)
  tryGranted : List Nat

variable {n : Nat}

namespace TicketSys

def initial (n : Nat) : TicketSys n := ⟨⟨0, 0⟩, fun _ => .idle, [], [], []⟩

def goto (s : TicketSys n) (t : Fin n) (pc : TicketPc) : TicketSys n :=
  { s with threads := update s.threads t pc }

def holders (s : TicketSys n) : Nat :=
  (Finset.univ.filter (fun t => (s.threads t).holds = true)).card

def waiters (s : TicketSys n) : Nat :=
  (Finset.univ.filter (fun t => (s.threads t).waits = true)).card

def run (s : TicketSys n) (t : Fin n) : TicketPc → Option (TicketSys n)
  | .lockAdd =>
    some ({ s with
      lock := { s.lock with users := s.lock.users + 1 }
      tickets := s.tickets ++ [(t, true)] }.goto t (.lockSpin s.lock.users))
  | .lockSpin me =>
    if s.lock.ticket ≠ me then some s
    else some ({ s with obtained := s.obtained ++ [(t, true)] }.goto t .holding)
  | .unlockLoad => some (s.goto t (.unlockStore s.lock.ticket))
  | .unlockStore ticket =>
    some ({ s with lock := { s.lock with ticket := ticket + 1 } }.goto t .idle)
  | .tryLoad => some (s.goto t (.tryCas s.lock.users))
  | .tryCas me =>
    let menew := me + 1
    let cmp := packU me me
    let cmpnew := packU menew me
    if s.lock.u = cmp then
      some ({ s with
        lock := .ofU cmpnew
        tickets := s.tickets ++ [(t, false)]
        obtained := s.obtained ++ [(t, false)]
        tryGranted := s.tryGranted ++ [s.holders + s.waiters] }.goto t .holding)
    else some (s.goto t .idle)
  | .idle | .holding => none

end TicketSys

inductive TicketStep (n : Nat) where
  | lock (t : Fin n)
  | trylock (t : Fin n)
  | unlock (t : Fin n)
  | run (t : Fin n)

def ticketStep (s : TicketSys n) : TicketStep n → Option (TicketSys n)
  | .lock t => if s.threads t = .idle then some (s.goto t .lockAdd) else none
  | .trylock t => if s.threads t = .idle then some (s.goto t .tryLoad) else none
  | .unlock t => if s.threads t = .holding then some (s.goto t .unlockLoad) else none
  | .run t => s.run t (s.threads t)

def TicketStep.thread : TicketStep n → Fin n
  | .lock t | .trylock t | .unlock t | .run t => t

/-! ## The two halves of the lock -/

theorem packU_eq (hi lo : BitVec 32) : packU hi lo = hi ++ lo := by
  apply BitVec.eq_of_toNat_eq
  have hhi := hi.isLt
  have hlo := lo.isLt
  simp only [packU, BitVec.toNat_add, BitVec.toNat_shiftLeft, BitVec.toNat_setWidth,
    BitVec.toNat_append, Nat.shiftLeft_eq]
  rw [← Nat.shiftLeft_eq hi.toNat, ← Nat.shiftLeft_add_eq_or_of_lt hlo, Nat.shiftLeft_eq]
  omega

theorem ofU_packU (hi lo : BitVec 32) : TicketLock.ofU (packU hi lo) = ⟨lo, hi⟩ := by
  rw [packU_eq, TicketLock.ofU, BitVec.extractLsb'_append_eq_left,
    BitVec.extractLsb'_append_eq_right]

theorem ofU_u (l : TicketLock) : TicketLock.ofU l.u = l := by
  rw [TicketLock.u, ← packU_eq, ofU_packU]

variable {me : BitVec 32}

theorem eq_of_u_eq {l : TicketLock} (h : l.u = packU me me) : l = ⟨me, me⟩ := by
  rw [← ofU_u l, h, ofU_packU]

/-! ## Holder and queue -/

/-- `holder` holds the lock and the threads of `queue` wait for it, in the order of their
tickets. -/
structure TicketSys.Inv (s : TicketSys n) (holder : Option (Fin n)) (queue : List (Fin n)) :
    Prop where
  users : s.lock.users = s.lock.ticket + BitVec.ofNat 32 (holder.toList.length + queue.length)
  nodup : (holder.toList ++ queue).Nodup
  holds : ∀ t, (s.threads t).holds = true ↔ holder = some t
  waits : ∀ t, (s.threads t).waits = true ↔ t ∈ queue
  ticket : ∀ i t, queue[i]? = some t →
    s.threads t = .lockSpin (s.lock.ticket + BitVec.ofNat 32 (holder.toList.length + i))
  store : ∀ t v, s.threads t = .unlockStore v → v = s.lock.ticket
  order : s.tickets = s.obtained ++ queue.map (fun t => (t, true))
  tried : ∀ c ∈ s.tryGranted, c = 0

/-- The steps of a holder until the lock is free. -/
def TicketPc.left : TicketPc → Nat
  | .holding => 3
  | .unlockLoad => 2
  | .unlockStore _ => 1
  | _ => 0

/-- What a step of `t` does to holder and queue. -/
inductive Turn (s s' : TicketSys n) (t : Fin n) :
    Option (Fin n) → List (Fin n) → Option (Fin n) → List (Fin n) → Prop where
  /-- It was not the turn of `t`. -/
  | other {holder : Option (Fin n)} {queue queue' : List (Fin n)} (hholder : holder ≠ some t)
      (hhead : holder = none → queue.head? ≠ some t) (hext : queue <+: queue') :
      Turn s s' t holder queue holder queue'
  | unlock {queue : List (Fin n)} (hleft : (s'.threads t).left < (s.threads t).left) :
      Turn s s' t (some t) queue (some t) queue
  | release {queue : List (Fin n)} : Turn s s' t (some t) queue none queue
  | get {queue : List (Fin n)} (ht : s'.threads t = .holding) :
      Turn s s' t none (t :: queue) (some t) queue
  | tryGet {queue : List (Fin n)} : Turn s s' t none [] (some t) queue

namespace TicketSys.Inv

variable {s s' : TicketSys n} {holder : Option (Fin n)} {queue : List (Fin n)} {t : Fin n}

theorem initial (n : Nat) : (TicketSys.initial n).Inv none [] := by
  constructor <;> simp [TicketSys.initial, TicketPc.holds, TicketPc.waits]

theorem length_le (hs : s.Inv holder queue) : holder.toList.length + queue.length ≤ n := by
  have hle := hs.nodup.length_le_card
  rwa [length_append, Fintype.card_fin] at hle

theorem holders_eq (hs : s.Inv holder queue) : s.holders = holder.toList.length := by
  have hset : Finset.univ.filter (fun t => (s.threads t).holds = true) = holder.toFinset := by
    ext t
    simp [hs.holds]
  rw [TicketSys.holders, hset]
  cases holder <;> rfl

theorem waiters_eq (hs : s.Inv holder queue) : s.waiters = queue.length := by
  have hset : Finset.univ.filter (fun t => (s.threads t).waits = true) = queue.toFinset := by
    ext t
    simp [hs.waits]
  rw [TicketSys.waiters, hset]
  exact toFinset_card_of_nodup hs.nodup.of_append_right

theorem ticket_eq_iff (hn : n < 2 ^ 32 - 1) (hs : s.Inv holder queue) {i : Nat}
    (hi : i ≤ holder.toList.length + queue.length) :
    s.lock.ticket = s.lock.ticket + BitVec.ofNat 32 i ↔ i = 0 := by
  have hle := hs.length_le
  rw [left_eq_add, show (0 : BitVec 32) = BitVec.ofNat 32 0 from rfl, eq_comm,
    SeqNum.ofNat_eq_iff (Nat.zero_le i) (by omega), eq_comm]

section

variable (hs : s.Inv holder queue)

include hs

theorem places (t : Fin n) (pc : TicketPc) (holder' : Option (Fin n)) (queue' : List (Fin n))
    (hholds : pc.holds = true ↔ holder' = some t) (hwaits : pc.waits = true ↔ t ∈ queue')
    (hholder : ∀ u ≠ t, holder = some u ↔ holder' = some u)
    (hqueue : ∀ u ≠ t, u ∈ queue ↔ u ∈ queue') :
    (∀ u, (update s.threads t pc u).holds = true ↔ holder' = some u) ∧
      ∀ u, (update s.threads t pc u).waits = true ↔ u ∈ queue' := by
  constructor
  · intro u
    by_cases hu : u = t
    · subst u
      rw [update_self]
      exact hholds
    · rw [update_of_ne hu, hs.holds, hholder u hu]
  · intro u
    by_cases hu : u = t
    · subst u
      rw [update_self]
      exact hwaits
    · rw [update_of_ne hu, hs.waits, hqueue u hu]

theorem store_update {pc : TicketPc} {ticket : BitVec 32}
    (hpc : ∀ v, pc = .unlockStore v → v = ticket)
    (hother : ∀ u ≠ t, holder = some u → s.lock.ticket = ticket) :
    ∀ u v, update s.threads t pc u = .unlockStore v → v = ticket := by
  intro u v hv
  by_cases hu : u = t
  · subst u
    rw [update_self] at hv
    exact hpc v hv
  · rw [update_of_ne hu] at hv
    rw [hs.store u v hv]
    exact hother u hu ((hs.holds u).mp (by rw [hv]; rfl))

theorem goto {pc : TicketPc} (hholds : pc.holds = (s.threads t).holds)
    (hold : (s.threads t).waits = false) (hwaits : pc.waits = false)
    (hstore : ∀ v, pc = .unlockStore v → v = s.lock.ticket) : (s.goto t pc).Inv holder queue := by
  have hqueue : t ∉ queue := by
    rw [← hs.waits, hold]
    exact Bool.false_ne_true
  obtain ⟨hholds', hwaits'⟩ := hs.places t pc holder queue (by rw [hholds, hs.holds])
    (by simp [hwaits, hqueue]) (fun _ _ => Iff.rfl) (fun _ _ => Iff.rfl)
  refine ⟨hs.users, hs.nodup, hholds', hwaits', ?_, hs.store_update hstore (fun _ _ _ => rfl),
    hs.order, hs.tried⟩
  intro i u hu
  have hne : u ≠ t := fun h => hqueue (h ▸ mem_of_getElem? hu)
  simpa [TicketSys.goto, hne] using hs.ticket i u hu

theorem lockAdd (hpc : s.threads t = .lockAdd) (h : s.run t .lockAdd = some s') :
    s'.Inv holder (queue ++ [t]) := by
  cases h
  have hholder : holder ≠ some t := by
    rw [Ne, ← hs.holds, hpc]
    exact Bool.false_ne_true
  have hqueue : t ∉ queue := by
    rw [← hs.waits, hpc]
    exact Bool.false_ne_true
  obtain ⟨hholds', hwaits'⟩ := hs.places t (.lockSpin s.lock.users) holder (queue ++ [t])
    (by simp [TicketPc.holds, hholder]) (by simp [TicketPc.waits]) (fun _ _ => Iff.rfl)
    (fun u hu => by simp [hu])
  refine ⟨?_, ?_, hholds', hwaits', ?_, hs.store_update nofun (fun _ _ _ => rfl), ?_, hs.tried⟩
  · simp only [TicketSys.goto, hs.users, List.length_append, List.length_singleton]
    rw [BitVec.add_assoc, show (1 : BitVec 32) = BitVec.ofNat 32 1 from rfl, ← BitVec.ofNat_add,
      Nat.add_assoc]
  · rw [← List.append_assoc, List.nodup_append]
    refine ⟨hs.nodup, List.nodup_singleton t, ?_⟩
    rintro u hu v hv rfl
    obtain rfl := List.mem_singleton.mp hv
    rcases List.mem_append.mp hu with hu | hu
    · exact hholder (Option.mem_toList.mp hu)
    · exact hqueue hu
  · intro i u hu
    rw [List.getElem?_append] at hu
    split at hu
    · have hne : u ≠ t := fun h => hqueue (h ▸ List.mem_of_getElem? hu)
      simpa [TicketSys.goto, hne] using hs.ticket i u hu
    · -- the new place, whose ticket is the old value of `users`
      obtain ⟨hi, rfl⟩ := List.getElem?_eq_some_iff.mp hu
      obtain rfl : i = queue.length := by
        simp only [List.length_singleton] at hi
        omega
      simp [TicketSys.goto, hs.users]
  · simp [TicketSys.goto, hs.order]

end

section

variable (hn : n < 2 ^ 32 - 1) (hs : s.Inv holder queue)

include hn hs

theorem first_of_ticket (hpc : s.threads t = .lockSpin me)
    (hme : s.lock.ticket = me) : holder = none ∧ ∃ rest, queue = t :: rest := by
  have hmem : t ∈ queue := by
    rw [← hs.waits, hpc]
    rfl
  obtain ⟨i, hi⟩ := List.mem_iff_getElem?.mp hmem
  have hspin := hs.ticket i t hi
  rw [hpc, TicketPc.lockSpin.injEq, ← hme] at hspin
  have hlt := (List.getElem?_eq_some_iff.mp hi).1
  have hzero := (hs.ticket_eq_iff hn (by omega)).mp hspin
  obtain rfl : i = 0 := by omega
  constructor
  · cases holder with
    | none => rfl
    | some u => simp at hzero
  · cases queue with
    | nil => cases hmem
    | cons u rest =>
      cases hi
      exact ⟨rest, rfl⟩

theorem lockSpin (hpc : s.threads t = .lockSpin me) (hme : s.lock.ticket = me) :
    ∃ rest, holder = none ∧ queue = t :: rest ∧
      ({ s with obtained := s.obtained ++ [(t, true)] }.goto t .holding).Inv (some t) rest := by
  obtain ⟨rfl, rest, rfl⟩ := hs.first_of_ticket hn hpc hme
  have hrest : t ∉ rest := (nodup_cons.mp (by simpa using hs.nodup)).1
  obtain ⟨hholds', hwaits'⟩ := hs.places t .holding (some t) rest (by simp [TicketPc.holds])
    (by simp [TicketPc.waits, hrest]) (fun u hu => by simp [Ne.symm hu])
    (fun u hu => by simp [hu])
  refine ⟨rest, rfl, rfl, ?_, by simpa using hs.nodup, hholds', hwaits', ?_,
    hs.store_update nofun (fun _ _ _ => rfl), ?_, hs.tried⟩
  · simpa [TicketSys.goto, Nat.add_comm] using hs.users
  · intro i u hu
    have hne : u ≠ t := fun h => hrest (h ▸ mem_of_getElem? hu)
    simpa [TicketSys.goto, hne, Nat.add_comm] using hs.ticket (i + 1) u (by simpa using hu)
  · simp [TicketSys.goto, hs.order]

theorem free_of_cas (hcas : s.lock.u = packU me me) :
    holder = none ∧ queue = [] := by
  have hlock := eq_of_u_eq hcas
  have husers := hs.users
  rw [hlock] at husers
  have hzero := (hs.ticket_eq_iff hn le_rfl).mp (by rw [hlock]; exact husers)
  constructor
  · cases holder with
    | none => rfl
    | some u => simp at hzero
  · exact eq_nil_of_length_eq_zero (by omega)

theorem tryCas (hcas : s.lock.u = packU me me) :
    ({ s with
      lock := .ofU (packU (me + 1) me)
      tickets := s.tickets ++ [(t, false)]
      obtained := s.obtained ++ [(t, false)]
      tryGranted := s.tryGranted ++ [s.holders + s.waiters] }.goto t .holding).Inv (some t) [] := by
  have hcount : s.holders + s.waiters = holder.toList.length + queue.length := by
    rw [hs.holders_eq, hs.waiters_eq]
  obtain ⟨rfl, rfl⟩ := hs.free_of_cas hn hcas
  obtain ⟨hholds', hwaits'⟩ := hs.places t .holding (some t) [] (by simp [TicketPc.holds])
    (by simp [TicketPc.waits]) (fun u hu => by simp [Ne.symm hu]) (fun u _ => Iff.rfl)
  refine ⟨?_, by simp, hholds', hwaits', nofun, hs.store_update nofun nofun, ?_, ?_⟩
  · simp [TicketSys.goto, ofU_packU]
  · simp [TicketSys.goto, hs.order]
  · intro c hc
    rcases mem_append.mp hc with hc | hc
    · exact hs.tried c hc
    · rw [mem_singleton.mp hc, hcount]
      rfl

end

theorem unlockStore {v : BitVec 32} (hs : s.Inv holder queue)
    (hpc : s.threads t = .unlockStore v) :
    ({ s with lock := { s.lock with ticket := v + 1 } }.goto t .idle).Inv none queue := by
  obtain rfl : holder = some t := (hs.holds t).mp (by rw [hpc]; rfl)
  obtain rfl := hs.store t v hpc
  have hnodup : t ∉ queue ∧ queue.Nodup := nodup_cons.mp (by simpa using hs.nodup)
  have hnext : ∀ i, s.lock.ticket + BitVec.ofNat 32 (1 + i)
      = s.lock.ticket + 1 + BitVec.ofNat 32 i := by
    intro i
    rw [BitVec.ofNat_add, ← BitVec.add_assoc]
    rfl
  obtain ⟨hholds', hwaits'⟩ := hs.places t .idle none queue (by simp [TicketPc.holds])
    (by simp [TicketPc.waits, hnodup.1]) (fun u hu => by simp [Ne.symm hu]) (fun _ _ => Iff.rfl)
  refine ⟨?_, hnodup.2, hholds', hwaits', ?_, hs.store_update nofun ?_, hs.order, hs.tried⟩
  · simpa [TicketSys.goto] using hs.users.trans (hnext queue.length)
  · intro i u hu
    have hne : u ≠ t := fun h => hnodup.1 (h ▸ mem_of_getElem? hu)
    have hspin := hs.ticket i u hu
    simp only [Option.toList_some, length_singleton, hnext] at hspin
    simpa [TicketSys.goto, hne] using hspin
  · intro u hu hholder
    exact absurd (Option.some.inj hholder).symm hu

theorem other {queue' : List (Fin n)} (hs : s.Inv holder queue)
    (hholds : (s.threads t).holds = false) (hwaits : (s.threads t).waits = false)
    (hext : queue <+: queue') : Turn s s' t holder queue holder queue' := by
  refine .other ?_ (fun _ hhead => ?_) hext
  · rw [Ne, ← hs.holds, hholds]
    exact Bool.false_ne_true
  · have hmem := (hs.waits t).mpr (List.mem_of_mem_head? hhead)
    rw [hwaits] at hmem
    cases hmem

theorem goto_other {pc : TicketPc} (hs : s.Inv holder queue)
    (hholds : (s.threads t).holds = false) (hwaits : (s.threads t).waits = false)
    (hpcHolds : pc.holds = false) (hpcWaits : pc.waits = false) :
    ∃ holder' queue', (s.goto t pc).Inv holder' queue' ∧
      Turn s (s.goto t pc) t holder queue holder' queue' := by
  refine ⟨holder, queue, hs.goto (hpcHolds.trans hholds.symm) hwaits hpcWaits ?_,
    hs.other hholds hwaits prefix_rfl⟩
  rintro v rfl
  cases hpcHolds

/-- **One step.** -/
theorem turn {l : TicketStep n} (hn : n < 2 ^ 32 - 1) (hs : s.Inv holder queue)
    (h : ticketStep s l = some s') : ∃ holder' queue', s'.Inv holder' queue' ∧
      Turn s s' l.thread holder queue holder' queue' := by
  cases l with
  | lock t | trylock t =>
    simp only [ticketStep, TicketStep.thread] at h ⊢
    split at h <;> cases h
    rename_i hpc
    exact hs.goto_other (by rw [hpc]; rfl) (by rw [hpc]; rfl) rfl rfl
  | unlock t =>
    simp only [ticketStep, TicketStep.thread] at h ⊢
    split at h <;> cases h
    rename_i hpc
    obtain rfl := (hs.holds t).mp (by rw [hpc]; rfl)
    exact ⟨some t, queue, hs.goto (by rw [hpc]; rfl) (by rw [hpc]; rfl) rfl nofun,
      .unlock (by simp [TicketSys.goto, hpc, TicketPc.left])⟩
  | run t =>
    simp only [ticketStep, TicketStep.thread] at h ⊢
    cases hpc : s.threads t with
    | idle | holding =>
      rw [hpc] at h
      cases h
    | lockAdd =>
      rw [hpc] at h
      exact ⟨holder, queue ++ [t], hs.lockAdd hpc h,
        hs.other (by rw [hpc]; rfl) (by rw [hpc]; rfl) (List.prefix_append ..)⟩
    | lockSpin me =>
      rw [hpc, TicketSys.run] at h
      split at h
      · rename_i hme
        cases h
        refine ⟨holder, queue, hs, .other ?_ ?_ List.prefix_rfl⟩
        · rw [Ne, ← hs.holds, hpc]
          exact Bool.false_ne_true
        · rintro rfl hhead
          have hspin := hs.ticket 0 t (by rw [← List.head?_eq_getElem?, hhead])
          rw [hpc, TicketPc.lockSpin.injEq] at hspin
          exact hme (by simpa using hspin.symm)
      · rename_i hme
        cases h
        obtain ⟨rest, rfl, rfl, hs'⟩ := hs.lockSpin hn hpc (not_not.mp hme)
        exact ⟨some t, rest, hs', .get (update_self ..)⟩
    | unlockLoad =>
      rw [hpc] at h
      cases h
      obtain rfl := (hs.holds t).mp (by rw [hpc]; rfl)
      refine ⟨some t, queue, hs.goto (by rw [hpc]; rfl) (by rw [hpc]; rfl) rfl ?_,
        .unlock (by simp [TicketSys.goto, hpc, TicketPc.left])⟩
      rintro v ⟨⟩
      rfl
    | unlockStore v =>
      rw [hpc] at h
      cases h
      obtain rfl := (hs.holds t).mp (by rw [hpc]; rfl)
      exact ⟨none, queue, hs.unlockStore hpc, .release⟩
    | tryLoad =>
      rw [hpc] at h
      cases h
      exact hs.goto_other (by rw [hpc]; rfl) (by rw [hpc]; rfl) rfl rfl
    | tryCas me =>
      rw [hpc, TicketSys.run] at h
      split at h
      · rename_i hcas
        cases h
        obtain ⟨rfl, rfl⟩ := hs.free_of_cas hn hcas
        exact ⟨some t, [], hs.tryCas hn hcas, .tryGet⟩
      · cases h
        exact hs.goto_other (by rw [hpc]; rfl) (by rw [hpc]; rfl) rfl rfl

theorem step {l : TicketStep n} (hn : n < 2 ^ 32 - 1) (hs : s.Inv holder queue)
    (h : ticketStep s l = some s') : ∃ holder' queue', s'.Inv holder' queue' := by
  obtain ⟨holder', queue', hs', -⟩ := hs.turn hn h
  exact ⟨holder', queue', hs'⟩

end TicketSys.Inv

/-! ## Mutual exclusion and fairness -/

def blocking (record : List (Fin n × Bool)) : List (Fin n) :=
  (record.filter Prod.snd).map Prod.fst

/-- **The ticket lock**, for every number of threads below `2 ^ 32 - 1` and every run: at most
one thread holds the lock, `users - ticket` counts the threads that hold it or wait for it,
`ticket_lock` obtains it in the order of the tickets, and whenever `ticket_trylock` succeeded,
nobody held the lock or waited for it. -/
theorem ticket_lock_fair {s : TicketSys n} (hn : n < 2 ^ 32 - 1)
    (h : Reaches ticketStep (fun _ _ => True) (TicketSys.initial n) s) :
    (∀ t t', (s.threads t).holds = true → (s.threads t').holds = true → t = t') ∧
      (s.lock.users - s.lock.ticket).toNat = s.holders + s.waiters ∧
      blocking s.obtained <+: blocking s.tickets ∧ ∀ c ∈ s.tryGranted, c = 0 := by
  obtain ⟨holder, queue, hs⟩ : ∃ holder queue, s.Inv holder queue := by
    refine h.invariant (fun s => ∃ holder queue, s.Inv holder queue) ?_
      ⟨none, [], TicketSys.Inv.initial n⟩
    rintro s l s' ⟨holder, queue, hs⟩ - hstep
    exact hs.step hn hstep
  have hle := hs.length_le
  refine ⟨?_, ?_, ?_, hs.tried⟩
  · intro t t' ht ht'
    exact Option.some.inj (((hs.holds t).mp ht).symm.trans ((hs.holds t').mp ht'))
  · rw [hs.holders_eq, hs.waiters_eq, hs.users, add_sub_cancel_left, BitVec.toNat_ofNat,
      Nat.mod_eq_of_lt (by omega)]
  · rw [hs.order, blocking, blocking, List.filter_append, List.map_append]
    exact List.prefix_append _ _

def ticketRun : List (TicketStep 3) :=
  [.trylock 0, .lock 2, .run 0, .run 0, .lock 1, .run 1, .run 2, .run 1, .unlock 0, .run 0, .run 0,
    .run 1]

theorem ticket_lock_fair_three :
    ∃ s, exec ticketStep (fun _ _ => True) (TicketSys.initial 3) ticketRun = some s ∧
      s.tickets = [(0, false), (1, true), (2, true)] ∧
      (s.lock.users - s.lock.ticket).toNat = s.holders + s.waiters ∧ s.holders + s.waiters = 2 ∧
      blocking s.obtained <+: blocking s.tickets := by
  have hrun : (exec ticketStep (fun _ _ => True) (TicketSys.initial 3) ticketRun).map
      (fun s => (s.tickets, s.holders + s.waiters)) = some ([(0, false), (1, true), (2, true)], 2) :=
    by decide +kernel
  obtain ⟨s, hexec, hs⟩ := Option.map_eq_some_iff.mp hrun
  rw [Prod.mk.injEq] at hs
  obtain ⟨-, hcount, hfair, -⟩ := ticket_lock_fair (by decide) (exec_reaches ticketRun hexec)
  exact ⟨s, hexec, hs.1, hcount, hs.2, hfair⟩

/-! ## Nobody waits for ever -/

theorem ticketStep_others {s s' : TicketSys n} {l : TicketStep n} (h : ticketStep s l = some s')
    {u : Fin n} (hu : l.thread ≠ u) : s'.threads u = s.threads u := by
  cases l with
  | lock t | trylock t | unlock t =>
    simp only [ticketStep] at h
    split at h <;> cases h
    exact update_of_ne hu.symm _ _
  | run t =>
    simp only [ticketStep] at h
    cases hpc : s.threads t <;> simp only [hpc, TicketSys.run, reduceCtorEq, Option.some.injEq] at h
    case lockSpin | tryCas =>
      split at h <;> cases h <;> first | rfl | exact update_of_ne hu.symm _ _
    all_goals exact h ▸ update_of_ne hu.symm _ _

/-- `t` waits and has to wait for `k` more moves, the first of which is `p`'s. -/
def WaitsFor (t : Fin n) (k : Nat) (p : Fin n) (s : TicketSys n) : Prop :=
  ∃ holder queue i, s.Inv holder queue ∧ queue[i]? = some t ∧
    (holder = some p ∧ k = 4 * i + (s.threads p).left ∨
      holder = none ∧ queue.head? = some p ∧ k = 4 * i)

theorem waitsFor_step (hn : n < 2 ^ 32 - 1) {t p : Fin n} {k : Nat} {s s' : TicketSys n}
    {l : TicketStep n} (h : WaitsFor t k p s) (hstep : ticketStep s l = some s') :
    s'.threads t = .holding ∨ (∃ k' < k, ∃ p', WaitsFor t k' p' s') ∨
      l.thread ≠ p ∧ WaitsFor t k p s' := by
  obtain ⟨holder, queue, i, hs, hi, hturn⟩ := h
  obtain ⟨holder', queue', hs', hmove⟩ := hs.turn hn hstep
  generalize hl : l.thread = u at hmove
  cases hmove with
  | other hholder hhead hext =>
    have hne : l.thread ≠ p := by
      rintro rfl
      rcases hturn with ⟨hp, -⟩ | ⟨hnone, hp, -⟩
      · exact hholder (hl ▸ hp)
      · exact hhead hnone (hl ▸ hp)
    obtain ⟨ext, rfl⟩ := hext
    have hlt := (List.getElem?_eq_some_iff.mp hi).1
    refine .inr (.inr ⟨hl ▸ hne, holder, queue ++ ext, i, hs', ?_, ?_⟩)
    · rw [List.getElem?_append_left hlt, hi]
    · rw [ticketStep_others hstep hne]
      refine hturn.imp_right fun h => ⟨h.1, ?_, h.2.2⟩
      rw [List.head?_append, h.2.1, Option.some_or]
  | unlock hleft =>
    rcases hturn with ⟨hp, rfl⟩ | ⟨hp, -⟩
    · cases hp
      exact .inr (.inl ⟨_, by omega, p, _, queue, i, hs', hi, .inl ⟨rfl, rfl⟩⟩)
    · cases hp
  | release =>
    rcases hturn with ⟨hp, rfl⟩ | ⟨hp, -⟩
    · cases hp
      have hleft : 0 < (s.threads p).left := by
        have hholds := (hs.holds p).mpr rfl
        cases hpc : s.threads p <;> simp_all [TicketPc.holds, TicketPc.left]
      cases queue with
      | nil => cases hi
      | cons first rest =>
        exact .inr (.inl ⟨4 * i, by omega, first, none, _, i, hs', hi, .inr ⟨rfl, rfl, rfl⟩⟩)
    · cases hp
  | get hholding =>
    rcases hturn with ⟨hp, -⟩ | ⟨-, hp, rfl⟩
    · cases hp
    · cases i with
      | zero =>
        cases hi
        exact .inl hholding
      | succ i =>
        refine .inr (.inl ⟨4 * i + 3, by omega, u, some u, queue', i, hs', by simpa using hi, ?_⟩)
        exact .inl ⟨rfl, by rw [hholding]; rfl⟩
  | tryGet => cases hi

theorem exists_waitsFor {s : TicketSys n} {holder : Option (Fin n)} {queue : List (Fin n)}
    (hs : s.Inv holder queue) {t : Fin n} (ht : (s.threads t).waits = true) :
    ∃ k p, WaitsFor t k p s := by
  obtain ⟨i, hi⟩ := List.mem_iff_getElem?.mp ((hs.waits t).mp ht)
  cases holder with
  | some p => exact ⟨_, p, _, queue, i, hs, hi, .inl ⟨rfl, rfl⟩⟩
  | none =>
    cases queue with
    | nil => cases hi
    | cons p rest => exact ⟨_, p, none, _, i, hs, hi, .inr ⟨rfl, rfl, rfl⟩⟩

theorem WaitsFor.not_idle {t p : Fin n} {k : Nat} {s : TicketSys n} (h : WaitsFor t k p s) :
    s.threads p ≠ .idle := by
  obtain ⟨holder, queue, -, hs, -, ⟨hp, -⟩ | ⟨-, hp, -⟩⟩ := h
  · intro hidle
    have hholds := (hs.holds p).mpr hp
    rw [hidle] at hholds
    cases hholds
  · intro hidle
    have hwaits := (hs.waits p).mpr (List.mem_of_mem_head? hp)
    rw [hidle] at hwaits
    cases hwaits

/-- **Nobody waits for ever**: in every infinite run in which a thread that has begun a call, or
holds the lock, always moves again, every thread that waits obtains the lock. -/
theorem ticket_lock_starvation_free (hn : n < 2 ^ 32 - 1) (st : Nat → TicketSys n)
    (act : Nat → TicketStep n) (hinit : st 0 = .initial n)
    (hrun : ∀ i, ticketStep (st i) (act i) = some (st (i + 1)))
    (hfair : ∀ u i, (st i).threads u ≠ .idle → ∃ j ≥ i, (act j).thread = u) {t : Fin n} {i : Nat}
    (ht : ((st i).threads t).waits = true) : ∃ j ≥ i, (st j).threads t = .holding := by
  have hinv : ∃ holder queue, (st i).Inv holder queue := by
    clear ht
    induction i with
    | zero => exact ⟨none, [], hinit ▸ TicketSys.Inv.initial n⟩
    | succ i ih =>
      obtain ⟨holder, queue, hs⟩ := ih
      exact hs.step hn (hrun i)
  obtain ⟨holder, queue, hs⟩ := hinv
  obtain ⟨k, p, hwait⟩ := exists_waitsFor hs ht
  refine leadsTo_of_rank (waitsFor_step (t := t) hn) hrun ?_ hwait
  intro k p i hwait
  exact hfair p i hwait.not_idle

/-- Two threads lock and unlock in turns. -/
def robinStep (s : TicketSys 2) (t : Fin 2) : TicketStep 2 :=
  if s.threads t = .idle then .lock t else if s.threads t = .holding then .unlock t else .run t

def robin : Nat → TicketSys 2
  | 0 => .initial 2
  | i + 1 => (ticketStep (robin i) (robinStep (robin i) (.ofNat 2 i))).getD (robin i)

theorem ticket_lock_starvation_free_robin : ∃ j ≥ 4, (robin j).threads 1 = .holding := by
  have hsome (s : TicketSys 2) (t : Fin 2) : (ticketStep s (robinStep s t)).isSome = true := by
    cases hpc : s.threads t <;> simp only [robinStep, ticketStep, TicketSys.run, hpc, if_true,
      reduceCtorEq, if_false, Option.isSome_some]
    all_goals split <;> rfl
  have hthread (s : TicketSys 2) (t : Fin 2) : (robinStep s t).thread = t := by
    grind [robinStep, TicketStep.thread]
  refine ticket_lock_starvation_free (by decide) robin
    (fun i => robinStep (robin i) (.ofNat 2 i)) rfl ?_ ?_ (by decide +kernel)
  · intro i
    exact (Option.some_get (hsome _ _)).symm.trans (by rw [robin, Option.get_eq_getD])
  · intro u i _
    refine ⟨2 * i + u, by omega, Fin.ext ?_⟩
    rw [hthread, Fin.val_ofNat]
    omega

end RktIo.Sync
