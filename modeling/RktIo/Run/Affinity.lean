import RktIo.Lib.CString

/-!
# CPU affinity (`main/sgxlkl_run.c`)

`parse_cpu_affinity_params` expands a list of cores and ranges of cores, such as `0-2,4`, into an
array of at most `nproc` entries. A range is recognised by the state that is carried from one round
of the loop to the next: the first core of a range is stored like a single one, `-` remembers it,
and the number behind it stores the rest of the range, downwards.

The entries of the array are of type `int`, while cores are of type `long`.
-/

namespace RktIo.Run

open CString List

/-! ## The function -/

inductive AffinityError where
  | tooLarge (val nproc : Int)
  | malformed
  deriving Repr, DecidableEq

/-- The variables of `parse_cpu_affinity_params`: the string from `curr_ptr` on, the entries that
have been stored, `val` and `range_start`. -/
structure Affinity where
  curr : List Char
  cores : List Int := []
  val : Int := 0
  rangeStart : Int := -1
  error : Option AffinityError := none
  deriving Repr, DecidableEq

def intOfLong (val : Int) : Int := (BitVec.ofInt 32 val).toInt

def storeRange (nproc : Nat) : Nat → Int → List Int → Int × List Int
  | 0, val, cores => (val, cores)
  | n + 1, val, cores =>
    if cores.length < nproc then storeRange nproc n (val - 1) (cores ++ [intOfLong val])
    else (val, cores)

def affinityNumber (nproc : Nat) (s : Affinity) : Affinity × Bool :=
  let parsed := strtol 10 s.curr
  let s : Affinity := { s with val := parsed.value, curr := s.curr.drop parsed.consumed }
  if s.val < 0 ∨ s.val ≥ (nproc : Int) then
    ({ s with error := some (.tooLarge s.val nproc) }, false)
  else if s.rangeStart < 0 then ({ s with cores := s.cores ++ [intOfLong s.val] }, true)
  else
    -- `range_start` has already been added
    let (val, cores) := storeRange nproc (s.val - s.rangeStart).toNat s.val s.cores
    ({ s with val := val, cores := cores, rangeStart := -1 }, true)

def affinityChar (nproc : Nat) (c : Char) (s : Affinity) : Affinity × Bool :=
  if digitVal c < 10 then affinityNumber nproc s
  else if c = ',' then ({ s with curr := s.curr.tail }, true)
  else if c = '-' then ({ s with rangeStart := s.val, curr := s.curr.tail }, true)
  else ({ s with error := some .malformed }, false)

def affinityLoop (nproc : Nat) : Nat → Affinity → Option Affinity
  | 0, _ => none
  | rounds + 1, s =>
    match s.curr with
    | [] => some s
    | c :: _ =>
      if s.cores.length < nproc then
        let (s, go) := affinityChar nproc c s
        if go then affinityLoop nproc rounds s else some s
      else some s

/-- `parse_cpu_affinity_params(config, &cores, &cores_len)`, where `config` may be a null pointer:
`*cores`, which is null or an array whose first `*cores_len` entries are given, and the message. -/
def parseCpuAffinityParams (rounds nproc : Nat) (config : Option (List Char)) :
    Option (Option (List Int) × Option AffinityError) :=
  match config with
  | none | some [] => some (none, none)
  | some (c :: config) =>
    (affinityLoop nproc rounds { curr := c :: config }).map fun s => (some s.cores, s.error)

/-! ## Any string -/

variable {nproc : Nat} {s s' : Affinity}

theorem storeRange_eq (n : Nat) (val : Int) (cores : List Int) :
    storeRange nproc n val cores
      = (val - (min n (nproc - cores.length) : Nat),
        cores ++ (List.range (min n (nproc - cores.length))).map fun i =>
          intOfLong (val - (i : Nat))) := by
  induction n generalizing val cores with
  | zero => simp [storeRange]
  | succ n ih =>
    rw [storeRange]
    split
    · rename_i hroom
      have hleft : min (n + 1) (nproc - cores.length)
          = min n (nproc - (cores ++ [intOfLong val]).length) + 1 := by
        rw [length_append, length_singleton]
        omega
      rw [ih, hleft, range_succ_eq_map, map_cons, map_map]
      refine Prod.ext ?_ ?_
      · show val - 1 - _ = val - ((_ + 1 : Nat) : Int)
        omega
      · simp only [append_assoc, singleton_append, Nat.cast_zero, sub_zero]
        congr 2
        refine map_congr_left fun i _ => ?_
        show intOfLong (val - 1 - (i : Nat)) = intOfLong (val - ((i + 1 : Nat) : Int))
        congr 1
        omega
    · rename_i hfull
      have hnone : min (n + 1) (nproc - cores.length) = 0 := by omega
      simp [hnone]

structure Stored (nproc : Nat) (cores : List Int) : Prop where
  length_le : cores.length ≤ nproc
  core : ∀ x ∈ cores, ∃ v : Nat, v < nproc ∧ x = intOfLong v

theorem Stored.snoc {cores : List Int} (h : Stored nproc cores) (hroom : cores.length < nproc)
    {v : Nat} (hv : v < nproc) : Stored nproc (cores ++ [intOfLong v]) := by
  refine ⟨by simpa using hroom, ?_⟩
  intro x hx
  rcases mem_append.mp hx with hx | hx
  · exact h.core x hx
  · exact ⟨v, hv, mem_singleton.mp hx⟩

theorem Stored.storeRange {cores : List Int} (h : Stored nproc cores) {v n : Nat} (hv : v < nproc)
    (hn : n ≤ v) : Stored nproc (storeRange nproc n v cores).2 := by
  rw [storeRange_eq]
  have hlength := h.length_le
  refine ⟨?_, ?_⟩
  · simp only [length_append, length_map, length_range]
    omega
  · intro x hx
    rcases mem_append.mp hx with hx | hx
    · exact h.core x hx
    · obtain ⟨i, hi, rfl⟩ := mem_map.mp hx
      rw [mem_range] at hi
      refine ⟨v - i, by omega, ?_⟩
      congr 1
      omega

/-- What the loop keeps: the array, that `val` is a core, and that `range_start` is not below
-1. -/
structure Affinity.Ok (nproc : Nat) (s : Affinity) : Prop where
  stored : Stored nproc s.cores
  val_nonneg : 0 ≤ s.val
  val_lt : s.val < nproc
  rangeStart_ge : -1 ≤ s.rangeStart

theorem affinityNumber_eq {digits rest : List Char} (h : Decimal digits rest)
    (hcurr : s.curr = digits ++ rest) {v : Nat} (hv : v = min (numeral 10 digits) (2 ^ 63 - 1)) :
    affinityNumber nproc s =
      if nproc ≤ v then
        ({ s with val := v, curr := rest, error := some (.tooLarge v nproc) }, false)
      else if s.rangeStart < 0 then
        ({ s with val := v, curr := rest, cores := s.cores ++ [intOfLong v] }, true)
      else
        ({ s with
            val := (storeRange nproc ((v : Int) - s.rangeStart).toNat v s.cores).1
            curr := rest
            cores := (storeRange nproc ((v : Int) - s.rangeStart).toNat v s.cores).2
            rangeStart := -1 }, true) := by
  unfold affinityNumber
  rw [hcurr, strtol_decimal h, ← hv]
  simp only [drop_left]
  congr 1
  rw [eq_iff_iff]
  omega

theorem Affinity.Ok.char {c : Char} {rest : List Char} (hok : s.Ok nproc)
    (hroom : s.cores.length < nproc) (hcurr : s.curr = c :: rest) :
    Stored nproc (affinityChar nproc c s).1.cores
      ∧ ((affinityChar nproc c s).2 = true → (affinityChar nproc c s).1.Ok nproc
        ∧ (affinityChar nproc c s).1.curr.length < s.curr.length) := by
  obtain ⟨hstored, hval, hlt, hstart⟩ := hok
  unfold affinityChar
  by_cases hdigit : digitVal c < 10
  · -- a number
    rw [if_pos hdigit]
    have hdec := @decimal_of_digit c rest hdigit
    have happend := (takeWhile_append_dropWhile (p := fun d => decide (digitVal d < 10))
      (l := c :: rest))
    rw [affinityNumber_eq hdec (hcurr.trans happend.symm) rfl]
    generalize min (numeral 10 _) (2 ^ 63 - 1) = v
    have hshort : ((c :: rest).dropWhile fun d => decide (digitVal d < 10)).length
        < s.curr.length := by
      have hpos := length_pos_iff.mpr hdec.ne_nil
      have hlen := congrArg List.length happend
      rw [length_append] at hlen
      rw [hcurr]
      omega
    split
    · exact ⟨hstored, fun hgo => absurd hgo Bool.false_ne_true⟩
    rename_i hv
    split
    · have hsnoc := hstored.snoc hroom (not_le.mp hv)
      exact ⟨hsnoc, fun _ => ⟨⟨hsnoc, by simp, by simpa using hv, hstart⟩, hshort⟩⟩
    · -- the range lies between two cores, so it consists of cores
      rename_i hrange
      have hn : ((v : Int) - s.rangeStart).toNat ≤ v := by omega
      have hall := hstored.storeRange (not_le.mp hv) hn
      refine ⟨hall, fun _ => ⟨⟨hall, ?_, ?_, le_refl (-1)⟩, hshort⟩⟩
      · rw [storeRange_eq]
        dsimp only
        omega
      · rw [storeRange_eq]
        dsimp only
        omega
  · rw [if_neg hdigit]
    have hshort : s.curr.tail.length < s.curr.length := by simp [hcurr]
    split
    · exact ⟨hstored, fun _ => ⟨⟨hstored, hval, hlt, hstart⟩, hshort⟩⟩
    split
    · exact ⟨hstored, fun _ => ⟨⟨hstored, hval, hlt, by show -1 ≤ s.val; omega⟩, hshort⟩⟩
    · exact ⟨hstored, fun hgo => absurd hgo Bool.false_ne_true⟩

/-- **On any string the loop ends**, within as many rounds as there are characters and one more.
Induction on the rounds. -/
theorem affinityLoop_total {rounds : Nat} (hok : s.Ok nproc) (hrounds : s.curr.length < rounds) :
    ∃ t, affinityLoop nproc rounds s = some t ∧ Stored nproc t.cores := by
  induction rounds generalizing s with
  | zero => omega
  | succ rounds ih =>
    rw [affinityLoop]
    split
    · exact ⟨s, rfl, hok.stored⟩
    · rename_i c rest hcurr
      split
      · rename_i hroom
        obtain ⟨hstored, hgo⟩ := hok.char hroom hcurr
        dsimp only
        split
        · rename_i hcontinue
          obtain ⟨hnext, hshort⟩ := hgo hcontinue
          exact ih hnext (by omega)
        · exact ⟨_, rfl, hstored⟩
      · exact ⟨s, rfl, hok.stored⟩

/-! ## Well-formed lists -/

inductive AffinityItem where
  | core (n : List Char)
  | range (a b : List Char)

namespace AffinityItem

def text : AffinityItem → List Char
  | core n => n
  | range a b => a ++ '-' :: b

def cores : AffinityItem → List Nat
  | core n => [numeral 10 n]
  | range a b =>
    numeral 10 a :: (List.range (numeral 10 b - numeral 10 a)).map fun i => numeral 10 b - i

def Ok (nproc : Nat) : AffinityItem → Prop
  | core n => n ≠ [] ∧ (∀ c ∈ n, digitVal c < 10) ∧ numeral 10 n < nproc
  | range a b => a ≠ [] ∧ (∀ c ∈ a, digitVal c < 10) ∧ b ≠ [] ∧ (∀ c ∈ b, digitVal c < 10)
    ∧ numeral 10 a ≤ numeral 10 b ∧ numeral 10 b < nproc

theorem Ok.lt_of_mem {nproc v : Nat} {item : AffinityItem} (h : item.Ok nproc)
    (hv : v ∈ item.cores) : v < nproc := by
  cases item with
  | core n =>
    obtain rfl := mem_singleton.mp hv
    exact h.2.2
  | range a b =>
    obtain ⟨-, -, -, -, hle, hlt⟩ := h
    rcases mem_cons.mp hv with rfl | hv
    · omega
    · obtain ⟨i, -, rfl⟩ := mem_map.mp hv
      omega

theorem cores_length_pos (item : AffinityItem) : 0 < item.cores.length := by
  cases item <;> simp [cores]

end AffinityItem

def affinityList (items : List AffinityItem) : List Char :=
  [','].intercalate (items.map AffinityItem.text)

section Rounds

variable {rounds : Nat} {cores : List Int} {val : Int} {curr digits rest : List Char}

theorem affinityLoop_full (hfull : ¬ s.cores.length < nproc) :
    affinityLoop nproc (rounds + 1) s = some s := by
  rw [affinityLoop]
  split
  · rfl
  · rw [if_neg hfull]

theorem affinityLoop_comma (hroom : cores.length < nproc) :
    affinityLoop nproc (rounds + 1) ⟨',' :: rest, cores, val, -1, none⟩
      = affinityLoop nproc rounds ⟨rest, cores, val, -1, none⟩ := by
  rw [affinityLoop]
  simp only [if_pos hroom]
  rfl

theorem affinityLoop_dash (hroom : cores.length < nproc) :
    affinityLoop nproc (rounds + 1) ⟨'-' :: rest, cores, val, -1, none⟩
      = affinityLoop nproc rounds ⟨rest, cores, val, val, none⟩ := by
  rw [affinityLoop]
  simp only [if_pos hroom]
  rfl

theorem affinityLoop_number (hdec : Decimal digits rest) (hcurr : s.curr = digits ++ rest)
    (hroom : s.cores.length < nproc) :
    affinityLoop nproc (rounds + 1) s =
      if (affinityNumber nproc s).2 then affinityLoop nproc rounds (affinityNumber nproc s).1
      else some (affinityNumber nproc s).1 := by
  obtain ⟨c, cs, rfl⟩ := exists_cons_of_ne_nil hdec.ne_nil
  have hdigit := hdec.digit c (by simp)
  rw [affinityLoop, hcurr]
  simp only [cons_append, if_pos hroom, affinityChar, if_pos hdigit]

theorem affinityLoop_core (hdec : Decimal digits rest) (hroom : cores.length < nproc)
    (hlt : numeral 10 digits < nproc) (hlong : nproc < 2 ^ 63) :
    affinityLoop nproc (rounds + 1) ⟨digits ++ rest, cores, val, -1, none⟩
      = affinityLoop nproc rounds
        ⟨rest, cores ++ [intOfLong (numeral 10 digits)], numeral 10 digits, -1, none⟩ := by
  have hnumber := @affinityNumber_eq nproc ⟨digits ++ rest, cores, val, -1, none⟩ _ _ hdec rfl
    (numeral 10 digits) (by omega)
  rw [if_neg (by omega), if_pos (show (-1 : Int) < 0 by decide)] at hnumber
  rw [affinityLoop_number hdec rfl hroom, hnumber]
  rfl

theorem affinityLoop_range {a : Nat} (hdec : Decimal digits rest) (hroom : cores.length < nproc)
    (hle : a ≤ numeral 10 digits) (hlt : numeral 10 digits < nproc) (hlong : nproc < 2 ^ 63)
    (hfits : cores.length + (numeral 10 digits - a) ≤ nproc) :
    affinityLoop nproc (rounds + 1) ⟨digits ++ rest, cores, val, a, none⟩
      = affinityLoop nproc rounds
        ⟨rest, cores ++ ((List.range (numeral 10 digits - a)).map fun i =>
          numeral 10 digits - i).map fun v => intOfLong (v : Nat), a, -1, none⟩ := by
  have hnumber := @affinityNumber_eq nproc ⟨digits ++ rest, cores, val, a, none⟩ _ _ hdec rfl
    (numeral 10 digits) (by omega)
  have hn : ((numeral 10 digits : Int) - a).toNat = numeral 10 digits - a := by omega
  have hleft : min (numeral 10 digits - a) (nproc - cores.length) = numeral 10 digits - a := by
    omega
  have hval : (numeral 10 digits : Int) - (numeral 10 digits - a : Nat) = a := by omega
  have hcores : ∀ i ∈ List.range (numeral 10 digits - a),
      intOfLong (numeral 10 digits - (i : Nat)) = intOfLong (numeral 10 digits - i : Nat) := by
    intro i hi
    rw [mem_range] at hi
    congr 1
    omega
  rw [if_neg (by omega), if_neg (show ¬ (a : Int) < 0 by omega)] at hnumber
  rw [affinityLoop_number hdec rfl hroom, hnumber]
  simp only [if_true, hn, storeRange_eq, hleft, hval, map_map]
  rw [map_congr_left hcores]
  rfl

def Yields (nproc : Nat) (curr : List Char) (cores final : List Int) : Prop :=
  ∀ val rounds, curr.length < rounds →
    ∃ t, affinityLoop nproc rounds ⟨curr, cores, val, -1, none⟩ = some t
      ∧ t.cores = final ∧ t.error = none

variable {final : List Int}

theorem yields_nil : Yields nproc [] cores cores := by
  intro val rounds hrounds
  obtain ⟨rounds, rfl⟩ := Nat.exists_eq_add_of_lt hrounds
  exact ⟨_, rfl, rfl, rfl⟩

theorem yields_full (hfull : ¬ cores.length < nproc) : Yields nproc curr cores cores := by
  intro val rounds hrounds
  cases rounds with
  | zero => omega
  | succ rounds => exact ⟨_, affinityLoop_full hfull, rfl, rfl⟩

theorem Yields.eq_of_full (h : Yields nproc curr cores final) (hfull : ¬ cores.length < nproc) :
    final = cores := by
  obtain ⟨t, hloop, hcores, -⟩ := h 0 (curr.length + 1) (by omega)
  rw [affinityLoop_full hfull, Option.some.injEq] at hloop
  rw [← hcores, ← hloop]

theorem Yields.comma (h : Yields nproc rest cores final) :
    Yields nproc (',' :: rest) cores final := by
  by_cases hroom : cores.length < nproc
  · intro val rounds hrounds
    cases rounds with
    | zero => omega
    | succ rounds =>
      rw [affinityLoop_comma hroom]
      exact h val rounds (by simpa using hrounds)
  · rw [h.eq_of_full hroom]
    exact yields_full hroom

theorem Yields.item {item : AffinityItem} (hok : item.Ok nproc) (hlong : nproc < 2 ^ 63)
    (hrest : ∀ c ∈ rest.head?, c = ',') (hfits : cores.length + item.cores.length ≤ nproc)
    (h : Yields nproc rest (cores ++ item.cores.map fun v => intOfLong (v : Nat)) final) :
    Yields nproc (item.text ++ rest) cores final := by
  have hends : ∀ c ∈ rest.head?, ¬ digitVal c < 10 := by
    intro c hc
    rw [hrest c hc]
    decide
  have hroom : cores.length < nproc := by
    have hpos := item.cores_length_pos
    omega
  intro val rounds hrounds
  cases item with
  | core n =>
    obtain ⟨hne, hdigits, hlt⟩ := hok
    cases rounds with
    | zero => omega
    | succ rounds =>
      have hpos := length_pos_iff.mpr hne
      rw [AffinityItem.text, length_append] at hrounds
      rw [AffinityItem.text, affinityLoop_core ⟨hne, hdigits, hends⟩ hroom hlt hlong]
      exact h _ rounds (by omega)
  | range a b =>
    obtain ⟨hane, hadigits, hbne, hbdigits, hle, hlt⟩ := hok
    have hapos := length_pos_iff.mpr hane
    have hbpos := length_pos_iff.mpr hbne
    simp only [AffinityItem.text, length_append, length_cons] at hrounds
    obtain ⟨rounds, rfl⟩ : ∃ k, rounds = k + 3 := ⟨rounds - 3, by omega⟩
    have hdash : Decimal a ('-' :: (b ++ rest)) := by
      refine ⟨hane, hadigits, ?_⟩
      intro c hc
      obtain rfl : c = '-' := by simpa using hc.symm
      decide
    rw [AffinityItem.text, append_assoc, cons_append,
      affinityLoop_core hdash hroom (by omega) hlong]
    simp only [AffinityItem.cores, length_cons, length_map, length_range] at hfits
    by_cases hmore : cores.length + 1 < nproc
    · rw [affinityLoop_dash (by simpa using hmore),
        affinityLoop_range ⟨hbne, hbdigits, hends⟩ (by simpa using hmore) hle hlt hlong
          (by rw [length_append, length_singleton]; omega)]
      have happend : cores ++ [intOfLong (numeral 10 a)]
          ++ ((List.range (numeral 10 b - numeral 10 a)).map fun i => numeral 10 b - i).map
            (fun v => intOfLong (v : Nat))
          = cores ++ (AffinityItem.range a b).cores.map fun v => intOfLong (v : Nat) := by
        simp [AffinityItem.cores]
      rw [happend]
      exact h _ rounds (by omega)
    · -- the array is full, so the range has one core
      have hone : (AffinityItem.range a b).cores = [numeral 10 a] := by
        have hzero : numeral 10 b - numeral 10 a = 0 := by omega
        simp [AffinityItem.cores, hzero]
      rw [hone] at h
      have hfull : ¬ (cores ++ [intOfLong (numeral 10 a)]).length < nproc := by simpa using hmore
      rw [affinityLoop_full hfull]
      exact ⟨_, rfl, (h.eq_of_full hfull).symm, rfl⟩

/-- **A well-formed list is expanded item by item.** Induction on the items. -/
theorem affinityLoop_items (hlong : nproc < 2 ^ 63) {items : List AffinityItem}
    (hok : ∀ item ∈ items, item.Ok nproc)
    (hfits : cores.length + (items.flatMap AffinityItem.cores).length ≤ nproc) :
    Yields nproc (affinityList items) cores
      (cores ++ (items.flatMap AffinityItem.cores).map fun v => intOfLong (v : Nat)) := by
  induction items generalizing cores with
  | nil =>
    simpa [affinityList] using yields_nil
  | cons item items ih =>
    rw [flatMap_cons, length_append] at hfits
    have hitem := hok item (by simp)
    have htail := @ih (cores ++ item.cores.map fun v => intOfLong (v : Nat))
      (fun i hi => hok i (by simp [hi])) (by simpa [Nat.add_assoc] using hfits)
    rw [flatMap_cons, map_append, ← append_assoc]
    cases items with
    | nil =>
      have hone : affinityList [item] = item.text ++ [] := by simp [affinityList]
      rw [hone]
      exact Yields.item hitem hlong (by simp) (by omega) htail
    | cons item' items =>
      have hmore : affinityList (item :: item' :: items)
          = item.text ++ ',' :: affinityList (item' :: items) := by
        simp [affinityList, intercalate_cons_cons]
      rw [hmore]
      exact Yields.item hitem hlong (by simp) (by omega) htail.comma

end Rounds

/-! ## The result -/

/-- Lists of cores are expanded correctly, `core` being how a core is stored: any string leaves at
most `nproc` entries, all of them cores below `nproc`; and a list of cores and ranges leaves exactly
these, if they fit. -/
def AffinityExpanded (nproc : Nat) (core : Nat → Int) : Prop :=
  (∀ config rounds, (config.getD []).length < rounds →
      ∃ cores error, parseCpuAffinityParams rounds nproc config = some (cores, error)
        ∧ (cores.getD []).length ≤ nproc
        ∧ ∀ x ∈ cores.getD [], ∃ v < nproc, x = core v)
    ∧ ∀ items rounds, (∀ item ∈ items, item.Ok nproc) →
      (items.flatMap AffinityItem.cores).length ≤ nproc → (affinityList items).length < rounds →
      ∃ cores, parseCpuAffinityParams rounds nproc (some (affinityList items)) = some (cores, none)
        ∧ cores.getD [] = (items.flatMap AffinityItem.cores).map core

theorem parseCpuAffinityParams_of_ne_nil {rounds : Nat} {config : List Char} (hne : config ≠ []) :
    parseCpuAffinityParams rounds nproc (some config)
      = (affinityLoop nproc rounds { curr := config }).map fun s => (some s.cores, s.error) := by
  cases config with
  | nil => exact absurd rfl hne
  | cons c config => rfl

theorem intOfLong_of_lt {v : Nat} (h : v < 2 ^ 31) : intOfLong v = v := by
  unfold intOfLong
  rw [BitVec.toInt_ofInt]
  exact Int.bmod_eq_of_le (by omega) (by omega)

theorem Affinity.Ok.start (hpos : 1 ≤ nproc) (config : List Char) :
    Affinity.Ok nproc { curr := config } :=
  ⟨⟨Nat.zero_le _, by simp⟩, le_rfl, Int.natCast_pos.mpr hpos, le_rfl⟩

theorem affinityExpanded_int (hpos : 1 ≤ nproc) (hlong : nproc < 2 ^ 63) :
    AffinityExpanded nproc (fun v => intOfLong v) := by
  refine ⟨?_, ?_⟩
  · intro config rounds hrounds
    cases config with
    | none => exact ⟨none, none, rfl, by simp, by simp⟩
    | some config =>
      rcases eq_or_ne config [] with rfl | hne
      · exact ⟨none, none, rfl, by simp, by simp⟩
      · obtain ⟨t, hloop, hstored⟩ := affinityLoop_total (Affinity.Ok.start hpos config) hrounds
        refine ⟨some t.cores, t.error, ?_, hstored.length_le, hstored.core⟩
        rw [parseCpuAffinityParams_of_ne_nil hne, hloop]
        rfl
  · intro items rounds hok hfits hrounds
    rcases eq_or_ne (affinityList items) [] with hnil | hne
    · -- no items, as the text of an item is not empty
      cases items with
      | nil => exact ⟨none, rfl, rfl⟩
      | cons item items =>
        exfalso
        have htext : item.text = [] := by
          cases items <;> simp_all [affinityList, intercalate_cons_cons]
        cases item with
        | core n => exact (hok (.core n) (by simp)).1 htext
        | range a b => simp [AffinityItem.text] at htext
    · obtain ⟨t, hloop, hcores, herror⟩ :=
        @affinityLoop_items nproc [] hlong items hok (by simpa using hfits) 0 rounds hrounds
      refine ⟨some t.cores, ?_, hcores⟩
      rw [parseCpuAffinityParams_of_ne_nil hne, hloop, Option.map_some, herror]

/-- **Lists of cores are expanded correctly** for every number of processors, each core being stored
as an `int`; up to `2 ^ 31` processors that is the core itself. -/
theorem affinity_expanded (nproc : Nat) (hpos : 1 ≤ nproc) (hlong : nproc < 2 ^ 63) :
    AffinityExpanded nproc (fun v => intOfLong v)
      ∧ (nproc ≤ 2 ^ 31 → AffinityExpanded nproc (fun v => v)) := by
  have hint := affinityExpanded_int hpos hlong
  refine ⟨hint, fun hsmall => ⟨?_, ?_⟩⟩
  · intro config rounds hrounds
    obtain ⟨cores, error, hparse, hlength, hcore⟩ := hint.1 config rounds hrounds
    refine ⟨cores, error, hparse, hlength, fun x hx => ?_⟩
    obtain ⟨v, hv, rfl⟩ := hcore x hx
    exact ⟨v, hv, intOfLong_of_lt (by omega)⟩
  · intro items rounds hok hfits hrounds
    obtain ⟨cores, hparse, hcores⟩ := hint.2 items rounds hok hfits hrounds
    refine ⟨cores, hparse, hcores.trans (List.map_congr_left fun v hv => ?_)⟩
    -- every core of the items is below `nproc`
    obtain ⟨item, hitem, hmem⟩ := List.mem_flatMap.mp hv
    have hlt := (hok item hitem).lt_of_mem hmem
    exact intOfLong_of_lt (by omega)

/-- Four processors, and a list with a range. -/
theorem affinity_expanded_four :
    (1 ≤ 4 ∧ 4 < 2 ^ 63) ∧ parseCpuAffinityParams 6 4 (some "0-2,3".toList)
        = some (some [0, 2, 1, 3], none)
      ∧ AffinityExpanded 4 (fun v => v) :=
  ⟨by decide, by decide +kernel, (affinity_expanded 4 (by decide) (by decide)).2 (by decide)⟩

/-- With `2 ^ 31 + 1` processors, the last core is stored as a negative number. -/
theorem last_core_negative :
    parseCpuAffinityParams 11 (2 ^ 31 + 1) (some "2147483648".toList)
        = some (some [-2147483648], none)
      ∧ ¬ AffinityExpanded (2 ^ 31 + 1) (fun v => v) := by
  have hparse : parseCpuAffinityParams 11 (2 ^ 31 + 1) (some "2147483648".toList)
      = some (some [-2147483648], none) := by
    decide +kernel
  refine ⟨hparse, fun h => ?_⟩
  obtain ⟨cores, error, hparse', -, hcore⟩ := h.1 (some "2147483648".toList) 11 (by decide +kernel)
  rw [hparse] at hparse'
  obtain ⟨rfl, rfl⟩ : some [-2147483648] = cores ∧ none = error := by simpa using hparse'
  obtain ⟨v, -, hv⟩ := hcore (-2147483648) (by simp)
  have hneg : (-2147483648 : Int) = v := hv
  omega

end RktIo.Run
