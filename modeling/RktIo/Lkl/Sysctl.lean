import RktIo.Lib.CBuffer

/-!
# Kernel parameters (`do_sysctl` of `lkl/setup.c`)

The settings are one string, `key=value` joined with semicolons. `do_sysctl` cuts a copy of it in
place and applies one after the other. The end of a key or a value is stepped over only if it is not
the terminator, so a round ends the loop or leaves a shorter text, within the string.
-/

namespace RktIo.Lkl.Sysctl

open CString CBuffer

/-! ## The loop -/

structure Setting where
  path : List Char
  val : List Char
  deriving Repr, DecidableEq

inductive Warning where
  | notSeparated (path : List Char)
  | failed (setting : Setting)
  deriving Repr, DecidableEq

abbrev LklSysctl := List Setting → Setting → Int

structure Loop where
  buf : List Char
  sysctl : Nat
  calls : List Setting
  warning : Option Warning
  deriving Repr, DecidableEq

def readStr (buf : List Char) (p : Nat) : Option (List Char) :=
  (strchrnul buf nul p).map fun _ => strAt buf p

def cutValue (buf : List Char) (path val : Nat) : Option (Setting × List Char × Nat) := do
  let buf := buf.set val nul
  let valEnd ← strchrnul buf ';' (val + 1)
  if buf[valEnd]? = some nul then
    return (⟨← readStr buf path, ← readStr buf (val + 1)⟩, buf, valEnd)
  let buf := buf.set valEnd nul
  return (⟨← readStr buf path, ← readStr buf (val + 1)⟩, buf, valEnd + 1)

def round (lklSysctl : LklSysctl) (s : Loop) : Option (Loop × Bool) := do
  let path ← scan (fun c => !(c == ' ')) s.buf s.sysctl
  let val ← strchrnul s.buf '=' path
  if s.buf[val]? = some nul then
    return ({ s with warning := some (.notSeparated (← readStr s.buf path)) }, false)
  let (setting, buf, sysctl) ← cutValue s.buf path val
  let calls := s.calls ++ [setting]
  if lklSysctl s.calls setting = 0 then return (⟨buf, sysctl, calls, s.warning⟩, true)
  return (⟨buf, sysctl, calls, some (.failed setting)⟩, false)

def loop (lklSysctl : LklSysctl) : Nat → Loop → Option (Option Loop)
  | 0, _ => none
  | rounds + 1, s =>
    match s.buf[s.sysctl]? with
    | none => some none
    | some c =>
      if c = nul then some (some s)
      else
        match round lklSysctl s with
        | none => some none
        | some (s, false) => some (some s)
        | some (s, true) => loop lklSysctl rounds s

def doSysctl (lklSysctl : LklSysctl) (rounds : Nat) : Option (List Char) → Option (Option Loop)
  | none => some (some ⟨[], 0, [], none⟩)
  | some sysctl => loop lklSysctl rounds ⟨sysctl ++ [nul], 0, [], none⟩

/-! ## A round -/

variable {lklSysctl : LklSysctl} {l s t path val rest : List Char} {calls : List Setting}
  {warning : Option Warning}

theorem readStr_append (hnul : nul ∉ t) (r : List Char) :
    readStr (l ++ (t ++ nul :: r)) l.length = some t := by
  rw [readStr, strchrnul_append hnul hnul (Or.inl rfl), Option.map_some, strAt_append hnul]

theorem getElem?_append_append (c : Char) (r : List Char) :
    (l ++ (t ++ c :: r))[l.length + t.length]? = some c := by
  rw [List.getElem?_append_right (by omega), Nat.add_sub_cancel_left,
    List.getElem?_append_right le_rfl, Nat.sub_self, List.getElem?_cons_zero]

def behindSpaces (s : List Char) : List Char := s.dropWhile (· == ' ')

theorem scan_spaces (l s : List Char) :
    ∃ l', l ++ (s ++ [nul]) = l' ++ (behindSpaces s ++ [nul])
      ∧ scan (fun c => !(c == ' ')) (l ++ (s ++ [nul])) l.length = some l'.length := by
  refine ⟨l ++ s.takeWhile (· == ' '), ?_, scan_skip (by decide)⟩
  rw [List.append_assoc, ← List.append_assoc (s.takeWhile _), behindSpaces,
    List.takeWhile_append_dropWhile]

theorem nul_not_mem_behindSpaces (hnul : nul ∉ s) : nul ∉ behindSpaces s :=
  fun hmem => hnul ((List.dropWhile_sublist _).subset hmem)

theorem round_not_separated (hnul : nul ∉ s) (heq : '=' ∉ behindSpaces s) :
    ∃ s', round lklSysctl ⟨l ++ (s ++ [nul]), l.length, calls, warning⟩ = some (s', false) := by
  obtain ⟨l', hbuf, hscan⟩ := scan_spaces l s
  have hnul' := nul_not_mem_behindSpaces hnul
  rw [round, hscan, hbuf]
  simp only [Option.bind_eq_bind, Option.bind_some, strchrnul_append heq hnul' (Or.inr rfl),
    getElem?_append_append, if_true, readStr_append hnul']
  exact ⟨_, rfl⟩

theorem cutValue_append (hpath : nul ∉ path) (hrest : nul ∉ rest) :
    ∃ l', cutValue (l ++ (path ++ '=' :: (rest ++ [nul]))) l.length (l.length + path.length)
      = some (⟨path, (strsep ';' rest).1⟩, l' ++ ((strsep ';' rest).2.getD [] ++ [nul]),
          l'.length) := by
  have hcut (x : List Char) : l ++ (path ++ nul :: x) = (l ++ (path ++ [nul])) ++ x := by simp
  have hval : l.length + path.length + 1 = (l ++ (path ++ [nul])).length := by
    simp
    omega
  have hread (x : List Char) : readStr ((l ++ (path ++ [nul])) ++ x) l.length = some path := by
    rw [← hcut]
    exact readStr_append hpath x
  rw [cutValue, set_append, hval, hcut]
  rcases strsep_cases ';' rest with ⟨hlast, hstr⟩ | ⟨v, r, hv, rfl, hstr⟩
  · refine ⟨l ++ (path ++ [nul]) ++ rest, ?_⟩
    simp only [Option.bind_eq_bind, Option.bind_some, strchrnul_append hlast hrest (Or.inr rfl),
      getElem?_append_append, if_true, hread, readStr_append hrest, hstr]
    simp
    omega
  · refine ⟨l ++ (path ++ [nul]) ++ (v ++ [nul]), ?_⟩
    rw [List.mem_append, not_or] at hrest
    have hsep : ¬ (some ';' = some nul) := by decide
    rw [List.append_assoc v, List.cons_append]
    simp only [Option.bind_eq_bind, Option.bind_some, strchrnul_append hv hrest.1 (Or.inl rfl),
      getElem?_append_append, if_neg hsep, set_append, hread, readStr_append hrest.1, hstr]
    simp
    omega

/-- **A setting is cut off the front of the text**, and `lkl_sysctl` is called for it. -/
theorem round_setting (l : List Char) (hnul : nul ∉ s)
    (htext : behindSpaces s = path ++ '=' :: rest) (heq : '=' ∉ path) :
    ∃ l' w, round lklSysctl ⟨l ++ (s ++ [nul]), l.length, calls, warning⟩
      = some (⟨l' ++ ((strsep ';' rest).2.getD [] ++ [nul]), l'.length,
          calls ++ [⟨path, (strsep ';' rest).1⟩], w⟩,
        decide (lklSysctl calls ⟨path, (strsep ';' rest).1⟩ = 0)) := by
  obtain ⟨l₁, hbuf, hscan⟩ := scan_spaces l s
  have hnul' := nul_not_mem_behindSpaces hnul
  rw [htext, List.mem_append, List.mem_cons, not_or, not_or] at hnul'
  obtain ⟨hnul₁, -, hnul₂⟩ := hnul'
  obtain ⟨l', hcut⟩ := @cutValue_append l₁ path rest hnul₁ hnul₂
  have hsep : ¬ (some '=' = some nul) := by decide
  rw [round, hscan, hbuf, htext, List.append_assoc, List.cons_append]
  simp only [Option.bind_eq_bind, Option.bind_some, strchrnul_append heq hnul₁ (Or.inl rfl),
    getElem?_append_append, if_neg hsep, hcut]
  refine ⟨l', ?_⟩
  split
  case isTrue hzero => exact ⟨_, by rw [decide_eq_true hzero]; rfl⟩
  case isFalse hfail => exact ⟨_, by rw [decide_eq_false hfail]; rfl⟩

/-! ## The loop on any text -/

theorem strsep_rest_sublist (c : Char) (s : List Char) :
    ((strsep c s).2.getD []).Sublist s := by
  rcases strsep_cases c s with ⟨-, hstr⟩ | ⟨t, r, -, rfl, hstr⟩
  · rw [hstr]
    exact List.nil_sublist s
  · rw [hstr]
    exact (List.sublist_cons_self c r).trans (List.sublist_append_right t _)

theorem loop_nil (rounds : Nat) :
    loop lklSysctl (rounds + 1) ⟨l ++ ([] ++ [nul]), l.length, calls, warning⟩
      = some (some ⟨l ++ ([] ++ [nul]), l.length, calls, warning⟩) := by
  simp [loop]

theorem loop_round {s' : Loop} {goesOn : Bool} (rounds : Nat) (hne : s ≠ []) (hnul : nul ∉ s)
    (hround : round lklSysctl ⟨l ++ (s ++ [nul]), l.length, calls, warning⟩ = some (s', goesOn)) :
    loop lklSysctl (rounds + 1) ⟨l ++ (s ++ [nul]), l.length, calls, warning⟩
      = if goesOn then loop lklSysctl rounds s' else some (some s') := by
  obtain ⟨c, cs, rfl⟩ := List.exists_cons_of_ne_nil hne
  have hc : ¬ c = nul := fun heq => hnul (heq ▸ List.mem_cons_self)
  have hget : (l ++ (c :: cs ++ [nul]))[l.length]? = some c := by simp
  simp only [loop, hget, if_neg hc, hround]
  cases goesOn <;> rfl

/-- **The loop ends**, and before the terminator: each round takes something off the text.
Induction on the rounds. -/
theorem loop_ends {rounds : Nat} (hrounds : s.length < rounds) (hnul : nul ∉ s) :
    ∃ s', loop lklSysctl rounds ⟨l ++ (s ++ [nul]), l.length, calls, warning⟩
      = some (some s') := by
  induction rounds generalizing l s calls warning with
  | zero => omega
  | succ rounds ih =>
    by_cases hne : s = []
    · subst hne
      exact ⟨_, loop_nil rounds⟩
    rcases strsep_cases '=' (behindSpaces s) with ⟨heq, -⟩ | ⟨path, rest, heq, htext, -⟩
    · obtain ⟨s', hround⟩ := @round_not_separated lklSysctl l s calls warning hnul heq
      exact ⟨s', loop_round rounds hne hnul hround⟩
    obtain ⟨l', w, hround⟩ := @round_setting lklSysctl _ _ _ calls warning l hnul htext heq
    rw [loop_round rounds hne hnul hround]
    split
    case isFalse => exact ⟨_, rfl⟩
    case isTrue =>
      have hsub : (path ++ '=' :: rest).Sublist s := htext ▸ List.dropWhile_sublist _
      have hrest : rest.Sublist (path ++ '=' :: rest) :=
        (List.sublist_cons_self _ _).trans (List.sublist_append_right _ _)
      have hnext := (strsep_rest_sublist ';' rest).trans (hrest.trans hsub)
      have hshort := (strsep_rest_sublist ';' rest).length_le
      have hlen := hsub.length_le
      rw [List.length_append, List.length_cons] at hlen
      exact ih (by omega) fun hmem => hnul (hnext.subset hmem)

/-! ## Listed settings -/

structure Setting.WellFormed (s : Setting) : Prop where
  path_ne : s.path ≠ []
  path_eq : '=' ∉ s.path
  path_start : s.path.head? ≠ some ' '
  val_end : ';' ∉ s.val
  path_nul : nul ∉ s.path
  val_nul : nul ∉ s.val

def entryText (entry : Nat × Setting) : List Char :=
  List.replicate entry.1 ' ' ++ (entry.2.path ++ '=' :: entry.2.val)

def listed (entries : List (Nat × Setting)) : List Char :=
  [';'].intercalate (entries.map entryText)

def applied (lklSysctl : LklSysctl) (made : List Setting) : List Setting → List Setting
  | [] => made
  | s :: settings =>
    if lklSysctl made s = 0 then applied lklSysctl (made ++ [s]) settings else made ++ [s]

variable {entry : Nat × Setting} {entries : List (Nat × Setting)}

theorem listed_cons (entry : Nat × Setting) (entries : List (Nat × Setting)) :
    ∃ tail, listed (entry :: entries) = entryText entry ++ tail
      ∧ (tail = [] ∧ entries = [] ∨ tail = ';' :: listed entries) := by
  cases entries with
  | nil => exact ⟨[], by simp [listed], Or.inl ⟨rfl, rfl⟩⟩
  | cons next entries =>
    exact ⟨_, by simp [listed, List.intercalate_cons_cons], Or.inr rfl⟩

theorem nul_not_mem_listed (h : ∀ e ∈ entries, e.2.WellFormed) : nul ∉ listed entries := by
  induction entries with
  | nil => simp [listed]
  | cons entry entries ih =>
    obtain ⟨hentry, hentries⟩ := List.forall_mem_cons.mp h
    obtain ⟨tail, htext, htail⟩ := listed_cons entry entries
    have hnul : nul ∉ entryText entry := by
      have hspace : nul ≠ ' ' := by decide
      have heq : nul ≠ '=' := by decide
      simp [entryText, hspace, heq, hentry.path_nul, hentry.val_nul]
    rw [htext, List.mem_append, not_or]
    refine ⟨hnul, ?_⟩
    rcases htail with ⟨rfl, -⟩ | rfl
    · exact List.not_mem_nil
    · rw [List.mem_cons, not_or]
      exact ⟨by decide, ih hentries⟩

/-- **The first setting is cut off the front of a list.** -/
theorem behindSpaces_listed (h : entry.2.WellFormed) :
    ∃ rest, behindSpaces (listed (entry :: entries)) = entry.2.path ++ '=' :: rest
      ∧ strsep ';' rest = (entry.2.val, (strsep ';' rest).2)
      ∧ (strsep ';' rest).2.getD [] = listed entries := by
  obtain ⟨tail, htext, htail⟩ := listed_cons entry entries
  refine ⟨entry.2.val ++ tail, ?_, ?_⟩
  · obtain ⟨c, cs, hpath⟩ := List.exists_cons_of_ne_nil h.path_ne
    have hc : ¬ (c == ' ') = true := by simpa [hpath] using h.path_start
    have hskip : (c :: (cs ++ '=' :: (entry.2.val ++ tail))).dropWhile (· == ' ')
        = c :: (cs ++ '=' :: (entry.2.val ++ tail)) := List.dropWhile_cons_of_neg hc
    rw [behindSpaces, htext, entryText, List.append_assoc, List.append_assoc,
      List.dropWhile_append_of_pos (by simp), hpath, List.cons_append, List.cons_append, hskip,
      List.cons_append]
  · rcases htail with ⟨rfl, rfl⟩ | rfl
    · rw [List.append_nil, strsep_of_not_mem h.val_end]
      exact ⟨rfl, rfl⟩
    · rw [strsep_append h.val_end]
      exact ⟨rfl, rfl⟩

theorem loop_listed {rounds : Nat} (h : ∀ e ∈ entries, e.2.WellFormed)
    (hrounds : entries.length < rounds) :
    ∃ s', loop lklSysctl rounds ⟨l ++ (listed entries ++ [nul]), l.length, calls, warning⟩
      = some (some s') ∧ s'.calls = applied lklSysctl calls (entries.map Prod.snd) := by
  induction entries generalizing l calls warning rounds with
  | nil =>
    obtain ⟨rounds, rfl⟩ : ∃ n, rounds = n + 1 := ⟨rounds - 1, by omega⟩
    exact ⟨_, loop_nil rounds, rfl⟩
  | cons entry entries ih =>
    obtain ⟨rounds, rfl⟩ : ∃ n, rounds = n + 1 := ⟨rounds - 1, by omega⟩
    obtain ⟨hentry, hentries⟩ := List.forall_mem_cons.mp h
    obtain ⟨rest, htext, hval, hrest⟩ := @behindSpaces_listed entry entries hentry
    have hne : listed (entry :: entries) ≠ [] := by
      intro hnil
      rw [hnil] at htext
      simp [behindSpaces] at htext
    have hnul := nul_not_mem_listed h
    obtain ⟨l', w, hround⟩ :=
      @round_setting lklSysctl _ _ _ calls warning l hnul htext hentry.path_eq
    rw [hrest, hval] at hround
    rw [loop_round rounds hne hnul hround, List.map_cons, applied]
    by_cases hzero : lklSysctl calls entry.2 = 0
    · rw [decide_eq_true hzero, if_pos rfl, if_pos hzero]
      exact ih hentries (by simpa using hrounds)
    · rw [decide_eq_false hzero, if_neg Bool.false_ne_true, if_neg hzero]
      exact ⟨_, rfl, rfl⟩

/-- **Settings are applied as listed**, up to the first that fails; and on any string the loop ends
without leaving it. -/
theorem sysctl_applied_as_listed (lklSysctl : LklSysctl) :
    (∀ (entries : List (Nat × Setting)) (rounds : Nat), (∀ e ∈ entries, e.2.WellFormed) →
      entries.length < rounds →
        ∃ s, doSysctl lklSysctl rounds (some (listed entries)) = some (some s)
          ∧ s.calls = applied lklSysctl [] (entries.map Prod.snd))
    ∧ ∀ (sysctl : List Char) (rounds : Nat), nul ∉ sysctl → sysctl.length < rounds →
      ∃ s, doSysctl lklSysctl rounds (some sysctl) = some (some s) := by
  constructor
  · intro entries rounds h hrounds
    exact @loop_listed lklSysctl [] [] none entries rounds h hrounds
  · intro sysctl rounds hnul hrounds
    exact @loop_ends lklSysctl [] sysctl [] none rounds hrounds hnul

/-- The second of three settings fails. -/
theorem sysctl_applied_as_listed_three :
    ∃ s, doSysctl (fun made _ => made.length) 4 (some "a=1;  b==;c=".toList) = some (some s)
      ∧ s.calls = [⟨['a'], ['1']⟩, ⟨['b'], ['=']⟩] := by
  refine (sysctl_applied_as_listed fun made _ => made.length).1
    [(0, ⟨['a'], ['1']⟩), (2, ⟨['b'], ['=']⟩), (0, ⟨['c'], []⟩)] 4 ?_ (by decide)
  simp only [List.forall_mem_cons]
  exact ⟨⟨by decide, by decide, by decide, by decide, by decide, by decide⟩,
    ⟨by decide, by decide, by decide, by decide, by decide, by decide⟩,
    ⟨by decide, by decide, by decide, by decide, by decide, by decide⟩, by simp⟩

end RktIo.Lkl.Sysctl
