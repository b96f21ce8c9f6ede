import RktIo.Lib.CBuffer

/-!
# Lists of disks and of peers (`main/sgxlkl_run.c`)

`register_hds` and `set_wg` scan the values of `SGXLKL_HDS` and `SGXLKL_WG_PEERS`, lists of items
`path:mnt:mode` and `key:ips:endpoint`, and cut them into strings in place. Both find the end of a
field with `strchrnul` and step over it without looking whether it is the terminator. What the host
does for a disk, which may end the program, is a parameter.
-/

namespace RktIo.Run

open CString CBuffer

/-! ## The loops -/

/-- Why a loop does not come to its end: it leaves the string, or the program ends with
`sgxlkl_fail`. -/
inductive Stop where
  | outside
  | exit
  deriving Repr, DecidableEq

def isSep (c : Char) : Bool := c == ' ' || c == ','

def itemCount (value : List Char) : Nat := if value = [] then 0 else 1 + value.count ','

/-- The variables of a loop: the string, the pointer to the next item, and what has been made of the
items before it. -/
structure Scan (α : Type) where
  buf : List Char
  pos : Nat
  items : List α
  deriving Repr, DecidableEq

def scanLoop {α : Type} (round : Scan α → Except Stop (Scan α)) :
    Nat → Scan α → Option (Except Stop Unit × Scan α)
  | 0, _ => none
  | rounds + 1, s =>
    match s.buf[s.pos]? with
    | none => some (.error .outside, s)
    | some c =>
      if c = nul then some (.ok (), s)
      else
        match round s with
        | .error stop => some (.error stop, s)
        | .ok s => scanLoop round rounds s

/-- The two `strchrnul` calls at the start of an item, with the terminators that are written: the
pointers behind them, and the buffer. -/
def cutItem (buf : List Char) (p : Nat) : Option (Nat × Nat × List Char) := do
  let first ← strchrnul buf ':' p
  let buf := buf.set first nul
  let second ← strchrnul buf ':' (first + 1)
  pure (first + 1, second + 1, buf.set second nul)

structure DiskFile where
  fd : Int
  capacity : Nat
  enc : Bool
  deriving Repr, DecidableEq

structure Disk where
  path : List Char
  mnt : List Char
  ro : Bool
  file : DiskFile
  deriving Repr, DecidableEq

/-- What the host makes of a disk, by its index, path and mode: opening and mapping it, and reading
its key and hashes. `none` is an error, which ends the program. -/
abbrev DiskHost := Nat → List Char → Bool → Option DiskFile

def SGXLKL_DISK_MNT_MAX_PATH_LEN : Nat := 255

def registerHd (host : DiskHost) (disks : List Disk) (path mnt : List Char) (ro : Bool) :
    Option (List Disk) :=
  if SGXLKL_DISK_MNT_MAX_PATH_LEN < mnt.length then none
  else
    (host disks.length path ro).map fun file =>
      disks ++ [⟨path, mnt.take SGXLKL_DISK_MNT_MAX_PATH_LEN, ro, file⟩]

def hdsRound (host : DiskHost) (s : Scan Disk) : Except Stop (Scan Disk) :=
  match cutItem s.buf s.pos with
  | none => .error .outside
  | some (mnt, mode, buf) =>
    match buf[mode]? with
    | none => .error .outside
    | some c =>
      match registerHd host s.items (strAt buf s.pos) (strAt buf mnt) (c == '1') with
      | none => .error .exit
      | some disks =>
        match (strchrnul buf ',' mode).bind (scan (fun c => !isSep c) buf) with
        | none => .error .outside
        | some pos => .ok ⟨buf, pos, disks⟩

def registerHds (host : DiskHost) (rounds : Nat) (rootHd : List Char) (rootRo : Bool)
    (value : List Char) : Option (Except Stop Unit × Scan Disk) :=
  match registerHd host [] rootHd ['/'] rootRo with
  | none => some (.error .exit, ⟨value ++ [nul], 0, []⟩)
  | some disks => scanLoop (hdsRound host) rounds ⟨value ++ [nul], 0, disks⟩

structure PeerPtrs where
  key : Nat
  allowedIps : Nat
  endpoint : Nat
  deriving Repr, DecidableEq

def wgRound (s : Scan PeerPtrs) : Except Stop (Scan PeerPtrs) :=
  match cutItem s.buf s.pos with
  | none => .error .outside
  | some (ips, endpoint, buf) =>
    match strchrnul buf ',' endpoint with
    | none => .error .outside
    | some pos =>
      let peers := s.items ++ [⟨s.pos, ips, endpoint⟩]
      if buf[pos]? = some ',' then
        let buf := buf.set pos nul
        match scan (fun c => !isSep c) buf (pos + 1) with
        | none => .error .outside
        | some pos => .ok ⟨buf, pos, peers⟩
      else .ok ⟨buf, pos, peers⟩

structure WgConfig where
  ip : BitVec 32
  listenPort : BitVec 16
  key : Option (List Char)
  peers : Scan PeerPtrs
  deriving Repr, DecidableEq

/-- The other options that `set_wg` reads: `SGXLKL_WG_IP`, as `inet_pton` converts it,
`SGXLKL_WG_PORT` and `SGXLKL_WG_KEY`. -/
structure WgOptions where
  ip : Option (BitVec 32)
  port : BitVec 64
  key : Option (List Char)
  deriving Repr, DecidableEq

def wgConfig (ip : BitVec 32) (opts : WgOptions) (peers : Scan PeerPtrs) : WgConfig :=
  ⟨ip, opts.port.setWidth 16, opts.key, peers⟩

/-- `set_wg`, for the value of `SGXLKL_WG_PEERS`; `none` is an address that is not valid, which ends
the program before the peers are looked at. -/
def setWg (rounds : Nat) (opts : WgOptions) (value : List Char) :
    Option (Except Stop Unit × Option WgConfig) :=
  match opts.ip with
  | none => some (.error .exit, none)
  | some ip =>
    let start : Scan PeerPtrs := ⟨value ++ [nul], 0, []⟩
    if itemCount value = 0 then some (.ok (), some (wgConfig ip opts start))
    else (scanLoop wgRound rounds start).map fun r => (r.1, some (wgConfig ip opts r.2))

/-! ## The items of a text -/

structure ListItem where
  first : List Char
  second : List Char
  third : List Char
  deriving Repr, DecidableEq

def ListItem.ro (item : ListItem) : Bool := item.third.head? == some '1'

def nextItem (s : List Char) : Option (ListItem × List Char) :=
  match strsep ':' s with
  | (_, none) => none
  | (first, some s) =>
    match strsep ':' s with
    | (_, none) => none
    | (second, some s) =>
      some (⟨first, second, (strsep ',' s).1⟩, ((strsep ',' s).2.getD []).dropWhile isSep)

variable {s l rest : List Char} {item : ListItem}

variable {first second tail : List Char}

theorem nextItem_two_colons (hfirst : ':' ∉ first) (hsecond : ':' ∉ second) (tail : List Char) :
    nextItem (first ++ ':' :: (second ++ ':' :: tail))
      = some (⟨first, second, (strsep ',' tail).1⟩,
          ((strsep ',' tail).2.getD []).dropWhile isSep) := by
  rw [nextItem, strsep_append hfirst]
  dsimp only
  rw [strsep_append hsecond]

theorem nextItem_cases (s : List Char) :
    (∃ first second tail, ':' ∉ first ∧ ':' ∉ second ∧ s = first ++ ':' :: (second ++ ':' :: tail))
      ∨ (nextItem s = none
        ∧ (':' ∉ s ∨ ∃ first second, ':' ∉ first ∧ ':' ∉ second ∧ s = first ++ ':' :: second)) := by
  rcases strsep_cases ':' s with ⟨hs, hsep⟩ | ⟨first, s₁, hfirst, rfl, hsep⟩
  · exact Or.inr ⟨by rw [nextItem, hsep], Or.inl hs⟩
  · rcases strsep_cases ':' s₁ with ⟨hs₁, hsep₁⟩ | ⟨second, tail, hsecond, rfl, -⟩
    · refine Or.inr ⟨?_, Or.inr ⟨first, s₁, hfirst, hs₁, rfl⟩⟩
      rw [nextItem, hsep]
      dsimp only
      rw [hsep₁]
    · exact Or.inl ⟨first, second, tail, hfirst, hsecond, rfl⟩

/-! ## The start of an item -/

theorem cutItem_colon {r : List Char} {d : Char} (hfirst : ':' ∉ first) (hsecond : ':' ∉ second)
    (hnul₁ : nul ∉ first) (hnul₂ : nul ∉ second) (hd : d = ':' ∨ d = nul) :
    cutItem (l ++ (first ++ ':' :: (second ++ d :: r))) l.length
      = some ((l ++ (first ++ [nul])).length, (l ++ (first ++ nul :: (second ++ [nul]))).length,
        l ++ (first ++ nul :: (second ++ nul :: r))) := by
  have hbuf (x : List Char) : l ++ (first ++ nul :: x) = (l ++ (first ++ [nul])) ++ x := by simp
  have hp : l.length + first.length + 1 = (l ++ (first ++ [nul])).length := by
    simp
    omega
  rw [cutItem, strchrnul_append hfirst hnul₁ (Or.inl rfl)]
  dsimp only [Option.bind_eq_bind, Option.bind_some]
  rw [set_append, hp, hbuf, strchrnul_append hsecond hnul₂ hd]
  dsimp only [Option.bind_some]
  rw [set_append]
  simp
  omega

theorem cutItem_few_colons (hitem : nextItem s = none) (hnul : nul ∉ s) :
    cutItem (l ++ (s ++ [nul])) l.length = none
      ∨ ∃ p buf, cutItem (l ++ (s ++ [nul])) l.length = some (p, buf.length, buf) := by
  rcases nextItem_cases s with ⟨first, second, tail, hfirst, hsecond, rfl⟩ | ⟨-, hcolons⟩
  · rw [nextItem_two_colons hfirst hsecond] at hitem
    cases hitem
  · rcases hcolons with hs | ⟨first, second, hfirst, hsecond, rfl⟩
    · left
      rw [cutItem, strchrnul_append hs hnul (Or.inr rfl)]
      dsimp only [Option.bind_eq_bind, Option.bind_some]
      have hp : l.length + s.length + 1 = (l ++ (s ++ [nul])).length := by
        simp
        omega
      rw [set_append, hp, strchrnul_length]
      rfl
    · right
      rw [List.mem_append, List.mem_cons, not_or, not_or] at hnul
      have hcut := @cutItem_colon l first second [] nul hfirst hsecond hnul.1 hnul.2.2 (Or.inr rfl)
      rw [List.append_assoc, List.cons_append]
      exact ⟨_, _, hcut⟩

def cutFields (l : List Char) (item : ListItem) : List Char :=
  l ++ (item.first ++ nul :: (item.second ++ [nul]))

theorem strAt_first (hnul : nul ∉ item.first) (x : List Char) :
    strAt (cutFields l item ++ x) l.length = item.first := by
  have h := @strAt_append l item.first (item.second ++ nul :: x) hnul
  rw [cutFields]
  simpa using h

theorem strAt_second (hnul : nul ∉ item.second) (x : List Char) :
    strAt (cutFields l item ++ x) (l ++ (item.first ++ [nul])).length = item.second := by
  have h := @strAt_append (l ++ (item.first ++ [nul])) item.second x hnul
  rw [cutFields]
  simpa using h

structure CutItem (l s : List Char) (item : ListItem) (rest tail : List Char) : Prop where
  cut : cutItem (l ++ (s ++ [nul])) l.length
    = some ((l ++ (item.first ++ [nul])).length, (cutFields l item).length,
      cutFields l item ++ (tail ++ [nul]))
  nul_first : nul ∉ item.first
  nul_second : nul ∉ item.second
  nul_tail : nul ∉ tail
  third : item.third = (strsep ',' tail).1
  rest : rest = ((strsep ',' tail).2.getD []).dropWhile isSep

theorem cutItem_item (l : List Char) (hnul : nul ∉ s) (hitem : nextItem s = some (item, rest)) :
    ∃ tail, CutItem l s item rest tail := by
  rcases nextItem_cases s with ⟨first, second, tail, hfirst, hsecond, rfl⟩ | ⟨hnone, -⟩
  · rw [nextItem_two_colons hfirst hsecond, Option.some.injEq, Prod.mk.injEq] at hitem
    obtain ⟨rfl, rfl⟩ := hitem
    simp only [List.mem_append, List.mem_cons, not_or] at hnul
    obtain ⟨hnul₁, -, hnul₂, -, hnul₃⟩ := hnul
    refine ⟨tail, ?_, hnul₁, hnul₂, hnul₃, rfl, rfl⟩
    have h := @cutItem_colon l first second (tail ++ [nul]) ':' hfirst hsecond hnul₁ hnul₂
      (Or.inl rfl)
    simpa [cutFields] using h
  · rw [hnone] at hitem
    cases hitem

/-! ## The end of an item -/

theorem skip_to_next (l : List Char) (hnul : nul ∉ tail) :
    ∃ l', strchrnul (l ++ (tail ++ [nul])) ',' l.length = some (l ++ (strsep ',' tail).1).length
      ∧ l ++ (tail ++ [nul]) = l' ++ (((strsep ',' tail).2.getD []).dropWhile isSep ++ [nul])
      ∧ scan (fun c => !isSep c) (l ++ (tail ++ [nul])) (l ++ (strsep ',' tail).1).length
        = some l'.length := by
  rcases strsep_cases ',' tail with ⟨htail, hsep⟩ | ⟨t, r, ht, rfl, hsep⟩
  · rw [hsep]
    refine ⟨l ++ tail, ?_, by simp, ?_⟩
    · rw [strchrnul_append htail hnul (Or.inr rfl), List.length_append]
    · have hstop := @scan_skip (l ++ tail) [] [] nul isSep rfl
      simpa using hstop
  · rw [hsep]
    rw [List.mem_append, not_or] at hnul
    have hskip : (',' :: r).dropWhile isSep = r.dropWhile isSep := by simp [isSep]
    refine ⟨l ++ t ++ (',' :: r).takeWhile isSep, ?_, ?_, ?_⟩
    · rw [List.append_assoc, List.cons_append, strchrnul_append ht hnul.1 (Or.inl rfl),
        List.length_append]
    · have hsplit := @List.takeWhile_append_dropWhile _ isSep (',' :: r)
      calc l ++ (t ++ ',' :: r ++ [nul])
          = l ++ t ++ ((',' :: r) ++ [nul]) := by simp
        _ = l ++ t ++ ((',' :: r).takeWhile isSep ++ (',' :: r).dropWhile isSep ++ [nul]) := by
            rw [hsplit]
        _ = l ++ t ++ (',' :: r).takeWhile isSep ++ (r.dropWhile isSep ++ [nul]) := by
            rw [hskip]
            simp only [List.append_assoc]
    · have hstop := @scan_skip (l ++ t) (',' :: r) [] nul isSep rfl
      simpa using hstop

theorem ro_of_head? {c : Char} (hc : (tail ++ [nul]).head? = some c)
    (hthird : item.third = (strsep ',' tail).1) : (c == '1') = item.ro := by
  rw [ListItem.ro, hthird]
  cases tail with
  | nil =>
    obtain rfl : nul = c := by simpa using hc
    rfl
  | cons d tail =>
    obtain rfl : d = c := by simpa using hc
    by_cases hd : d = ','
    · simp [strsep, hd]
    · simp [strsep, hd]

/-! ## A round -/

variable {host : DiskHost} {disks : List Disk} {peers : List PeerPtrs}

/-- **A round of `register_hds`** registers the item that the text starts with, and goes on with the
next one. -/
theorem hdsRound_item (hnul : nul ∉ s) (hitem : nextItem s = some (item, rest)) :
    ∃ l', hdsRound host ⟨l ++ (s ++ [nul]), l.length, disks⟩
      = match registerHd host disks item.first item.second item.ro with
        | none => .error .exit
        | some disks => .ok ⟨l' ++ (rest ++ [nul]), l'.length, disks⟩ := by
  obtain ⟨tail, h⟩ := cutItem_item l hnul hitem
  obtain ⟨c, hc⟩ : ∃ c, (tail ++ [nul]).head? = some c := by
    cases tail <;> simp
  have hmode : (cutFields l item ++ (tail ++ [nul]))[(cutFields l item).length]? = some c := by
    rw [List.getElem?_append_right le_rfl, Nat.sub_self, ← List.head?_eq_getElem?, hc]
  obtain ⟨l', hchr, hnext, hscan⟩ := skip_to_next (cutFields l item) h.nul_tail
  refine ⟨l', ?_⟩
  unfold hdsRound
  simp only [h.cut, hmode, strAt_first h.nul_first, strAt_second h.nul_second, hchr,
    Option.bind_some, hscan, ro_of_head? hc h.third]
  rw [hnext, ← h.rest]

theorem hdsRound_outside (hnul : nul ∉ s) (hitem : nextItem s = none) :
    hdsRound host ⟨l ++ (s ++ [nul]), l.length, disks⟩ = .error .outside := by
  unfold hdsRound
  rcases @cutItem_few_colons s l hitem hnul with hcut | ⟨p, buf, hcut⟩
  · simp only [hcut]
  · simp only [hcut, List.getElem?_length]

def cutPtrs (l : List Char) (item : ListItem) : PeerPtrs :=
  ⟨l.length, (l ++ (item.first ++ [nul])).length, (cutFields l item).length⟩

/-- **A round of `set_wg`** adds the item that the text starts with, and goes on with the next one.
Its third field is a string as well, by the terminator that is written for the comma or by the one
of the whole string. -/
theorem wgRound_item (hnul : nul ∉ s) (hitem : nextItem s = some (item, rest)) :
    ∃ l', wgRound ⟨l ++ (s ++ [nul]), l.length, peers⟩
        = .ok ⟨l' ++ (rest ++ [nul]), l'.length, peers ++ [cutPtrs l item]⟩
      ∧ ((rest = [] ∧ l' = cutFields l item ++ item.third)
        ∨ ∃ seps, l' = cutFields l item ++ (item.third ++ nul :: seps)) := by
  obtain ⟨tail, h⟩ := cutItem_item l hnul hitem
  have hthird := h.third
  have hrest := h.rest
  unfold wgRound cutPtrs
  simp only [h.cut]
  generalize cutFields l item = before
  rcases strsep_cases ',' tail with ⟨htail, hsep⟩ | ⟨t, r, ht, rfl, hsep⟩
  · rw [hsep] at hthird hrest
    obtain rfl : rest = [] := hrest
    refine ⟨before ++ tail, ?_, Or.inl ⟨rfl, by rw [hthird]⟩⟩
    have hend : (before ++ (tail ++ [nul]))[before.length + tail.length]? = some nul := by
      rw [← List.append_assoc, ← List.length_append, List.getElem?_concat_length]
    rw [strchrnul_append htail h.nul_tail (Or.inr rfl)]
    dsimp only
    rw [hend, if_neg (by decide)]
    simp
  · rw [hsep] at hthird hrest
    have hrest : rest = r.dropWhile isSep := hrest
    have hnul_t : nul ∉ t := fun hmem => h.nul_tail (by simp [hmem])
    have hbuf : before ++ (t ++ ',' :: r ++ [nul]) = before ++ (t ++ ',' :: (r ++ [nul])) := by simp
    have hcomma : (before ++ (t ++ ',' :: (r ++ [nul])))[before.length + t.length]? = some ',' := by
      rw [← List.append_assoc, ← List.length_append, List.getElem?_append_right le_rfl]
      simp
    have hp : before.length + t.length + 1 = (before ++ (t ++ [nul])).length := by
      simp
      omega
    have hcut : before ++ (t ++ nul :: (r ++ [nul]))
        = before ++ (t ++ [nul]) ++ (r ++ nul :: []) := by
      simp
    have hnext : before ++ (t ++ [nul]) ++ (r ++ [nul])
        = before ++ (t ++ [nul]) ++ r.takeWhile isSep ++ (r.dropWhile isSep ++ [nul]) := by
      rw [List.append_assoc _ (r.takeWhile isSep), ← List.append_assoc (r.takeWhile isSep),
        List.takeWhile_append_dropWhile]
    refine ⟨before ++ (t ++ [nul]) ++ r.takeWhile isSep, ?_, Or.inr ⟨r.takeWhile isSep, ?_⟩⟩
    · rw [hbuf, strchrnul_append ht hnul_t (Or.inl rfl)]
      dsimp only
      rw [hcomma, if_pos rfl, set_append, hp, hcut, scan_skip rfl, hrest, hnext]
    · rw [hthird]
      simp

theorem wgRound_outside (hnul : nul ∉ s) (hitem : nextItem s = none) :
    wgRound ⟨l ++ (s ++ [nul]), l.length, peers⟩ = .error .outside := by
  unfold wgRound
  rcases @cutItem_few_colons s l hitem hnul with hcut | ⟨p, buf, hcut⟩
  · simp only [hcut]
  · simp only [hcut, strchrnul_length]

/-! ## The loop -/

theorem nextItem_rest (hitem : nextItem s = some (item, rest)) :
    ∃ pre, s = pre ++ rest ∧ pre ≠ [] ∧ (rest ≠ [] → ',' ∈ pre) := by
  rcases nextItem_cases s with ⟨first, second, tail, hfirst, hsecond, rfl⟩ | ⟨hnone, -⟩
  · rw [nextItem_two_colons hfirst hsecond, Option.some.injEq, Prod.mk.injEq] at hitem
    obtain ⟨-, rfl⟩ := hitem
    rcases strsep_cases ',' tail with ⟨-, hsep⟩ | ⟨t, r, -, rfl, hsep⟩
    · rw [hsep]
      exact ⟨_, (List.append_nil _).symm, by simp, by simp⟩
    · rw [hsep]
      refine ⟨first ++ ':' :: (second ++ ':' :: (t ++ ',' :: r.takeWhile isSep)), ?_, by simp,
        by simp⟩
      have hsplit := @List.takeWhile_append_dropWhile _ isSep r
      simp [hsplit]
  · rw [hnone] at hitem
    cases hitem

theorem itemCount_of_ne_nil (hs : s ≠ []) : itemCount s = 1 + s.count ',' := if_neg hs

theorem itemCount_rest (hitem : nextItem s = some (item, rest)) :
    itemCount rest + 1 ≤ itemCount s := by
  obtain ⟨pre, rfl, hpre, hcomma⟩ := nextItem_rest hitem
  rw [itemCount_of_ne_nil (List.append_ne_nil_of_left_ne_nil hpre rest), List.count_append]
  by_cases hrest : rest = []
  · simp [hrest, itemCount]
  · have := List.count_pos_iff.mpr (hcomma hrest)
    rw [itemCount_of_ne_nil hrest]
    omega

variable {α : Type} {stops : Nat → ListItem → Prop} {round : Scan α → Except Stop (Scan α)}
  {items : List α} {k : Nat}

/-- The texts that a loop scans without leaving them: at every item that it comes to there are two
colons. `stops` says for which items the program ends, by the number of those before. -/
inductive Scans (stops : Nat → ListItem → Prop) : Nat → List Char → Prop where
  | nil {k : Nat} : Scans stops k []
  | stop {k : Nat} {s rest : List Char} {item : ListItem} (h : nextItem s = some (item, rest))
      (hstop : stops k item) : Scans stops k s
  | next {k : Nat} {s rest : List Char} {item : ListItem} (h : nextItem s = some (item, rest))
      (hrest : Scans stops (k + 1) rest) : Scans stops k s

structure RoundSpec (stops : Nat → ListItem → Prop) (round : Scan α → Except Stop (Scan α)) :
    Prop where
  item {s rest : List Char} {item : ListItem} (l : List Char) (items : List α) (hnul : nul ∉ s)
    (h : nextItem s = some (item, rest)) :
    (stops items.length item ∧ round ⟨l ++ (s ++ [nul]), l.length, items⟩ = .error .exit)
      ∨ (¬ stops items.length item
        ∧ ∃ l' a, round ⟨l ++ (s ++ [nul]), l.length, items⟩
          = .ok ⟨l' ++ (rest ++ [nul]), l'.length, items ++ [a]⟩)
  outside {s : List Char} (l : List Char) (items : List α) (hnul : nul ∉ s)
    (h : nextItem s = none) : round ⟨l ++ (s ++ [nul]), l.length, items⟩ = .error .outside

theorem scanLoop_nil (round : Scan α → Except Stop (Scan α)) (rounds : Nat) (l : List Char)
    (items : List α) :
    scanLoop round (rounds + 1) ⟨l ++ ([] ++ [nul]), l.length, items⟩
      = some (.ok (), ⟨l ++ ([] ++ [nul]), l.length, items⟩) := by
  simp [scanLoop]

theorem scanLoop_round (hs : s ≠ []) (hnul : nul ∉ s) (rounds : Nat) (l : List Char)
    (items : List α) :
    scanLoop round (rounds + 1) ⟨l ++ (s ++ [nul]), l.length, items⟩
      = match round ⟨l ++ (s ++ [nul]), l.length, items⟩ with
        | .error stop => some (.error stop, ⟨l ++ (s ++ [nul]), l.length, items⟩)
        | .ok s => scanLoop round rounds s := by
  obtain ⟨c, s, rfl⟩ := List.exists_cons_of_ne_nil hs
  have hc : c ≠ nul := fun h => hnul (by simp [h])
  have hread : (l ++ (c :: s ++ [nul]))[l.length]? = some c := by
    rw [List.getElem?_append_right le_rfl, Nat.sub_self]
    rfl
  rw [scanLoop]
  dsimp only
  rw [hread]
  dsimp only
  rw [if_neg hc]

theorem ne_nil_of_nextItem (h : nextItem s = some (item, rest)) : s ≠ [] := by
  obtain ⟨pre, rfl, hpre, -⟩ := nextItem_rest h
  simp [hpre]

theorem nul_not_mem_rest (h : nextItem s = some (item, rest)) (hnul : nul ∉ s) : nul ∉ rest := by
  obtain ⟨pre, rfl, -⟩ := nextItem_rest h
  exact fun hmem => hnul (by simp [hmem])

theorem RoundSpec.within (hround : RoundSpec stops round) (h : Scans stops items.length s)
    (hnul : nul ∉ s) (l : List Char) :
    ∃ rounds ret t, scanLoop round rounds ⟨l ++ (s ++ [nul]), l.length, items⟩ = some (ret, t)
      ∧ ret ≠ .error .outside ∧ t.items.length ≤ items.length + itemCount s := by
  generalize hk : items.length = k at h
  induction h generalizing items l with
  | nil => exact ⟨1, _, _, scanLoop_nil round 0 l items, by simp, by simp [hk]⟩
  | @stop k s rest item hitem hstop =>
    rcases hround.item l items hnul hitem with ⟨-, hexit⟩ | ⟨hnot, -⟩
    · refine ⟨1, _, _, by rw [scanLoop_round (ne_nil_of_nextItem hitem) hnul, hexit], by simp, ?_⟩
      simp [hk]
    · rw [hk] at hnot
      exact absurd hstop hnot
  | @next k s rest item hitem _ ih =>
    have hcount := itemCount_rest hitem
    rcases hround.item l items hnul hitem with ⟨-, hexit⟩ | ⟨-, l', a, hok⟩
    · refine ⟨1, _, _, by rw [scanLoop_round (ne_nil_of_nextItem hitem) hnul, hexit], by simp, ?_⟩
      simp [hk]
    · have hlength : (items ++ [a]).length = k + 1 := by simp [hk]
      obtain ⟨rounds, ret, t, hloop, hret, hle⟩ := ih (nul_not_mem_rest hitem hnul) l' hlength
      refine ⟨rounds + 1, ret, t, ?_, hret, by omega⟩
      rw [scanLoop_round (ne_nil_of_nextItem hitem) hnul, hok]
      exact hloop

theorem RoundSpec.scans (hround : RoundSpec stops round) {rounds : Nat} {ret : Except Stop Unit}
    {t : Scan α} (hnul : nul ∉ s)
    (h : scanLoop round rounds ⟨l ++ (s ++ [nul]), l.length, items⟩ = some (ret, t))
    (hret : ret ≠ .error .outside) : Scans stops items.length s := by
  induction rounds generalizing s l items with
  | zero => cases h
  | succ rounds ih =>
    by_cases hs : s = []
    · rw [hs]
      exact .nil
    · rw [scanLoop_round hs hnul] at h
      cases hitem : nextItem s with
      | none =>
        rw [hround.outside l items hnul hitem] at h
        cases h
        exact absurd rfl hret
      | some p =>
        obtain ⟨item, rest⟩ := p
        rcases hround.item l items hnul hitem with ⟨hstop, -⟩ | ⟨-, l', a, hok⟩
        · exact .stop hitem hstop
        · rw [hok] at h
          have hrest := ih (nul_not_mem_rest hitem hnul) h
          rw [List.length_append] at hrest
          exact .next hitem hrest

/-! ## Both functions -/

def hdStops (host : DiskHost) (k : Nat) (item : ListItem) : Prop :=
  SGXLKL_DISK_MNT_MAX_PATH_LEN < item.second.length ∨ host k item.first item.ro = none

theorem registerHd_eq_none (h : hdStops host disks.length item) :
    registerHd host disks item.first item.second item.ro = none := by
  unfold registerHd
  rcases h with h | h
  · rw [if_pos h]
  · rw [h, Option.map_none, ite_self]

theorem registerHd_eq_some (h : ¬ hdStops host disks.length item) :
    ∃ file, host disks.length item.first item.ro = some file
      ∧ registerHd host disks item.first item.second item.ro
        = some (disks ++ [⟨item.first, item.second, item.ro, file⟩]) := by
  rw [hdStops, not_or, not_lt] at h
  obtain ⟨file, hfile⟩ := Option.ne_none_iff_exists'.mp h.2
  refine ⟨file, hfile, ?_⟩
  rw [registerHd, if_neg (by omega), hfile, Option.map_some, List.take_of_length_le h.1]

theorem hdsRound_spec (host : DiskHost) : RoundSpec (hdStops host) (hdsRound host) where
  item {s rest item} l items hnul h := by
    obtain ⟨l', hround⟩ := @hdsRound_item s l rest item host items hnul h
    by_cases hstop : hdStops host items.length item
    · rw [registerHd_eq_none hstop] at hround
      exact Or.inl ⟨hstop, hround⟩
    · obtain ⟨file, -, hregister⟩ := registerHd_eq_some hstop
      rw [hregister] at hround
      exact Or.inr ⟨hstop, l', _, hround⟩
  outside l items hnul h := hdsRound_outside hnul h

theorem wgRound_spec : RoundSpec (fun _ _ => False) wgRound where
  item {s rest item} l items hnul h := by
    obtain ⟨l', hround, -⟩ := @wgRound_item s l rest item items hnul h
    exact Or.inr ⟨id, l', _, hround⟩
  outside l items hnul h := wgRound_outside hnul h

/-- `register_hds` ends without having left the value of `SGXLKL_HDS`, and has registered no more
disks than there are entries for. -/
def HdsWithin (host : DiskHost) (rootHd : List Char) (rootRo : Bool) (value : List Char) : Prop :=
  ∃ rounds ret t, registerHds host rounds rootHd rootRo value = some (ret, t)
    ∧ ret ≠ .error .outside ∧ t.items.length ≤ 1 + itemCount value

/-- `set_wg` ends without having left the value of `SGXLKL_WG_PEERS`, and there are no more peers
than entries for them. -/
def WgWithin (opts : WgOptions) (value : List Char) : Prop :=
  ∃ rounds ret conf, setWg rounds opts value = some (ret, conf)
    ∧ ret ≠ .error .outside ∧ ∀ c ∈ conf, c.peers.items.length ≤ itemCount value

def rootStops (host : DiskHost) (rootHd : List Char) (rootRo : Bool) : Prop :=
  host 0 rootHd rootRo = none

theorem registerHd_root {rootHd : List Char} {rootRo : Bool} {file : DiskFile}
    (hfile : host 0 rootHd rootRo = some file) :
    registerHd host [] rootHd ['/'] rootRo = some [⟨rootHd, ['/'], rootRo, file⟩] := by
  simp [registerHd, hfile, SGXLKL_DISK_MNT_MAX_PATH_LEN]

theorem hdsWithin_iff {rootHd value : List Char} {rootRo : Bool} (hnul : nul ∉ value) :
    HdsWithin host rootHd rootRo value
      ↔ rootStops host rootHd rootRo ∨ Scans (hdStops host) 1 value := by
  cases hfile : host 0 rootHd rootRo with
  | none =>
    refine iff_of_true ⟨0, .error .exit, ⟨value ++ [nul], 0, []⟩, ?_, by simp, by simp⟩
      (Or.inl hfile)
    simp [registerHds, registerHd, hfile]
  | some file =>
    have hroot := registerHd_root hfile
    have hnot : ¬ rootStops host rootHd rootRo := by simp [rootStops, hfile]
    constructor
    · rintro ⟨rounds, ret, t, hrun, hret, -⟩
      rw [registerHds, hroot] at hrun
      exact Or.inr ((hdsRound_spec host).scans (l := []) hnul hrun hret)
    · intro h
      obtain ⟨rounds, ret, t, hrun, hret, hle⟩ :=
        @RoundSpec.within _ _ _ _ [⟨rootHd, ['/'], rootRo, file⟩] (hdsRound_spec host)
          (h.resolve_left hnot) hnul []
      refine ⟨rounds, ret, t, ?_, hret, hle⟩
      rw [registerHds, hroot]
      exact hrun

theorem setWg_nil {opts : WgOptions} {ip : BitVec 32} (hip : opts.ip = some ip) (rounds : Nat) :
    setWg rounds opts [] = some (.ok (), some (wgConfig ip opts ⟨[nul], 0, []⟩)) := by
  simp [setWg, hip, itemCount]

theorem setWg_eq {opts : WgOptions} {ip : BitVec 32} {value : List Char} {rounds : Nat}
    (hip : opts.ip = some ip) (hvalue : value ≠ []) :
    setWg rounds opts value = (scanLoop wgRound rounds ⟨value ++ [nul], 0, []⟩).map fun r =>
      (r.1, some (wgConfig ip opts r.2)) := by
  have hcount : itemCount value ≠ 0 := by
    rw [itemCount_of_ne_nil hvalue]
    omega
  simp [setWg, hip, hcount]

theorem wgWithin_iff {opts : WgOptions} {value : List Char} (hnul : nul ∉ value) :
    WgWithin opts value ↔ opts.ip = none ∨ Scans (fun _ _ => False) 0 value := by
  cases hip : opts.ip with
  | none =>
    refine iff_of_true ⟨0, .error .exit, none, ?_, by simp, by simp⟩ (Or.inl rfl)
    simp [setWg, hip]
  | some ip =>
    constructor
    · rintro ⟨rounds, ret, conf, hset, hret, -⟩
      by_cases hvalue : value = []
      · rw [hvalue]
        exact Or.inr .nil
      · rw [setWg_eq hip hvalue, Option.map_eq_some_iff] at hset
        obtain ⟨⟨ret', t⟩, hloop, heq⟩ := hset
        cases heq
        exact Or.inr (wgRound_spec.scans (l := []) hnul hloop hret)
    · intro h
      by_cases hvalue : value = []
      · rw [hvalue]
        exact ⟨0, _, _, setWg_nil hip 0, by simp, by simp [wgConfig]⟩
      · obtain ⟨rounds, ret, t, hloop, hret, hle⟩ :=
          @RoundSpec.within _ _ _ _ [] wgRound_spec (h.resolve_left (by simp)) hnul []
        refine ⟨rounds, ret, some (wgConfig ip opts t), ?_, hret, ?_⟩
        · rw [setWg_eq hip hvalue, Option.map_eq_some_iff]
          exact ⟨(ret, t), hloop, rfl⟩
        · intro c hc
          obtain rfl := Option.some.inj hc
          simpa [wgConfig] using hle

/-- **The lists of disks and peers are parsed within the strings if and only if there are two colons
at every item that the loops come to**, or the program ends before. -/
theorem item_lists_within_iff {rootHd hds wgPeers : List Char} {rootRo : Bool} {opts : WgOptions}
    (hhds : nul ∉ hds) (hpeers : nul ∉ wgPeers) :
    (HdsWithin host rootHd rootRo hds ∧ WgWithin opts wgPeers)
      ↔ (rootStops host rootHd rootRo ∨ Scans (hdStops host) 1 hds)
        ∧ (opts.ip = none ∨ Scans (fun _ _ => False) 0 wgPeers) := by
  rw [hdsWithin_iff hhds, wgWithin_iff hpeers]

def openingHost : DiskHost := fun k _ _ => some ⟨k, 0, false⟩

def wgOptions : WgOptions := ⟨some 0x0a000201, 56002, none⟩

theorem item_lists_within_iff_two_disks :
    HdsWithin openingHost "root".toList false "a:/a:1, b:/b:0".toList
      ∧ WgWithin wgOptions "key:10.0.0.1,10.0.0.2:host:1".toList :=
  (item_lists_within_iff (by decide) (by decide)).mpr
    ⟨Or.inr (.next rfl (.next rfl .nil)), Or.inr (.next rfl .nil)⟩

/-- A path without a mount point: behind the terminator, the next colon is looked for. -/
theorem disk_without_colon_outside :
    nul ∉ "disk".toList
      ∧ ¬ (HdsWithin openingHost "root".toList false "disk".toList
        ∧ WgWithin wgOptions "".toList) := by
  refine ⟨by decide, ?_⟩
  rintro ⟨⟨rounds, ret, t, hrun, hret, -⟩, -⟩
  cases rounds with
  | zero => cases hrun
  | succ rounds =>
    have houtside : registerHds openingHost (rounds + 1) "root".toList false "disk".toList
        = some (.error .outside, ⟨"disk".toList ++ [nul], 0, [⟨"root".toList, ['/'], false,
          ⟨0, 0, false⟩⟩]⟩) := rfl
    rw [houtside] at hrun
    cases hrun
    exact hret rfl

end RktIo.Run
