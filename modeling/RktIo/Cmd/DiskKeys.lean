import RktIo.Cmd.Elements
import RktIo.Shared.Hex

/-!
# The keys of encrypted disks (`parse_disks`)

`parse_enclave_disk_config_entry` stores the result of `hex_to_bytes` in `key_len` and then asks
whether it is negative. The field is unsigned, so the answer is always no: a key that cannot be
decoded does not fail the parse, but leaves a disk that is marked as encrypted, with a key length of
`SIZE_MAX` and no key.

The members of a disk that are visited decide whether the parse goes on (`EntryAccepted`), and what
they do to the key is a fold over the key strings among them (`parseJson_diskKey`).
-/

namespace RktIo.Cmd

open CString Shared List

/-! ## Accepted members -/

def DISK_KEYS : List String := ["disk", "key", "roothash", "roothash_offset", "readonly"]

def MemberAccepted (m : String × Json) : Prop := assertEntryType m.1 m.2 = false ∧ m.1 ∈ DISK_KEYS

def EntryAccepted (members : List (String × Json)) : Prop := ∀ m ∈ visited members, MemberAccepted m

def Refused (vals : List Json) : Prop :=
  ∃ pre members post, vals = pre ++ .object members :: post
    ∧ (∀ v ∈ pre, ∃ before, v = .object before ∧ EntryAccepted before) ∧ ¬ EntryAccepted members

/-! ## The key of a disk -/

structure DiskKey where
  enc : Bool := false
  keyLen : Nat := 0
  key : Option (List UInt8) := none

def EnclaveDiskConfig.diskKey (disk : EnclaveDiskConfig) : DiskKey :=
  ⟨disk.enc, disk.keyLen, disk.key⟩

def DiskKey.set (k : DiskKey) (s : List Char) : DiskKey :=
  match hexToBytes s with
  | none => ⟨true, 2 ^ 64 - 1, k.key⟩
  | some bytes => ⟨true, bytes.length, some bytes⟩

def keyString : String × Json → Option (List Char)
  | (name, .string s) => if name = "key" then some s else none
  | _ => none

variable {m : String × Json} {s : List Char}

theorem keyString_eq_some : keyString m = some s ↔ m = ("key", .string s) := by
  obtain ⟨name, value⟩ := m
  cases value <;> simp [keyString]

def keyStrings (members : List (String × Json)) : List (List Char) := members.filterMap keyString

variable {members : List (String × Json)}

theorem mem_keyStrings : s ∈ keyStrings members ↔ ("key", .string s) ∈ members := by
  simp [keyStrings, keyString_eq_some]

theorem mem_of_visited (h : m ∈ visited members) : m ∈ members :=
  (takeWhile_sublist _).subset h

def ValidKey (s : List Char) : Prop := AllDigits s ∧ s.length % 2 = 0

theorem DiskKey.set_of_valid (h : ValidKey s) (k : DiskKey) :
    k.set s = ⟨true, s.length / 2, some (hexValue s)⟩ := by
  simp [DiskKey.set, hexToBytes_of_digits h.2 h.1, length_hexValue]

theorem foldl_set_of_valid {l : List (List Char)} (h : ∀ s ∈ l, ValidKey s)
    (hlast : l.getLast? = some s) (k : DiskKey) :
    l.foldl DiskKey.set k = ⟨true, s.length / 2, some (hexValue s)⟩ := by
  obtain ⟨l', rfl⟩ := getLast?_eq_some_iff.mp hlast
  rw [foldl_append]
  exact DiskKey.set_of_valid (h s (by simp)) _

/-! ## One disk -/

theorem keyString_of_ne {name : String} (h : name ≠ "key") (value : Json) :
    keyString (name, value) = none := by
  cases value <;> simp [keyString, h]

theorem key_is_string {value : Json} (h : assertEntryType "key" value = false) :
    ∃ s, value = .string s := by
  cases value <;>
    simp [assertEntryType, STRING_KEYS, BOOL_KEYS, INT_KEYS, ARRAY_KEYS, isString] at h ⊢

theorem entry_of_accepted (h : MemberAccepted m) (disk : Parsing EnclaveDiskConfig) :
    ∃ disk', parseEnclaveDiskConfigEntry m.1 m.2 disk = some (0, disk')
      ∧ disk'.val.diskKey = (keyString m).elim disk.val.diskKey disk.val.diskKey.set := by
  obtain ⟨name, value⟩ := m
  obtain ⟨htype, hname⟩ := h
  dsimp only at htype hname
  unfold parseEnclaveDiskConfigEntry
  rw [htype]
  by_cases hkey : name = "key"
  · obtain rfl := hkey
    obtain ⟨s, rfl⟩ := key_is_string htype
    cases hbytes : hexToBytes s <;>
      simp [keyString, EnclaveDiskConfig.diskKey, DiskKey.set, getString, hbytes]
  · -- the other members leave the key alone
    rw [keyString_of_ne hkey]
    have hcases : name = "disk" ∨ name = "roothash" ∨ name = "roothash_offset"
        ∨ name = "readonly" := by
      simpa [DISK_KEYS, hkey] using hname
    rcases hcases with rfl | rfl | rfl | rfl
    · refine ⟨_, rfl, ?_⟩
      show EnclaveDiskConfig.diskKey _ = disk.val.diskKey
      split <;> rfl
    · exact ⟨_, rfl, rfl⟩
    · cases value <;> exact ⟨_, rfl, rfl⟩
    · cases value <;> exact ⟨_, rfl, rfl⟩

theorem entry_of_not_accepted (h : ¬ MemberAccepted m) (disk : Parsing EnclaveDiskConfig) :
    ∃ disk', parseEnclaveDiskConfigEntry m.1 m.2 disk = some (1, disk') := by
  unfold parseEnclaveDiskConfigEntry
  cases htype : assertEntryType m.1 m.2 with
  | true => simp
  | false =>
    have hname : m.1 ∉ DISK_KEYS := fun hname => h ⟨htype, hname⟩
    simp only [DISK_KEYS, mem_cons, not_mem_nil, or_false, not_or] at hname
    obtain ⟨hdisk, hkey, hroot, hoffset, hro⟩ := hname
    simp [hdisk, hkey, hroot, hoffset, hro]

/-- **One disk that is accepted**: the key strings that are visited, one after another. Induction
on the members. -/
theorem parseJson_diskKey (h : EntryAccepted members) (disk : Parsing EnclaveDiskConfig) :
    ∃ disk', parseJson parseEnclaveDiskConfigEntry members disk = some (0, disk')
      ∧ disk'.val.diskKey = (keyStrings (visited members)).foldl DiskKey.set disk.val.diskKey := by
  induction members generalizing disk with
  | nil => exact ⟨disk, rfl, rfl⟩
  | cons m members ih =>
    cases hnull : m.2.isNull with
    | true => exact ⟨disk, by simp [parseJson, hnull], by simp [visited, hnull, keyStrings]⟩
    | false =>
      have hvisited : visited (m :: members) = m :: visited members := by simp [visited, hnull]
      rw [EntryAccepted, hvisited, forall_mem_cons] at h
      obtain ⟨disk₁, hentry, hkey₁⟩ := entry_of_accepted h.1 disk
      obtain ⟨disk₂, hparse, hkey₂⟩ := ih h.2 disk₁
      refine ⟨disk₂, by simp [parseJson, hnull, hentry, hparse], ?_⟩
      rw [hkey₂, hkey₁, hvisited]
      unfold keyStrings
      rw [filterMap_cons]
      cases keyString m <;> rfl

theorem diskEntry_checks : Checks parseEnclaveDiskConfigEntry MemberAccepted where
  takes h disk := by
    obtain ⟨disk', hentry, -⟩ := entry_of_accepted h disk
    exact ⟨disk', hentry⟩
  refuses h disk := entry_of_not_accepted h disk

/-! ## All disks -/

def parsedDisk (members : List (String × Json)) : EnclaveDiskConfig :=
  ((parseJson parseEnclaveDiskConfigEntry members ⟨{}, []⟩).map fun r => r.2.val).getD {}

def objectMembers : Json → List (String × Json)
  | .object members => members
  | _ => []

theorem parsedDisk_key (h : EntryAccepted members) :
    (parsedDisk members).diskKey = (keyStrings (visited members)).foldl DiskKey.set {} := by
  obtain ⟨disk, hparse, hkey⟩ := parseJson_diskKey h ⟨{}, []⟩
  rw [parsedDisk, hparse]
  exact hkey

variable {vals : List Json}

theorem parseElements_of_accepted
    (h : ∀ v ∈ vals, ∃ members, v = .object members ∧ EntryAccepted members) :
    ∃ stderr, parseElements parseEnclaveDiskConfigEntry {} vals
      = some (0, vals.map fun v => parsedDisk (objectMembers v), stderr) := by
  obtain ⟨stderr, hparse⟩ := diskEntry_checks.parseElements_of_objects {} h
  refine ⟨stderr, hparse.trans ?_⟩
  congr 3
  refine map_congr_left fun v hv => ?_
  obtain ⟨members, rfl, -⟩ := h v hv
  rfl

/-! ## Decoded or refused -/

def EnclaveDiskConfig.HoldsKey (disk : EnclaveDiskConfig) (s : List Char) : Prop :=
  disk.enc = true ∧ disk.keyLen = s.length / 2 ∧ disk.key = some (hexValue s)

/-- The key strings of the array are decoded or refused: if the parse succeeds, every one of them
is an even number of digits and the disk of its entry holds its bytes, and if one of them is
anything else, the parse fails and leaves the configuration as it was. -/
def DisksDecoded (config : Parsing AppConfig) (vals : List Json) : Prop :=
  ∃ (ret : Int) (config' : Parsing AppConfig), parseDisks config (.array vals) = some (ret, config')
    ∧ (ret = 0 → ∃ disks, config'.val.disks = some disks ∧ config'.val.numDisks = vals.length
      ∧ ∀ (i : Nat) members s, vals[i]? = some (.object members) → ("key", .string s) ∈ members →
        ValidKey s ∧ ∃ disk, disks[i]? = some disk ∧ disk.HoldsKey s)
    ∧ ((∃ members s, Json.object members ∈ vals ∧ ("key", .string s) ∈ members ∧ ¬ ValidKey s) →
      ret ≠ 0 ∧ config'.val = config.val)

def KeyVisited (members : List (String × Json)) (s : List Char) : Prop :=
  (keyStrings (visited members)).getLast?.map hexValue = some (hexValue s)

theorem holdsKey_iff (haccepted : EntryAccepted members)
    (hvalid : ∀ s ∈ keyStrings members, ValidKey s) (s : List Char) :
    (parsedDisk members).HoldsKey s ↔ KeyVisited members s := by
  have hkey := parsedDisk_key haccepted
  have hread : ∀ s ∈ keyStrings (visited members), ValidKey s := by
    intro s hs
    exact hvalid s (mem_keyStrings.mpr (mem_of_visited (mem_keyStrings.mp hs)))
  unfold KeyVisited EnclaveDiskConfig.HoldsKey
  cases hlast : (keyStrings (visited members)).getLast? with
  | none =>
    rw [getLast?_eq_none_iff.mp hlast] at hkey
    have hnone : (parsedDisk members).key = none := congrArg DiskKey.key hkey
    simp [hnone]
  | some s' =>
    rw [foldl_set_of_valid hread hlast] at hkey
    have henc : (parsedDisk members).enc = true := congrArg DiskKey.enc hkey
    have hlen : (parsedDisk members).keyLen = s'.length / 2 := congrArg DiskKey.keyLen hkey
    have hbytes : (parsedDisk members).key = some (hexValue s') := congrArg DiskKey.key hkey
    simp only [henc, hlen, hbytes, true_and, Option.map_some, Option.some.injEq]
    refine and_iff_right_of_imp fun h => ?_
    rw [← length_hexValue, ← length_hexValue, h]

theorem parseDisks_of_refused (h : Refused vals) (config : Parsing AppConfig) :
    ∃ config', parseDisks config (.array vals) = some (1, config') ∧ config'.val = config.val := by
  obtain ⟨disks, stderr, hparse⟩ := diskEntry_checks.parseElements_of_refused {} h
  exact ⟨{ config with stderr := config.stderr ++ stderr }, by simp [parseDisks, hparse], rfl⟩

theorem parseDisks_of_accepted
    (h : ∀ v ∈ vals, ∃ members, v = .object members ∧ EntryAccepted members)
    (config : Parsing AppConfig) :
    ∃ config', parseDisks config (.array vals) = some (0, config')
      ∧ config'.val.disks = some (vals.map fun v => parsedDisk (objectMembers v))
      ∧ config'.val.numDisks = vals.length := by
  obtain ⟨stderr, hparse⟩ := parseElements_of_accepted h
  exact ⟨_, by simp only [parseDisks, hparse]; rfl, rfl, length_map _⟩

theorem disksDecoded_iff_of_accepted (config : Parsing AppConfig)
    (haccepted : ∀ v ∈ vals, ∃ members, v = .object members ∧ EntryAccepted members) :
    DisksDecoded config vals ↔ ∀ members s, .object members ∈ vals →
      ("key", .string s) ∈ members → ValidKey s ∧ KeyVisited members s := by
  obtain ⟨config', hparse, hdisks, hnum⟩ := parseDisks_of_accepted haccepted config
  have hholds : ∀ members, .object members ∈ vals →
      (∀ s, ("key", .string s) ∈ members → ValidKey s) →
      ∀ s, (parsedDisk members).HoldsKey s ↔ KeyVisited members s := by
    intro members hobject hvalid
    obtain ⟨members', heq, hentry⟩ := haccepted _ hobject
    obtain rfl : members = members' := by simpa using heq
    exact holdsKey_iff hentry fun s hs => hvalid s (mem_keyStrings.mp hs)
  constructor
  · rintro ⟨ret, config'', hparse', hsuccess, -⟩ members s hobject hkey
    obtain ⟨rfl, rfl⟩ : 0 = ret ∧ config' = config'' := by
      rw [hparse] at hparse'
      simpa using hparse'
    obtain ⟨disks, hdisks', -, hheld⟩ := hsuccess rfl
    obtain rfl : vals.map (fun v => parsedDisk (objectMembers v)) = disks := by
      rw [hdisks] at hdisks'
      simpa using hdisks'
    obtain ⟨i, hi⟩ := mem_iff_getElem?.mp hobject
    obtain ⟨hs, disk, hdisk, hkeyHeld⟩ := hheld i members s hi hkey
    rw [getElem?_map, hi] at hdisk
    obtain rfl : parsedDisk members = disk := by simpa [objectMembers] using hdisk
    have hvalid : ∀ s, ("key", .string s) ∈ members → ValidKey s := fun s hs =>
      (hheld i members s hi hs).1
    exact ⟨hs, (hholds members hobject hvalid s).mp hkeyHeld⟩
  · intro h
    refine ⟨0, config', hparse, fun _ => ⟨_, hdisks, hnum, ?_⟩, ?_⟩
    · intro i members s hi hkey
      have hobject : .object members ∈ vals := mem_of_getElem? hi
      have hvalid : ∀ s, ("key", .string s) ∈ members → ValidKey s := fun s hs =>
        (h members s hobject hs).1
      obtain ⟨hs, hvisited⟩ := h members s hobject hkey
      refine ⟨hs, parsedDisk members, by simp [hi, objectMembers], ?_⟩
      exact (hholds members hobject hvalid s).mpr hvisited
    · rintro ⟨members, s, hobject, hkey, hinvalid⟩
      exact absurd (h members s hobject hkey).1 hinvalid

/-- **Disk keys are decoded or refused** if the parse is refused for another reason, because a
member has an unknown name or the wrong type, or if all elements of the array are objects, all key
strings are an even number of digits, and the bytes of each are those of the last one that is
visited: none stands behind a `null`. -/
theorem disks_decoded_iff (config : Parsing AppConfig) (vals : List Json) :
    DisksDecoded config vals ↔ Refused vals
      ∨ ((∀ v ∈ vals, ∃ members, v = .object members)
        ∧ ∀ members s, .object members ∈ vals → ("key", .string s) ∈ members →
          ValidKey s ∧ KeyVisited members s) := by
  by_cases hrefused : Refused vals
  · obtain ⟨config', hparse, hsame⟩ := parseDisks_of_refused hrefused config
    have hdecoded : DisksDecoded config vals :=
      ⟨1, config', hparse, by simp, fun _ => ⟨by decide, hsame⟩⟩
    exact iff_of_true hdecoded (Or.inl hrefused)
  rw [or_iff_right hrefused]
  by_cases hobjects : ∀ v ∈ vals, ∃ members, v = .object members
  · rw [and_iff_right hobjects]
    exact disksDecoded_iff_of_accepted config (allAccepted_of_not_refused hrefused hobjects)
  · -- undefined behaviour
    have hnone : parseDisks config (.array vals) = none := by
      have hall : ¬ AllAccepted MemberAccepted vals := fun h => hobjects fun v hv => by
        obtain ⟨members, heq, -⟩ := h v hv
        exact ⟨members, heq⟩
      simp [parseDisks, diskEntry_checks.parseElements_eq_none {} hrefused hall]
    refine iff_of_false ?_ fun h => hobjects h.1
    rintro ⟨ret, config', hparse, -⟩
    rw [hnone] at hparse
    cases hparse

def oneKey (key : String) : List Json :=
  [.object [("disk", .string "/".toList), ("key", .string key.toList)]]

/-- A key that is not hexadecimal is taken: the disk counts as encrypted, and its key length is
`SIZE_MAX`. -/
theorem invalid_key_taken :
    (parseDisks ⟨{}, []⟩ (.array (oneKey "zz"))).map (fun r => (r.1, r.2.val.disks))
        = some (0, some [⟨"/".toList, true, none, 2 ^ 64 - 1, none, 0, false⟩])
      ∧ ¬ DisksDecoded ⟨{}, []⟩ (oneKey "zz") := by
  have hparse : (parseDisks ⟨{}, []⟩ (.array (oneKey "zz"))).map (fun r => (r.1, r.2.val.disks))
      = some (0, some [⟨"/".toList, true, none, 2 ^ 64 - 1, none, 0, false⟩]) := by decide +kernel
  refine ⟨hparse, ?_⟩
  rintro ⟨ret, config', hparse', -, hfail⟩
  rw [hparse', Option.map_some, Option.some.injEq, Prod.mk.injEq] at hparse
  have hinvalid : ¬ ValidKey "zz".toList := by
    rintro ⟨hdigits, -⟩
    exact absurd hdigits (by decide)
  exact (hfail ⟨_, _, List.mem_singleton_self _, by simp, hinvalid⟩).1 hparse.1

end RktIo.Cmd
