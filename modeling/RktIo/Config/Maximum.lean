import RktIo.Config.Precedence

/-!
# The maximum of an option

An option that is a number has a maximum in the table. `size_str_to_uint64` never returns more
(`sizeStrToUint64_le`), and a string of a document and a variable of the environment both go through
it. An integer of a document does not: it is the default that `getenv_uint64` returns if the
variable is not set. Whether the option is at most its maximum depends on the last entry for it that
is an integer or a string.
-/

namespace RktIo.Config

open CString Shared

theorem sizeStrToUint64_le (str : List Char) (dflt max : Nat) :
    sizeStrToUint64 str dflt max ≤ max := by
  have hclamp : ∀ r m : Nat,
      (if r > ULONG_MAX / m then max else if r * m > max then max else r * m) ≤ max := by
    intro r m
    split
    · exact Nat.le_refl max
    · split <;> omega
  exact hclamp _ _

theorem getenvUint64_le_iff {env : Environ} {var : String} {n max : Nat} :
    getenvUint64 env var n max ≤ max ↔ (env var).isSome = true ∨ n ≤ max := by
  unfold getenvUint64
  cases env var with
  | none => simp
  | some v => simp [sizeStrToUint64_le]

def setsNumber : Json → Bool
  | .int _ | .string _ => true
  | _ => false

def lastNumber (key : String) (members : List (String × Json)) : Option Json :=
  ((entriesFor key members).filter setsNumber).getLast?

variable {key : String} {members : List (String × Json)} {m : String × Json}

theorem lastNumber_snoc_of_ne (h : m.1 ≠ key) :
    lastNumber key (members ++ [m]) = lastNumber key members := by
  simp [lastNumber, entriesFor, h]

theorem lastNumber_snoc_key (value : Json) :
    lastNumber key (members ++ [(key, value)])
      = if setsNumber value then some value else lastNumber key members := by
  cases h : setsNumber value <;> simp [lastNumber, entriesFor, h]

def LastInRange (key : String) (max : Nat) (members : List (String × Json)) : Prop :=
  ∀ v, lastNumber key members = some (.int v) → u64OfInt v ≤ max

variable {out : Outside} {i val max : Nat} {envKey : String}

theorem afterMembers_snoc_elems {e : ConfigElem} (hi : sgxlklConfig[i]? = some e)
    (members : List (String × Json)) (m : String × Json) :
    (afterMembers out (members ++ [m])).elems i
      = if m.1 = e.jsonKey then (parseEntryAt out i e m.1 m.2 (afterMembers out members)).elems i
        else (afterMembers out members).elems i := by
  rw [afterMembers, List.foldl_append]
  exact afterMember_elems hi _ m

theorem parseEntryAt_number (value : Json) (st : ConfigState) :
    (parseEntryAt out i ⟨envKey, key, .uint val max⟩ key value st).elems i
      = match value with
        | .int v => ⟨true, true, .uint (getenvUint64 out.env envKey (u64OfInt v) max)⟩
        | .string s =>
          ⟨true, true, .uint (getenvUint64 out.env envKey (sizeStrToUint64 s val max) max)⟩
        | value => if unknownType value then ⟨true, true, (st.elems i).val⟩ else st.elems i := by
  cases value <;> simp [parseEntryAt, ConfigState.setElem, ConfigState.warn, unknownType]

section

variable (hi : sgxlklConfig[i]? = some ⟨envKey, key, .uint val max⟩)

include hi

/-- **The stored value** after any members is at most the maximum exactly if the variable is set or
the last number is in range. Induction on the members, from the end. -/
theorem afterMembers_le_iff (members : List (String × Json)) :
    ∃ n, ((afterMembers out members).elems i).val = .uint n
      ∧ (n ≤ max ↔ (out.env envKey).isSome = true ∨ LastInRange key max members) := by
  induction members using List.reverseRecOn with
  | nil =>
    refine ⟨0, ?_, by simp [LastInRange, lastNumber, entriesFor]⟩
    rw [afterMembers_nil_elem hi]
    rfl
  | append_singleton members m ih =>
    obtain ⟨n, hval, hle⟩ := ih
    rw [afterMembers_snoc_elems hi]
    obtain ⟨name, value⟩ := m
    by_cases hname : name = key
    · obtain rfl := hname
      rw [if_pos rfl, parseEntryAt_number]
      unfold LastInRange
      rw [lastNumber_snoc_key]
      -- an integer goes past the maximum, a string does not, and the rest leaves the value
      cases value with
      | int v =>
        refine ⟨_, rfl, ?_⟩
        rw [getenvUint64_le_iff]
        simp [setsNumber]
      | string s =>
        refine ⟨_, rfl, ?_⟩
        simp [getenvUint64_le_iff, sizeStrToUint64_le, setsNumber]
      | _ => exact ⟨n, by simpa [unknownType] using hval, hle⟩
    · rw [if_neg hname]
      refine ⟨n, hval, ?_⟩
      rw [LastInRange, lastNumber_snoc_of_ne hname]
      exact hle

theorem lastNumber_of_not_inited (h : ((afterMembers out members).elems i).inited = false) :
    lastNumber key members = none := by
  induction members using List.reverseRecOn with
  | nil => rfl
  | append_singleton members m ih =>
    rw [afterMembers_snoc_elems hi] at h
    obtain ⟨name, value⟩ := m
    by_cases hname : name = key
    · obtain rfl := hname
      rw [if_pos rfl, parseEntryAt_number] at h
      rw [lastNumber_snoc_key]
      cases value with
      | int v => cases h
      | string s => cases h
      | boolean b | object l => exact ih h
      | _ => cases h
    · rw [if_neg hname] at h
      rw [lastNumber_snoc_of_ne hname]
      exact ih h

theorem config_uint64_eq (st : ConfigState) :
    (sgxlklConfigUint64 out i st).map Prod.fst
      = some (if (st.elems i).inited then (st.elems i).val
        else .uint (getenvUint64 out.env envKey val max)) := by
  cases h : (st.elems i).inited <;> simp [sgxlklConfigUint64, hi, h]

end

/-- **The maximum of an option.** For every option that is a number with a default in range, every
environment and every sequence of documents, the value that is returned is at most the maximum of
the option exactly if its variable is set or the last entry for it that is an integer or a string is
not an integer whose 64-bit value is above the maximum. -/
theorem config_uint64_le_iff (tokener : Tokener) (out : Outside) (docs : List (List Char))
    (i val max : Nat) (envKey key : String)
    (hi : sgxlklConfig[i]? = some ⟨envKey, key, .uint val max⟩) (hval : val ≤ max) :
    (∃ st n, parseDocuments tokener out docs = some st
        ∧ (sgxlklConfigUint64 out i st).map Prod.fst = some (.uint n) ∧ n ≤ max)
      ↔ (out.env envKey).isSome = true ∨ LastInRange key max (readMembers tokener docs) := by
  obtain ⟨n, hstored, hle⟩ := @afterMembers_le_iff key out i val max envKey hi
    (readMembers tokener docs)
  have hparsed := @parseDocuments_eq out tokener docs
  cases hinited : ((afterMembers out (readMembers tokener docs)).elems i).inited with
  | true =>
    have hread :
        (sgxlklConfigUint64 out i (afterMembers out (readMembers tokener docs))).map Prod.fst
          = some (.uint n) := by
      rw [config_uint64_eq hi, hinited, hstored]
      rfl
    rw [← hle]
    constructor
    · rintro ⟨st, n', hst, hn', hmax⟩
      obtain rfl : afterMembers out (readMembers tokener docs) = st := by
        simpa [hparsed] using hst
      obtain rfl : n = n' := by simpa [hread] using hn'
      exact hmax
    · intro hmax
      exact ⟨_, n, hparsed, hread, hmax⟩
  | false =>
    -- nothing in the documents: the default, which is in range
    have hnone := lastNumber_of_not_inited hi hinited
    refine iff_of_true ⟨_, getenvUint64 out.env envKey val max, hparsed, ?_, ?_⟩
      (Or.inr fun v hv => by simp [hnone] at hv)
    · rw [config_uint64_eq hi, hinited]
      rfl
    · exact getenvUint64_le_iff.mpr (Or.inr hval)

/-- A document with 8 threads for the enclave. -/
theorem config_uint64_le_iff_ethreads :
    ∃ st n, parseDocuments (fun _ => .ok [("ethreads", .int 8)]) ⟨fun _ => none, fun _ => []⟩
        ["\x7b\"ethreads\": 8\x7d".toList] = some st
      ∧ (sgxlklConfigUint64 ⟨fun _ => none, fun _ => []⟩ 14 st).map Prod.fst = some (.uint n)
      ∧ n ≤ 1024 := by
  refine (config_uint64_le_iff _ _ _ 14 1 1024 "SGXLKL_ETHREADS" "ethreads" (by decide)
    (by decide)).mpr (Or.inr ?_)
  intro v hv
  have hlast : lastNumber "ethreads" (readMembers (fun _ => .ok [("ethreads", .int 8)])
      ["\x7b\"ethreads\": 8\x7d".toList]) = some (.int 8) := rfl
  rw [hlast, Option.some.injEq, Json.int.injEq] at hv
  rw [← hv]
  decide

/-- An integer above the maximum is taken as it is, and a negative one turns into a large one. -/
theorem integer_above_maximum :
    ((parseDocuments (fun _ => .ok [("ethreads", .int 5000)]) ⟨fun _ => none, fun _ => []⟩
        ["\x7b\"ethreads\": 5000\x7d".toList]).bind fun st =>
          (sgxlklConfigUint64 ⟨fun _ => none, fun _ => []⟩ 14 st).map Prod.fst)
      = some (.uint 5000)
    ∧ ((parseDocuments (fun _ => .ok [("ethreads", .int (-1))]) ⟨fun _ => none, fun _ => []⟩
        ["\x7b\"ethreads\": -1\x7d".toList]).bind fun st =>
          (sgxlklConfigUint64 ⟨fun _ => none, fun _ => []⟩ 14 st).map Prod.fst)
      = some (.uint (2 ^ 64 - 1))
    ∧ sgxlklConfig[14]? = some ⟨"SGXLKL_ETHREADS", "ethreads", .uint 1 1024⟩ := by
  decide +kernel

end RktIo.Config
