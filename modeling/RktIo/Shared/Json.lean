import RktIo.Lib.CString

/-!
# Reading JSON (`shared/json_util.c`)

The values of json-c, and the functions that hand the members of an object one by one to a
callback. The tokener of json-c is an oracle that turns a text that starts with a brace into the
members of an object, or into an error description.

A member that is `null` is a null pointer, and the loop over the members takes it for the end
(`parseJson`): what stands behind it is not read.
-/

namespace RktIo.Shared

open CString

/-- `struct json_object`. A string is what `json_object_get_string` points to, up to the NUL; the
value of a floating-point number is never read. -/
inductive Json where
  | null
  | boolean (b : Bool)
  | double
  | int (v : Int)
  | string (s : List Char)
  | array (elems : List Json)
  | object (members : List (String × Json))

def Json.isNull : Json → Bool
  | .null => true
  | _ => false

abbrev ParseJsonCallback (σ : Type) := String → Json → σ → Option (Int × σ)

def parseJson {σ : Type} (cb : ParseJsonCallback σ) : List (String × Json) → σ → Option (Int × σ)
  | [], s => some (0, s)
  | (key, value) :: members, s =>
    if value.isNull then some (0, s)
    else do
      let (retval, s) ← cb key value s
      if retval ≠ 0 then return (retval, s)
      parseJson cb members s

def visited (members : List (String × Json)) : List (String × Json) :=
  members.takeWhile (fun m => !m.2.isNull)

abbrev Tokener := List Char → Except (List Char) (List (String × Json))

def malformedJsonErr (c : Char) : List Char :=
  content ("Unexpected character '".toList ++ c :: "', '\x7b' expected.".toList)

def parseJsonFromStr {σ : Type} (tokener : Tokener) (cb : ParseJsonCallback σ) (str : List Char)
    (err : Option (List Char)) (s : σ) : Option (Int × Option (List Char) × σ) :=
  -- the NUL at the end is not a space
  let c := (str.dropWhile isspace).headD (Char.ofNat 0)
  if c ≠ '\x7b' then some (-1, some (malformedJsonErr c), s)
  else
    match tokener str with
    | .error desc => some (-1, some desc, s)
    | .ok members => do
      let (ret, s) ← parseJson cb members s
      if ret ≠ 0 then return (-1, none, s)
      return (0, err, s)

def docMembers (tokener : Tokener) (str : List Char) : List (String × Json) :=
  if (str.dropWhile isspace).headD (Char.ofNat 0) = '\x7b' then
    match tokener str with
    | .ok members => members
    | .error _ => []
  else []

theorem parseJsonFromStr_arg {σ : Type} (tokener : Tokener) (cb : ParseJsonCallback σ)
    (str : List Char) (err : Option (List Char)) (s : σ) :
    (parseJsonFromStr tokener cb str err s).map (fun r => r.2.2)
      = (parseJson cb (docMembers tokener str) s).map Prod.snd := by
  unfold parseJsonFromStr docMembers
  by_cases hbrace : (str.dropWhile isspace).headD (Char.ofNat 0) = '\x7b'
  · rw [if_pos hbrace, if_neg (not_not.mpr hbrace)]
    cases tokener str with
    | error desc => rfl
    | ok members =>
      cases hparse : parseJson cb members s with
      | none => simp [hparse]
      | some r =>
        obtain ⟨ret, s'⟩ := r
        by_cases hret : ret = 0
        · simp [hparse, hret]
        · simp [hparse, hret]
  · rw [if_neg hbrace, if_pos hbrace]
    rfl

end RktIo.Shared
