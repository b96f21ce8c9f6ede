import RktIo.Shared.Json
import RktIo.Shared.Util

/-!
# The application configuration (`sgx/sgxlkl_app_config.c`)

A run request carries a JSON document that is parsed, member by member, into an
`sgxlkl_app_config_t`. The structure belongs to the caller: members that have been parsed before
an error stay in it.

What a parser prints is kept with its result. `none` is undefined behaviour: json-c follows a null
pointer if it is to iterate over something that is not an object.
-/

namespace RktIo.Cmd

open CString Shared

/-! ## The structure -/

/-- An element of an array of strings: not written yet, a null pointer, or a string. -/
inductive Slot where
  | uninit
  | null
  | str (s : List Char)
  deriving Repr, DecidableEq

structure EnclaveDiskConfig where
  mnt : List Char := []
  enc : Bool := false
  key : Option (List UInt8) := none
  keyLen : Nat := 0
  roothash : Option (List Char) := none
  roothashOffset : Nat := 0
  ro : Bool := false
  deriving Repr, DecidableEq

structure EnclaveWgPeerConfig where
  key : Option (List Char) := none
  allowedIps : Option (List Char) := none
  endpoint : Option (List Char) := none
  deriving Repr, DecidableEq

/-- `sgxlkl_app_config_t`; the defaults are those of a zeroed structure. -/
@[ext]
structure AppConfig where
  run : Option (List Char) := none
  cwd : Option (List Char) := none
  argc : Nat := 0
  argv : Option (List Slot) := none
  envp : Option (List Slot) := none
  numDisks : Nat := 0
  disks : Option (List EnclaveDiskConfig) := none
  numPeers : Nat := 0
  peers : Option (List EnclaveWgPeerConfig) := none
  deriving Repr, DecidableEq

abbrev Message := String × String

structure Parsing (α : Type) where
  val : α
  stderr : List Message := []
  deriving Repr, DecidableEq

def Parsing.fprintf {α : Type} (s : Parsing α) (text key : String) : Parsing α :=
  { s with stderr := s.stderr ++ [(text, key)] }

/-! ## Types of entries -/

def isString : Json → Bool
  | .string _ => true
  | _ => false

def isBoolean : Json → Bool
  | .boolean _ => true
  | _ => false

def isInt : Json → Bool
  | .int _ => true
  | _ => false

def isArray : Json → Bool
  | .array _ => true
  | _ => false

def getString : Json → List Char
  | .string s => s
  | _ => []

def elems : Json → List Json
  | .array l => l
  | _ => []

def STRING_KEYS : List String := ["run", "cwd", "disk", "key", "roothash", "allowedips", "endpoint"]
def BOOL_KEYS : List String := ["readonly"]
def INT_KEYS : List String := ["roothash_offset"]
def ARRAY_KEYS : List String := ["disk_config", "peers"]

def assertEntryType (key : String) (value : Json) : Bool :=
  let err := false
  let err := if key ∈ STRING_KEYS then !isString value else err
  let err := if key ∈ BOOL_KEYS then !isBoolean value else err
  let err := if key ∈ INT_KEYS then !isInt value else err
  if key ∈ ARRAY_KEYS then !isArray value else err

/-! ## Arguments and environment -/

def argSlots : List Json → List Slot × Bool
  | [] => ([.null], true)
  | val :: vals =>
    if isString val then
      let (slots, ok) := argSlots vals
      (.str (getString val) :: slots, ok)
    else (List.replicate (vals.length + 2) .uninit, false)

def parseArgs (config : Parsing AppConfig) (argsVal : Json) : Int × Parsing AppConfig :=
  match argsVal with
  | .array vals =>
    -- reserve argv[0]
    let (slots, ok) := argSlots vals
    (if ok then 0 else 1,
      { config with val.argc := vals.length + 1, val.argv := some (.uninit :: slots) })
  | _ => (1, config)

/-- The loop of `parse_env`: the elements of `envp`, and whether it comes to its end. A member
that is `null` ends it as well. -/
def envSlots : List (String × Json) → List Slot × Bool
  | [] => ([.null], true)
  | (key, val) :: members =>
    if isString val then
      let (slots, ok) := envSlots members
      (.str (key.toList ++ '=' :: getString val) :: slots, ok)
    else (List.replicate (members.length + 1) .uninit ++ [.null], val.isNull)

def parseEnv (config : Parsing AppConfig) (envVal : Json) : Int × Parsing AppConfig :=
  match envVal with
  | .object members =>
    let (slots, ok) := envSlots members
    (if ok then 0 else 1, { config with val.envp := some slots })
  | _ => (1, config)

/-! ## Disks and peers -/

def SGXLKL_DISK_MNT_MAX_PATH_LEN : Nat := 255

def parseEnclaveDiskConfigEntry : ParseJsonCallback (Parsing EnclaveDiskConfig) :=
  fun key value disk =>
    if assertEntryType key value then
      some (1, disk.fprintf "Type mismatch for '%s' configuration.\n" key)
    else if key = "disk" then
      let mntPoint := getString value
      let disk := if mntPoint.length > SGXLKL_DISK_MNT_MAX_PATH_LEN then
        disk.fprintf "Truncating configured disk mount point...\n" key else disk
      some (0, { disk with val.mnt := mntPoint.take SGXLKL_DISK_MNT_MAX_PATH_LEN })
    else if key = "key" then
      match hexToBytes (getString value) with
      -- `key_len` is unsigned and not below 0
      | none => some (0, { disk with val.keyLen := 2 ^ 64 - 1, val.enc := true })
      | some bytes =>
        some (0, { disk with val.key := some bytes, val.keyLen := bytes.length, val.enc := true })
    else if key = "roothash" then
      some (0, { disk with val.roothash := some (getString value) })
    else if key = "roothash_offset" then
      match value with
      | .int v => some (0, { disk with val.roothashOffset := (v % 2 ^ 64).toNat })
      | _ => some (0, disk)
    else if key = "readonly" then
      match value with
      | .boolean b => some (0, { disk with val.ro := b })
      | _ => some (0, disk)
    else some (1, disk.fprintf "Unknown configuration entry: %s\n" key)

def parseEnclaveWgPeerConfigEntry : ParseJsonCallback (Parsing EnclaveWgPeerConfig) :=
  fun key value peer =>
    if assertEntryType key value then
      some (1, peer.fprintf "Type mismatch for '%s' configuration.\n" key)
    else if key = "key" then
      some (0, { peer with val.key := some (getString value) })
    else if key = "allowedips" then
      some (0, { peer with val.allowedIps := some (getString value) })
    else if key = "endpoint" then
      some (0, { peer with val.endpoint := some (getString value) })
    else some (1, peer.fprintf "Unknown configuration entry: %s\n" key)

/-- The loops of `parse_disks` and `parse_network` over the elements of an array, each parsed
into a zeroed structure. What has been parsed is freed if an element is refused. -/
def parseElements {α : Type} (cb : ParseJsonCallback (Parsing α)) (zero : α) :
    List Json → Option (Int × List α × List Message)
  | [] => some (0, [], [])
  | .object members :: vals => do
    let (ret, s) ← parseJson cb members ⟨zero, []⟩
    if ret ≠ 0 then return (ret, [], s.stderr)
    let (ret, parsed, stderr) ← parseElements cb zero vals
    return (ret, s.val :: parsed, s.stderr ++ stderr)
  | _ :: _ => none

def parseDisks (config : Parsing AppConfig) (disksVal : Json) : Option (Int × Parsing AppConfig) :=
  match disksVal with
  | .array vals => do
    let (ret, disks, stderr) ← parseElements parseEnclaveDiskConfigEntry {} vals
    let config := { config with stderr := config.stderr ++ stderr }
    if ret ≠ 0 then return (ret, config)
    return (0, { config with val.numDisks := disks.length, val.disks := some disks })
  | _ => some (1, config)

def parseNetworkMembers (config : Parsing AppConfig) :
    List (String × Json) → Option (Int × Parsing AppConfig)
  | [] => some (0, config)
  | (key, value) :: members =>
    if value.isNull then some (0, config)
    else if key ≠ "peers" then parseNetworkMembers config members
    else if assertEntryType key value then
      some (1, config.fprintf "Type mismatch for '%s' configuration.\n" key)
    else do
      let (ret, peers, stderr) ← parseElements parseEnclaveWgPeerConfigEntry {} (elems value)
      let config := { config with stderr := config.stderr ++ stderr }
      if ret ≠ 0 then return (ret, config)
      return (0, { config with val.numPeers := peers.length, val.peers := some peers })

def parseNetwork (config : Parsing AppConfig) (netVal : Json) : Option (Int × Parsing AppConfig) :=
  match netVal with
  | .object members => parseNetworkMembers config members
  | _ => some (1, config)

/-! ## The document -/

def parseSgxlklAppConfigEntry : ParseJsonCallback (Parsing AppConfig) := fun key value config =>
  if key = "run" then
    if isString value then some (0, { config with val.run := some (getString value) })
    else some (1, config.fprintf "String expected for 'run' configuration.\n" key)
  else if key = "cwd" then
    if isString value then some (0, { config with val.cwd := some (getString value) })
    else some (1, config.fprintf "String expected for 'cwd' configuration.\n" key)
  else if key = "args" then some (parseArgs config value)
  else if key = "environment" then some (parseEnv config value)
  else if key = "disk_config" then parseDisks config value
  else if key = "network_config" then parseNetwork config value
  else some (1, config.fprintf "Unknown configuration entry: %s\n" key)

def setArgv0 (run : List Char) : List Slot → List Slot
  | [] => []
  | _ :: slots => .str run :: slots

def fixArgs (run : List Char) (config : AppConfig) : AppConfig :=
  let config := match config.argv with
    | none => { config with argc := 1, argv := some [.uninit, .null] }
    | some _ => config
  let config := match config.envp with
    | none => { config with envp := some [.null] }
    | some _ => config
  { config with argv := config.argv.map (setArgv0 run) }

inductive ErrDesc where
  | heap (s : List Char)
  | literal (s : List Char)
  deriving Repr, DecidableEq

def ErrDesc.text : ErrDesc → List Char
  | heap s => s
  | literal s => s

def parseSgxlklAppConfigFromStr (tokener : Tokener) (str : List Char) (config : Parsing AppConfig) :
    Option (Int × Option ErrDesc × Parsing AppConfig) := do
  let (res, err, config) ← parseJsonFromStr tokener parseSgxlklAppConfigEntry str none config
  if res ≠ 0 then
    return (res, some (.heap (err.getD "Unexpected application configuration format".toList)),
      config)
  match config.val.run with
  | none =>
    return (1, some (.literal "No executable path provided via 'run'.".toList), config)
  | some run => return (0, none, { config with val := fixArgs run config.val })

end RktIo.Cmd
