import RktIo.Shared.Json
import RktIo.Shared.Util

/-!
# The options of `sgx-lkl-run` (`main/sgxlkl_config.c`)

Every option has a variable of the environment, a key in the JSON configuration and a
compiled-in default. Configuration documents are read first; the value of an option is settled
by an entry of a document, or when it is read for the first time.
-/

namespace RktIo.Config

open CString Shared

/-! ## The table -/

/-- The type of an option with its default: `TYPE_CHAR`, `TYPE_UINT` with the maximum as well,
`TYPE_BOOL` and `TYPE_JSON`. -/
inductive OptKind where
  | char (dflt : Option String)
  | uint (val max : Nat)
  | bool (dflt : Bool)
  | json (dflt : Option String)
  deriving Repr, DecidableEq

structure ConfigElem where
  envKey : String
  jsonKey : String
  kind : OptKind
  deriving Repr, DecidableEq

def DEFAULT_SGXLKL_GW4 : String := "10.0.1.254"
def DEFAULT_SGXLKL_HEAP_SIZE : Nat := 200 * 1024 * 1024
def DEFAULT_SGXLKL_HOSTNAME : String := "lkl"
def DEFAULT_SGXLKL_IAS_QUOTE_TYPE : String := "Unlinkable"
def DEFAULT_SGXLKL_IAS_SERVER : String := "test-as.sgx.trustedservices.intel.com:443"
def DEFAULT_SGXLKL_IP4 : String := "10.0.1.1"
def DEFAULT_SGXLKL_MASK4 : Nat := 24
def DEFAULT_SGXLKL_MAX_USER_THREADS : Nat := 256
def DEFAULT_SGXLKL_ESLEEP : Nat := 16000
def DEFAULT_SGXLKL_STHREADS : Nat := 4
def DEFAULT_SGXLKL_ESPINS : Nat := 500
def DEFAULT_SGXLKL_SSLEEP : Nat := 4000
def DEFAULT_SGXLKL_SSPINS : Nat := 100
def DEFAULT_SGXLKL_STACK_SIZE : Nat := 512 * 1024
def DEFAULT_SGXLKL_REMOTE_ATTEST_PORT : Nat := 56000
def DEFAULT_SGXLKL_REMOTE_CMD_PORT : Nat := 56001
def DEFAULT_SGXLKL_WG_IP : String := "10.0.42.1"
def DEFAULT_SGXLKL_WG_PORT : Nat := 56002
def DEFAULT_SGXLKL_DPDK_IP4 : String := "10.0.42.1"
def DEFAULT_SGXLKL_DPDK_GW4 : String := "10.0.42.254"
def DEFAULT_SGXLKL_DPDK_MASK4 : Nat := 24
def DEFAULT_SGXLKL_DPDK_IP6 : String := "fdbf:9188:5fbd:a895::1"
def DEFAULT_SGXLKL_DPDK_GW6 : String := "fe80::1"
def DEFAULT_SGXLKL_DPDK_MASK6 : Nat := 64
def DEFAULT_SGXLKL_DPDK_MTU : Nat := 1500
def DEFAULT_SGXLKL_CWD : String := "/"
def MAX_SGXLKL_ETHREADS : Nat := 1024
def MAX_SGXLKL_MAX_USER_THREADS : Nat := 65536
def MAX_SGXLKL_STHREADS : Nat := 1024
def USHRT_MAX : Nat := 2 ^ 16 - 1
def INT_MAX : Nat := 2 ^ 31 - 1

/-- `sgxlkl_config`. The three options of DPDK that are numbers are initialised with one number,
so that their maximum is 0. -/
def sgxlklConfig : List ConfigElem := [
  ⟨"SGXLKL_APP_CONFIG", "app_config", .json none⟩,
  ⟨"SGXLKL_CMDLINE", "cmdline", .char (some "")⟩,
  ⟨"SGXLKL_CWD", "cwd", .char (some DEFAULT_SGXLKL_CWD)⟩,
  ⟨"SGXLKL_DEBUGMOUNT", "debugmount", .char none⟩,
  ⟨"SGXLKL_DPDK_IP4", "dpdk_ip4", .char (some DEFAULT_SGXLKL_DPDK_IP4)⟩,
  ⟨"SGXLKL_DPDK_GW4", "dpdk_gw4", .char (some DEFAULT_SGXLKL_DPDK_GW4)⟩,
  ⟨"SGXLKL_DPDK_MASK4", "dpdk_mask4", .uint DEFAULT_SGXLKL_DPDK_MASK4 0⟩,
  ⟨"SGXLKL_DPDK_IP6", "dpdk_ip6", .char (some DEFAULT_SGXLKL_DPDK_IP6)⟩,
  ⟨"SGXLKL_DPDK_GW6", "dpdk_gw6", .char (some DEFAULT_SGXLKL_DPDK_GW6)⟩,
  ⟨"SGXLKL_DPDK_MASK6", "dpdk_mask6", .uint DEFAULT_SGXLKL_DPDK_MASK6 0⟩,
  ⟨"SGXLKL_DPDK_MTU", "mtu", .uint DEFAULT_SGXLKL_DPDK_MTU 0⟩,
  ⟨"SGXLKL_ENABLE_SGXIO", "enable_sgxio", .bool true⟩,
  ⟨"SGXLKL_ESPINS", "espins", .uint DEFAULT_SGXLKL_ESPINS ULONG_MAX⟩,
  ⟨"SGXLKL_ESLEEP", "esleep", .uint DEFAULT_SGXLKL_ESLEEP ULONG_MAX⟩,
  ⟨"SGXLKL_ETHREADS", "ethreads", .uint 1 MAX_SGXLKL_ETHREADS⟩,
  ⟨"SGXLKL_ETHREADS_AFFINITY", "ethreads_affinity", .char none⟩,
  ⟨"SGXLKL_EXIT_ON_HOST_CALLS", "exit_on_host_calls", .bool false⟩,
  ⟨"SGXLKL_GETTIME_VDSO", "gettime_vdso", .bool true⟩,
  ⟨"SGXLKL_GW4", "gw4", .char (some DEFAULT_SGXLKL_GW4)⟩,
  ⟨"SGXLKL_HD", "hd", .char none⟩,
  ⟨"SGXLKL_HD_KEY", "hd_key", .char none⟩,
  ⟨"SGXLKL_HD_RO", "hd_readonly", .bool false⟩,
  ⟨"SGXLKL_HDS", "hds", .char (some "")⟩,
  ⟨"SGXLKL_HD_VERITY", "hd_verity", .char none⟩,
  ⟨"SGXLKL_HD_VERITY_OFFSET", "hd_verity_offset", .char none⟩,
  ⟨"SGXLKL_HEAP", "heap", .uint DEFAULT_SGXLKL_HEAP_SIZE ULONG_MAX⟩,
  ⟨"SGXLKL_HOSTNAME", "hostname", .char (some DEFAULT_SGXLKL_HOSTNAME)⟩,
  ⟨"SGXLKL_HOSTNET", "hostnet", .bool false⟩,
  ⟨"SGXLKL_IAS_CERT", "ias_cert", .char none⟩,
  ⟨"SGXLKL_IAS_KEY_FILE", "ias_key_file", .char none⟩,
  ⟨"SGXLKL_IAS_QUOTE_TYPE", "ias_quote_type", .char (some DEFAULT_SGXLKL_IAS_QUOTE_TYPE)⟩,
  ⟨"SGXLKL_IAS_SERVER", "ias_server", .char (some DEFAULT_SGXLKL_IAS_SERVER)⟩,
  ⟨"SGXLKL_IAS_SPID", "ias_spid", .char none⟩,
  ⟨"SGXLKL_IP4", "ip4", .char (some DEFAULT_SGXLKL_IP4)⟩,
  ⟨"SGXLKL_KERNEL_VERBOSE", "kernel_verbose", .bool false⟩,
  ⟨"SGXLKL_KEY", "key", .char none⟩,
  ⟨"SGXLKL_MASK4", "mask4", .uint DEFAULT_SGXLKL_MASK4 32⟩,
  ⟨"SGXLKL_MAX_USER_THREADS", "max_user_threads",
    .uint DEFAULT_SGXLKL_MAX_USER_THREADS MAX_SGXLKL_MAX_USER_THREADS⟩,
  ⟨"SGXLKL_MMAP_FILES", "mmap_files", .char (some "None")⟩,
  ⟨"SGXLKL_NON_PIE", "non_pie", .bool false⟩,
  ⟨"SGXLKL_PRINT_APP_RUNTIME", "print_app_runtime", .bool false⟩,
  ⟨"SGXLKL_PRINT_HOST_SYSCALL_STATS", "print_host_syscall_stats", .bool false⟩,
  ⟨"SGXLKL_REAL_TIME_PRIO", "real_time_prio", .bool false⟩,
  ⟨"SGXLKL_REMOTE_ATTEST_PORT", "remote_attest_port",
    .uint DEFAULT_SGXLKL_REMOTE_ATTEST_PORT USHRT_MAX⟩,
  ⟨"SGXLKL_REMOTE_CMD_PORT", "remote_cmd_port", .uint DEFAULT_SGXLKL_REMOTE_CMD_PORT USHRT_MAX⟩,
  ⟨"SGXLKL_REMOTE_CMD_ETH0", "remote_cmd_eth0", .bool false⟩,
  ⟨"SGXLKL_REMOTE_CONFIG", "remote_config", .bool false⟩,
  ⟨"SGXLKL_REPORT_NONCE", "report_nonce", .uint 0 ULONG_MAX⟩,
  ⟨"SGXLKL_SHMEM_FILE", "shmem_file", .char none⟩,
  ⟨"SGXLKL_SHMEM_SIZE", "shmem_size", .uint 0 (1024 * 1024 * 1024)⟩,
  ⟨"SGXLKL_SIGPIPE", "sigpipe", .bool false⟩,
  ⟨"SGXLKL_SSLEEP", "ssleep", .uint DEFAULT_SGXLKL_SSLEEP ULONG_MAX⟩,
  ⟨"SGXLKL_SSPINS", "sspins", .uint DEFAULT_SGXLKL_SSPINS ULONG_MAX⟩,
  ⟨"SGXLKL_SPDK_HD_KEY", "spdk_hd_key", .char none⟩,
  ⟨"SGXLKL_SPDK_SKIP_UNMOUNT", "spdk_skip_unmount", .bool false⟩,
  ⟨"SGXLKL_STACK_SIZE", "stack_size", .uint DEFAULT_SGXLKL_STACK_SIZE ULONG_MAX⟩,
  ⟨"SGXLKL_STHREADS", "sthreads", .uint DEFAULT_SGXLKL_STHREADS MAX_SGXLKL_STHREADS⟩,
  ⟨"SGXLKL_STHREADS_AFFINITY", "sthreads_affinity", .char none⟩,
  ⟨"SGXLKL_SYSCTL", "sysctl", .char none⟩,
  ⟨"SGXLKL_TAP", "tap", .char none⟩,
  ⟨"SGXLKL_TAP_MTU", "tap_mtu", .uint 0 INT_MAX⟩,
  ⟨"SGXLKL_TAP_OFFLOAD", "tap_offload", .bool false⟩,
  ⟨"SGXLKL_TRACE_HOST_SYSCALL", "trace_host_syscall", .bool false⟩,
  ⟨"SGXLKL_TRACE_INTERNAL_SYSCALL", "trace_internal_syscall", .bool false⟩,
  ⟨"SGXLKL_TRACE_LKL_SYSCALL", "trace_lkl_syscall", .bool false⟩,
  ⟨"SGXLKL_TRACE_MMAP", "trace_mmap", .bool false⟩,
  ⟨"SGXLKL_TRACE_SYSCALL", "trace_syscall", .bool false⟩,
  ⟨"SGXLKL_TRACE_THREAD", "trace_thread", .bool false⟩,
  ⟨"SGXLKL_VERBOSE", "verbose", .bool false⟩,
  ⟨"SGXLKL_WAIT_ON_HOST_CALLS", "wait_on_host_calls", .bool false⟩,
  ⟨"SGXLKL_WAIT_ON_IO_HOST_CALLS", "wait_on_io_host_calls", .bool false⟩,
  ⟨"SGXLKL_WG_IP", "wg_ip", .char (some DEFAULT_SGXLKL_WG_IP)⟩,
  ⟨"SGXLKL_WG_PORT", "wg_port", .uint DEFAULT_SGXLKL_WG_PORT USHRT_MAX⟩,
  ⟨"SGXLKL_WG_KEY", "wg_key", .char none⟩,
  ⟨"SGXLKL_WG_PEERS", "wg_peers", .char (some "")⟩,
  ⟨"SGXLKL_X86_ACC", "x86_acc", .bool true⟩,
  ⟨"SGXLKL_XTS_PROXY", "xts_proxy", .bool true⟩,
  ⟨"SGXLKL_GSO_OFFLOAD", "gso_offload", .bool true⟩,
  ⟨"SGXLKL_CHKSUM_OFFLOAD", "chksum_offload", .bool true⟩,
  ⟨"SGXLKL_DPDK_ZEROCOPY", "dpdk_zerocopy", .bool true⟩,
  ⟨"SGXLKL_SPDK_ZEROCOPY", "spdk_zerocopy", .bool true⟩]

/-! ## The state -/

inductive OptVal where
  | uint (n : Nat)
  | char (s : Option (List Char))
  | bool (b : Bool)
  deriving Repr, DecidableEq

def OptKind.zero : OptKind → OptVal
  | .char _ | .json _ => .char none
  | .uint _ _ => .uint 0
  | .bool _ => .bool false

structure ElemState where
  configured : Bool
  inited : Bool
  val : OptVal
  deriving Repr, DecidableEq

def OptKind.initial (kind : OptKind) : ElemState := ⟨false, false, kind.zero⟩

structure ConfigState where
  elems : Nat → ElemState
  warnings : List (String × String)

def ConfigState.initial : ConfigState where
  elems := fun i => (sgxlklConfig[i]?.map ConfigElem.kind).elim ⟨false, false, .uint 0⟩ OptKind.initial
  warnings := []

def ConfigState.warn (st : ConfigState) (text key : String) : ConfigState :=
  { st with warnings := st.warnings ++ [(text, key)] }

def ConfigState.setElem (st : ConfigState) (i : Nat) (s : ElemState) : ConfigState :=
  { st with elems := Function.update st.elems i s }

/-! ## Configuration documents -/

def configElemByKey (key : String) : Option (ConfigElem × Nat) :=
  sgxlklConfig.zipIdx.find? (fun e => e.1.jsonKey == key)

def u64OfInt (v : Int) : Nat := (v % 2 ^ 64).toNat

structure Outside where
  env : Environ
  toJsonString : Json → List Char

def parseEntryAt (out : Outside) (i : Nat) (e : ConfigElem) (key : String) (value : Json)
    (st : ConfigState) : ConfigState :=
  let store (val : OptVal) := st.setElem i ⟨true, true, val⟩
  match value with
  | .boolean b =>
    match e.kind with
    | .bool _ => store (.bool (getenvBool out.env e.envKey b))
    | _ => st.warn "Unexpected value for configuration key %s. Boolean expected.\n" key
  | .int v =>
    match e.kind with
    | .uint _ max => store (.uint (getenvUint64 out.env e.envKey (u64OfInt v) max))
    | _ => st.warn "Unexpected value for configuration key %s. Integer expected.\n" key
  | .string s =>
    match e.kind with
    -- size string, e.g. "12k"?
    | .uint val max =>
      store (.uint (getenvUint64 out.env e.envKey (sizeStrToUint64 s val max) max))
    | .char _ => store (.char (getenvStr out.env e.envKey (some s)))
    | _ => st.warn "Unexpected value for configuration key %s. String expected.\n" key
  | .object members =>
    match e.kind with
    | .json _ =>
      store (.char (getenvStr out.env e.envKey (some (out.toJsonString (.object members)))))
    | _ => st.warn "Unexpected value for configuration key %s. JSON object expected.\n" key
  | .double | .array _ | .null =>
    -- the `default` case falls out of the `switch` as the cases that have stored a value
    (st.warn "Value of configuration key %s has unknown type.\n" key).setElem i
      ⟨true, true, (st.elems i).val⟩

def parseSgxlklConfigEntry (out : Outside) : ParseJsonCallback ConfigState := fun key value st =>
  match configElemByKey key with
  | none => some (0, st.warn "Unknown configuration entry: %s\n" key)
  | some (e, i) => some (0, parseEntryAt out i e key value st)

def parseSgxlklConfigFromStr (tokener : Tokener) (out : Outside) (str : List Char)
    (st : ConfigState) : Option (Int × Option (List Char) × ConfigState) :=
  parseJsonFromStr tokener (parseSgxlklConfigEntry out) str none st

def parseDocuments (tokener : Tokener) (out : Outside) (docs : List (List Char)) :
    Option ConfigState :=
  docs.foldlM (fun st str => (parseSgxlklConfigFromStr tokener out str st).map (fun r => r.2.2))
    ConfigState.initial

/-! ## Reading an option -/

def sgxlklConfigured (out : Outside) (opt : Nat) (st : ConfigState) : Option Bool := do
  let e ← sgxlklConfig[opt]?
  return (st.elems opt).configured || (out.env e.envKey).isSome

def sgxlklConfigBool (out : Outside) (opt : Nat) (st : ConfigState) :
    Option (OptVal × ConfigState) :=
  match sgxlklConfig[opt]? with
  | some ⟨envKey, _, .bool dflt⟩ =>
    if (st.elems opt).inited then some ((st.elems opt).val, st)
    else
      let val := OptVal.bool (getenvBool out.env envKey dflt)
      some (val, st.setElem opt { st.elems opt with inited := true, val := val })
  | _ => none

def sgxlklConfigUint64 (out : Outside) (opt : Nat) (st : ConfigState) :
    Option (OptVal × ConfigState) :=
  match sgxlklConfig[opt]? with
  | some ⟨envKey, _, .uint dflt max⟩ =>
    if (st.elems opt).inited then some ((st.elems opt).val, st)
    else
      let val := OptVal.uint (getenvUint64 out.env envKey dflt max)
      some (val, st.setElem opt { st.elems opt with inited := true, val := val })
  | _ => none

def sgxlklConfigStr (out : Outside) (opt : Nat) (st : ConfigState) :
    Option (OptVal × ConfigState) :=
  match sgxlklConfig[opt]? with
  | some ⟨envKey, _, .char dflt⟩ | some ⟨envKey, _, .json dflt⟩ =>
    if (st.elems opt).inited then some ((st.elems opt).val, st)
    else
      let val := OptVal.char (getenvStr out.env envKey (dflt.map String.toList))
      some (val, st.setElem opt { st.elems opt with inited := true, val := val })
  | _ => none

def OptKind.reader (out : Outside) (opt : Nat) (st : ConfigState) :
    OptKind → Option (OptVal × ConfigState)
  | .bool _ => sgxlklConfigBool out opt st
  | .uint _ _ => sgxlklConfigUint64 out opt st
  | .char _ | .json _ => sgxlklConfigStr out opt st

end RktIo.Config
