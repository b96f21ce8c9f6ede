import RktIo.Wg.AllowedIps

/-!
# Keys and endpoints of WireGuard peers

The two other texts of a peer: `wg_key_from_base64` (`wireguard/wireguard.c`) and
`wgu_parse_endpoint` (`wireguard/wireguard_util.c`). `getaddrinfo` is a parameter, which may answer
each attempt differently.
-/

namespace RktIo.Wg

open CString

/-! ## Keys -/

def EINVAL : Int := 22

def between (first last : Char) (src : BitVec 32) : BitVec 32 :=
  let below := BitVec.ofNat 32 first.toNat - 1 - src
  let above := src - (BitVec.ofNat 32 last.toNat + 1)
  (below &&& above).sshiftRight 8

def decodeBase64Char (c : Char) : BitVec 32 :=
  let src := (BitVec.ofNat 8 c.toNat).signExtend 32
  let letters := (between 'A' 'Z' src &&& (src - 64)) + (between 'a' 'z' src &&& (src - 70))
  let digits := between '0' '9' src &&& (src + 5)
  let others := (between '+' '+' src &&& 63) + (between '/' '/' src &&& 64)
  BitVec.ofInt 32 (-1) + letters + digits + others

def decodeBase64 (src : List Char) : BitVec 32 :=
  (src.zipIdx).foldl (fun val c => val ||| decodeBase64Char c.1 <<< (18 - 6 * c.2)) 0

def wgKeyFromBase64 (key : List (BitVec 8)) (base64 : List Char) : Int × List (BitVec 8) :=
  if base64.length ≠ 44 ∨ base64[43]? ≠ some '=' then (-EINVAL, key)
  else
    let vals := (List.range 10).map fun i => decodeBase64 ((base64.drop (i * 4)).take 4)
    let val := decodeBase64 ((base64.drop 40).take 3 ++ ['A'])
    let ret : BitVec 8 :=
      vals.foldl (fun ret (val : BitVec 32) => ret ||| (val >>> 31).setWidth 8) 0
        ||| ((val >>> 31) ||| (val &&& 0xff)).setWidth 8
    let bytes (val : BitVec 32) : List (BitVec 32) := [val >>> 16, val >>> 8, val]
    let key := (vals.flatMap bytes ++ (bytes val).take 2).map (BitVec.setWidth 8)
    if ret = 0 then (0, key) else (-EINVAL, key)

example : (wgKeyFromBase64 [] "AQIDAAAAAAAAAAAAAAAAAAAAAAAAAAAAAAAAAAAAAP8=".toList)
    = (0, [1, 2, 3] ++ List.replicate 28 0 ++ [255]) := by
  decide +kernel

/-! ## Endpoints -/

inductive AddrFamily where
  | inet
  | inet6
  | other
  deriving Repr, DecidableEq

structure AddrInfo where
  family : AddrFamily
  addrlen : Nat
  addr : List (BitVec 8)
  deriving Repr, DecidableEq

/-- The errors of `getaddrinfo`, of which all but the named ones are transient. Where `EAI_NODATA`
is not defined, it is not returned. -/
inductive GaiError where
  | EAI_NONAME
  | EAI_FAIL
  | EAI_NODATA
  | transient (ret : Int)
  deriving Repr, DecidableEq

def GaiError.permanent : GaiError → Bool
  | transient _ => false
  | _ => true

abbrev Resolver := List Char → List Char → Nat → Except GaiError AddrInfo

def resolve (answer : Nat → Except GaiError AddrInfo) :
    Nat → Nat → Nat → Option (Except GaiError AddrInfo)
  | 0, _, _ => none
  | rounds + 1, timeout, attempt =>
    match answer attempt with
    | .ok resolved => some (.ok resolved)
    | .error err =>
      let timeout := timeout * 3 / 2
      if err.permanent || decide (90000000 ≤ timeout) then some (.error err)
      else resolve answer rounds timeout (attempt + 1)

def splitEndpoint (value : List Char) : Except Complaint (List Char × List Char) :=
  let noPort : Complaint := ("Unable to find port of endpoint: `%s'\n", value)
  match value with
  | [] => .error ("Unable to parse empty endpoint\n", [])
  | '[' :: rest =>
    match strsep ']' rest with
    | (_, none) => .error ("Unable to find matching brace of endpoint: `%s'\n", value)
    | (host, some (':' :: c :: port)) => .ok (host, c :: port)
    | (_, some _) => .error noPort
  | _ =>
    -- the last colon is the first one from behind
    match strsep ':' value.reverse with
    | (c :: port, some host) => .ok (host.reverse, (c :: port).reverse)
    | _ => .error noPort

def wguParseEndpoint (gai : Resolver) (endpoint : List (BitVec 8)) (value : List Char) :
    Option (Except Complaint (List (BitVec 8))) :=
  match splitEndpoint value with
  | .error complaint => some (.error complaint)
  | .ok (host, port) =>
    (resolve (gai host port) 12 1000000 0).map fun
      | .error _ => .error ("%s: `%s'\n", value)
      | .ok resolved =>
        if (resolved.family = .inet ∧ resolved.addrlen = 16)
            ∨ (resolved.family = .inet6 ∧ resolved.addrlen = 28) then
          .ok (resolved.addr.take resolved.addrlen ++ endpoint.drop resolved.addrlen)
        else .error ("Neither IPv4 nor IPv6 address found: `%s'\n", value)

def reachesLimit : Nat → Nat → Bool
  | 0, _ => false
  | rounds + 1, timeout =>
    decide (90000000 ≤ timeout * 3 / 2) || reachesLimit rounds (timeout * 3 / 2)

theorem resolve_isSome (answer : Nat → Except GaiError AddrInfo) {rounds timeout attempt : Nat}
    (h : reachesLimit rounds timeout = true) :
    (resolve answer rounds timeout attempt).isSome = true := by
  induction rounds generalizing timeout attempt with
  | zero => simp [reachesLimit] at h
  | succ rounds ih =>
    rw [resolve]
    cases answer attempt with
    | ok resolved => rfl
    | error err =>
      rw [reachesLimit, Bool.or_eq_true, decide_eq_true_eq] at h
      dsimp only
      split_ifs with hend
      · rfl
      · rw [Bool.or_eq_true, decide_eq_true_eq, not_or] at hend
        exact ih (h.resolve_left hend.2)

/-- **The attempts end** after 12 of them at the latest. -/
theorem wguParseEndpoint_isSome (gai : Resolver) (endpoint : List (BitVec 8)) (value : List Char) :
    (wguParseEndpoint gai endpoint value).isSome = true := by
  unfold wguParseEndpoint
  cases splitEndpoint value with
  | error complaint => rfl
  | ok parts =>
    dsimp only
    rw [Option.isSome_map]
    exact resolve_isSome _ (by decide)

end RktIo.Wg
