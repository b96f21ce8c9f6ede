import RktIo.Lib.InetText
import RktIo.Lib.Links

/-!
# Allowed addresses of a WireGuard peer

`wgu_parse_allowedips` (`wireguard/wireguard_util.c`) cuts a text at its commas and each item at its
slash, and links one entry for each item behind `*last_allowedip`. The entries are in an arena and
a pointer is an index of it; `inet_pton` is a parameter.
-/

namespace RktIo.Wg

open CString InetText Links List

/-! ## The parser -/

inductive IpAddr where
  | ip4 (addr : BitVec 32)
  | ip6 (addr : BitVec 128)
  deriving Repr, DecidableEq

def IpAddr.maxPrefix : IpAddr → Nat
  | ip4 _ => 32
  | ip6 _ => 128

structure AllowedIp where
  addr : IpAddr
  cidr : BitVec 8
  nextAllowedip : Option Nat := none
  deriving Repr, DecidableEq

def zeroKey : List (BitVec 8) := List.replicate 32 0

def zeroEndpoint : List (BitVec 8) := List.replicate 28 0

/-- `wg_peer`: the fields that are set here. The defaults are those of a zeroed structure. -/
structure WgPeer where
  flags : BitVec 32 := 0
  publicKey : List (BitVec 8) := zeroKey
  endpoint : List (BitVec 8) := zeroEndpoint
  firstAllowedip : Option Nat := none
  nextPeer : Option Nat := none
  deriving Repr, DecidableEq

def WGPEER_REPLACE_ALLOWEDIPS : BitVec 32 := 1 <<< 1

/-- `inet_pton` of the two families; `none` is a result other than 1. -/
structure InetPton where
  ip4 : List Char → Option (BitVec 32)
  ip6 : List Char → Option (BitVec 128)

abbrev Complaint := String × List Char

def wguParseIp (pton : InetPton) (value : List Char) : Except Complaint IpAddr :=
  let addr :=
    if ':' ∈ value then (pton.ip6 value).map IpAddr.ip6 else (pton.ip4 value).map IpAddr.ip4
  match addr with
  | none => .error ("Unable to parse IP address: `%s'\n", value)
  | some addr => .ok addr

def isdigit (c : Char) : Bool := decide (digitVal c < 10)

/-- Whether `mask` leads to `err`: its first character is not a digit (of an empty one it is the
terminator), something is behind the digits, or the number is too large. -/
def maskRefused (max : Nat) (mask : List Char) : Bool :=
  mask.head?.all (fun c => !isdigit c)
    || decide ((strtoull 10 mask).consumed < mask.length) || decide (max < (strtoull 10 mask).value)

def parseEntry (pton : InetPton) (entry : List Char) : Except Complaint (IpAddr × Nat) :=
  let (ip, mask) := strsep '/' entry
  match wguParseIp pton ip with
  | .error complaint => .error complaint
  | .ok addr =>
    match mask with
    | none => .ok (addr, addr.maxPrefix)
    | some mask =>
      if maskRefused addr.maxPrefix mask then
        .error ("AllowedIP is not in the correct format: `%s'\n", entry)
      else .ok (addr, (strtoull 10 mask).value)

/-- What the loop works on: the arena, `peer->first_allowedip` and its variable `allowedip`. -/
structure IpList where
  ips : List AllowedIp
  first : Option Nat
  last : Option Nat
  deriving Repr, DecidableEq

def IpList.link (s : IpList) (e : IpAddr × Nat) : IpList :=
  let new := s.ips.length
  let entry : AllowedIp := { addr := e.1, cidr := BitVec.ofNat 8 e.2 }
  match s.last with
  | some last =>
    { s with
      ips := s.ips.modify last (fun a => { a with nextAllowedip := some new }) ++ [entry]
      last := some new }
  | none => { ips := s.ips ++ [entry], first := some new, last := some new }

def parseEntries (pton : InetPton) :
    Nat → Option (List Char) → IpList → Option (Except Complaint Unit × IpList)
  | 0, _, _ => none
  | _ + 1, none, s => some (.ok (), s)
  | rounds + 1, some sep, s =>
    match parseEntry pton (strsep ',' sep).1 with
    | .error complaint => some (.error complaint, s)
    | .ok e => parseEntries pton rounds (strsep ',' sep).2 (s.link e)

structure ParseAllowedips where
  ret : Except Complaint Unit
  peer : WgPeer
  lastAllowedip : Option Nat
  ips : List AllowedIp
  deriving DecidableEq

def wguParseAllowedips (rounds : Nat) (pton : InetPton) (ips : List AllowedIp) (peer : WgPeer)
    (lastAllowedip : Option Nat) (value : List Char) : Option ParseAllowedips :=
  let peer := { peer with flags := peer.flags ||| WGPEER_REPLACE_ALLOWEDIPS }
  if value = [] then some ⟨.ok (), peer, lastAllowedip, ips⟩
  else do
    let (ret, s) ← parseEntries pton rounds (some value) ⟨ips, peer.firstAllowedip, lastAllowedip⟩
    let peer := { peer with firstAllowedip := s.first }
    match ret with
    | .error complaint => pure ⟨.error complaint, peer, lastAllowedip, s.ips⟩
    | .ok () => pure ⟨.ok (), peer, s.last, s.ips⟩

/-! ## One item -/

/-- `inet_pton` takes exactly the textual addresses of its family. -/
structure InetPton.Exact (pton : InetPton) : Prop where
  ip4 : ∀ s, (pton.ip4 s).isSome ↔ Ip4Text s
  ip6 : ∀ s, (pton.ip6 s).isSome ↔ Ip6Text s

def WithPrefix (item addr : List Char) (max cidr : Nat) : Prop :=
  (item = addr ∧ cidr = max)
    ∨ ∃ digits, item = addr ++ '/' :: digits ∧ digits ≠ [] ∧ (∀ c ∈ digits, isdigit c = true)
      ∧ cidr = numeral 10 digits ∧ cidr ≤ max

inductive IsAddr (pton : InetPton) (text : List Char) : IpAddr → Prop where
  | ip4 {a : BitVec 32} (h : pton.ip4 text = some a) (htext : Ip4Text text) :
      IsAddr pton text (.ip4 a)
  | ip6 {a : BitVec 128} (h : pton.ip6 text = some a) (htext : Ip6Text text) :
      IsAddr pton text (.ip6 a)

def IsEntry (pton : InetPton) (item : List Char) (e : IpAddr × Nat) : Prop :=
  ∃ text, IsAddr pton text e.1 ∧ WithPrefix item text e.1.maxPrefix e.2

def IsItem (item : List Char) : Prop :=
  ∃ text cidr, (Ip4Text text ∧ WithPrefix item text 32 cidr)
    ∨ (Ip6Text text ∧ WithPrefix item text 128 cidr)

variable {pton : InetPton} {item text value : List Char} {addr : IpAddr} {e : IpAddr × Nat}

theorem wguParseIp_eq_ok_iff (hpton : pton.Exact) :
    wguParseIp pton text = .ok addr ↔ IsAddr pton text addr := by
  unfold wguParseIp
  constructor
  · intro h
    by_cases hcolon : ':' ∈ text
    · rw [if_pos hcolon] at h
      cases haddr : pton.ip6 text with
      | none => simp [haddr] at h
      | some a =>
        obtain rfl : IpAddr.ip6 a = addr := by simpa [haddr] using h
        exact .ip6 haddr ((hpton.ip6 text).mp (by simp [haddr]))
    · rw [if_neg hcolon] at h
      cases haddr : pton.ip4 text with
      | none => simp [haddr] at h
      | some a =>
        obtain rfl : IpAddr.ip4 a = addr := by simpa [haddr] using h
        exact .ip4 haddr ((hpton.ip4 text).mp (by simp [haddr]))
  · intro h
    cases h with
    | ip4 haddr htext => rw [if_neg htext.colon_not_mem, haddr, Option.map_some]
    | ip6 haddr htext => rw [if_pos htext.colon_mem, haddr, Option.map_some]

theorem IsAddr.not_mem {c : Char} (h : IsAddr pton text addr) (hdigit : ¬ digitVal c < 16)
    (hdot : c ≠ '.') (hcolon : c ≠ ':') : c ∉ text := by
  intro hc
  cases h with
  | ip4 _ htext =>
    rcases htext.mem hc with h | h
    · exact hdigit (by omega)
    · exact hdot h
  | ip6 _ htext =>
    rcases htext.mem hc with h | h | h
    · exact hdigit h
    · exact hdot h
    · exact hcolon h

theorem IsAddr.slash_not_mem (h : IsAddr pton text addr) : '/' ∉ text :=
  h.not_mem (by decide) (by decide) (by decide)

theorem maskRefused_decimal {max : Nat} {digits rest : List Char} (hdec : Decimal digits rest)
    (hmax : max < 2 ^ 64 - 1) :
    maskRefused max (digits ++ rest) = false ↔ rest = [] ∧ numeral 10 digits ≤ max := by
  obtain ⟨c, cs, rfl⟩ := exists_cons_of_ne_nil hdec.ne_nil
  have hc : digitVal c < 10 := hdec.digit c (by simp)
  have hconsumed : (strtoull 10 (c :: cs ++ rest)).consumed = (c :: cs).length := by
    rw [strtoull_decimal hdec]
    split_ifs <;> rfl
  have hvalue : max < (strtoull 10 (c :: cs ++ rest)).value ↔ max < numeral 10 (c :: cs) := by
    rw [strtoull_decimal hdec]
    split_ifs with hfits
    · rfl
    · exact iff_of_true hmax (by omega)
  rw [cons_append] at hconsumed hvalue ⊢
  simp [maskRefused, hconsumed, hvalue, isdigit, hc]

theorem maskRefused_eq_false_iff {max : Nat} {mask : List Char} (hmax : max < 2 ^ 64 - 1) :
    maskRefused max mask = false
      ↔ mask ≠ [] ∧ (∀ c ∈ mask, isdigit c = true) ∧ numeral 10 mask ≤ max := by
  constructor
  · intro h
    cases mask with
    | nil => simp [maskRefused] at h
    | cons c mask =>
      by_cases hc : isdigit c = true
      · -- the digits that the mask starts with, and what is behind them
        have hdec := @decimal_of_digit c mask (of_decide_eq_true hc)
        have hsplit := @takeWhile_append_dropWhile _ isdigit (c :: mask)
        rw [← hsplit] at h
        obtain ⟨hrest, hle⟩ := (maskRefused_decimal hdec hmax).mp h
        have hall : (c :: mask).takeWhile isdigit = c :: mask :=
          (append_nil _).symm.trans (hrest ▸ hsplit)
        refine ⟨by simp, takeWhile_eq_self_iff.mp hall, ?_⟩
        rw [← hall]
        exact hle
      · simp [maskRefused, hc] at h
  · rintro ⟨hne, hdigits, hle⟩
    have hdec : Decimal mask [] := ⟨hne, fun c hc => of_decide_eq_true (hdigits c hc), by simp⟩
    have h := (maskRefused_decimal hdec hmax).mpr ⟨rfl, hle⟩
    rwa [append_nil] at h

theorem IpAddr.maxPrefix_lt (addr : IpAddr) : addr.maxPrefix < 2 ^ 64 - 1 := by
  cases addr <;> simp [IpAddr.maxPrefix]

theorem strtoull_mask {max : Nat} {mask : List Char} (hmax : max < 2 ^ 64 - 1) (hne : mask ≠ [])
    (hdigits : ∀ c ∈ mask, isdigit c = true) (hle : numeral 10 mask ≤ max) :
    (strtoull 10 mask).value = numeral 10 mask := by
  rw [strtoull_of_digits (by decide) hne (fun c hc => of_decide_eq_true (hdigits c hc)),
    if_pos (by omega)]

theorem parseEntry_eq_ok_iff (hpton : pton.Exact) :
    parseEntry pton item = .ok e ↔ IsEntry pton item e := by
  constructor
  · intro h
    rcases strsep_cases '/' item with ⟨-, hsep⟩ | ⟨text, mask, -, rfl, hsep⟩
    · cases hip : wguParseIp pton item with
      | error complaint => simp [parseEntry, hsep, hip] at h
      | ok addr =>
        obtain rfl : (addr, addr.maxPrefix) = e := by simpa [parseEntry, hsep, hip] using h
        exact ⟨item, (wguParseIp_eq_ok_iff hpton).mp hip, Or.inl ⟨rfl, rfl⟩⟩
    · cases hip : wguParseIp pton text with
      | error complaint => simp [parseEntry, hsep, hip] at h
      | ok addr =>
        cases hmask : maskRefused addr.maxPrefix mask with
        | true => simp [parseEntry, hsep, hip, hmask] at h
        | false =>
          obtain rfl : (addr, (strtoull 10 mask).value) = e := by
            simpa [parseEntry, hsep, hip, hmask] using h
          obtain ⟨hne, hdigits, hle⟩ := (maskRefused_eq_false_iff addr.maxPrefix_lt).mp hmask
          have hvalue := strtoull_mask addr.maxPrefix_lt hne hdigits hle
          exact ⟨text, (wguParseIp_eq_ok_iff hpton).mp hip,
            Or.inr ⟨mask, rfl, hne, hdigits, hvalue, hvalue.trans_le hle⟩⟩
  · obtain ⟨addr, cidr⟩ := e
    rintro ⟨text, haddr, ⟨rfl, hcidr⟩ | ⟨digits, rfl, hne, hdigits, hcidr, hle⟩⟩
    · have hsep := strsep_of_not_mem haddr.slash_not_mem
      simpa [parseEntry, hsep, (wguParseIp_eq_ok_iff hpton).mpr haddr] using hcidr.symm
    · have hsep := strsep_append haddr.slash_not_mem digits
      have hle' : numeral 10 digits ≤ addr.maxPrefix := hcidr ▸ hle
      have hmask := (maskRefused_eq_false_iff addr.maxPrefix_lt).mpr ⟨hne, hdigits, hle'⟩
      have hvalue := strtoull_mask addr.maxPrefix_lt hne hdigits hle'
      simpa [parseEntry, hsep, (wguParseIp_eq_ok_iff hpton).mpr haddr, hmask, hvalue]
        using hcidr.symm

theorem cidr_lt_of_parseEntry (h : parseEntry pton item = .ok e) : e.2 < 2 ^ 8 := by
  have hmax (addr : IpAddr) : addr.maxPrefix ≤ 128 := by cases addr <;> simp [IpAddr.maxPrefix]
  unfold parseEntry at h
  dsimp only at h
  split at h
  · cases h
  · rename_i addr _
    have := hmax addr
    split at h
    · cases h
      simp only
      omega
    · rename_i mask _
      cases hmask : maskRefused addr.maxPrefix mask with
      | true => simp [hmask] at h
      | false =>
        rw [hmask] at h
        cases h
        have hle : ¬ addr.maxPrefix < (strtoull 10 mask).value := by
          simp only [maskRefused, Bool.or_eq_false_iff, decide_eq_false_iff_not] at hmask
          exact hmask.2
        simp only
        omega

theorem isItem_iff_exists_isEntry (hpton : pton.Exact) :
    IsItem item ↔ ∃ e, IsEntry pton item e := by
  constructor
  · rintro ⟨text, cidr, ⟨htext, hitem⟩ | ⟨htext, hitem⟩⟩
    · obtain ⟨a, ha⟩ := Option.isSome_iff_exists.mp ((hpton.ip4 text).mpr htext)
      exact ⟨(.ip4 a, cidr), text, .ip4 ha htext, hitem⟩
    · obtain ⟨a, ha⟩ := Option.isSome_iff_exists.mp ((hpton.ip6 text).mpr htext)
      exact ⟨(.ip6 a, cidr), text, .ip6 ha htext, hitem⟩
  · rintro ⟨⟨addr, cidr⟩, text, haddr, hitem⟩
    cases haddr with
    | ip4 _ htext => exact ⟨text, cidr, Or.inl ⟨htext, hitem⟩⟩
    | ip6 _ htext => exact ⟨text, cidr, Or.inr ⟨htext, hitem⟩⟩

/-! ## The loop -/

def parseItems (pton : InetPton) : List (List Char) → IpList → Except Complaint Unit × IpList
  | [], s => (.ok (), s)
  | item :: items, s =>
    match parseEntry pton item with
    | .error complaint => (.error complaint, s)
    | .ok e => parseItems pton items (s.link e)

variable {s : IpList} {items : List (List Char)} {es : List (IpAddr × Nat)}

/-- **The loop goes through the items between the commas**, each in a round and one round for the
end. -/
theorem parseEntries_spec {rounds : Nat} {sep : List Char} (hrounds : sep.length + 2 ≤ rounds) :
    parseEntries pton rounds (some sep) s = some (parseItems pton (sep.splitOn ',') s) := by
  induction rounds generalizing sep s with
  | zero => omega
  | succ rounds ih =>
    rw [parseEntries, splitOn_eq_strsep, parseItems]
    cases hentry : parseEntry pton (strsep ',' sep).1 with
    | error complaint => rfl
    | ok e =>
      rcases strsep_cases ',' sep with ⟨-, hsep⟩ | ⟨t, r, -, rfl, hsep⟩
      · obtain ⟨rounds, rfl⟩ : ∃ n, rounds = n + 1 := ⟨rounds - 1, by omega⟩
        simp [hsep, parseEntries, parseItems]
      · rw [hsep]
        exact ih (by simp at hrounds; omega)

abbrev Taken (pton : InetPton) : List (List Char) → List (IpAddr × Nat) → Prop :=
  List.Forall₂ fun item e => parseEntry pton item = .ok e

theorem parseItems_of_taken (h : Taken pton items es) :
    parseItems pton items s = (.ok (), es.foldl IpList.link s) := by
  induction h generalizing s with
  | nil => rfl
  | cons hentry _ ih =>
    rw [parseItems, hentry]
    exact ih

theorem taken_of_parseItems (h : (parseItems pton items s).1 = .ok ()) :
    ∃ es, Taken pton items es := by
  induction items generalizing s with
  | nil => exact ⟨[], .nil⟩
  | cons item items ih =>
    rw [parseItems] at h
    cases hentry : parseEntry pton item with
    | error complaint => simp [hentry] at h
    | ok e =>
      rw [hentry] at h
      obtain ⟨es, hes⟩ := ih h
      exact ⟨e :: es, .cons hentry hes⟩

theorem Taken.cidr_lt (h : Taken pton items es) : ∀ e ∈ es, e.2 < 2 ^ 8 := by
  induction h with
  | nil => simp
  | cons hentry _ ih => exact forall_mem_cons.mpr ⟨cidr_lt_of_parseEntry hentry, ih⟩

theorem exists_taken_iff : (∃ es, Taken pton items es)
    ↔ ∀ item ∈ items, ∃ e, parseEntry pton item = .ok e := by
  induction items with
  | nil => exact iff_of_true ⟨[], .nil⟩ (by simp)
  | cons item items ih =>
    rw [forall_mem_cons, ← ih]
    constructor
    · rintro ⟨es, hes⟩
      cases hes with
      | cons hentry hes => exact ⟨⟨_, hentry⟩, _, hes⟩
    · rintro ⟨⟨e, hentry⟩, es, hes⟩
      exact ⟨e :: es, .cons hentry hes⟩

/-! ## The list of the peer -/

def nextIp (ips : List AllowedIp) (p : Nat) : Option Nat := (ips[p]?).bind AllowedIp.nextAllowedip

def entryAt (ips : List AllowedIp) (p : Nat) : Option (IpAddr × Nat) :=
  (ips[p]?).map fun a => (a.addr, a.cidr.toNat)

/-- The list of a peer: its entries, the last of which is `*last_allowedip`. -/
structure PeerIps (s : IpList) (l : List Nat) : Prop where
  path : Path (nextIp s.ips) s.first l none
  last : s.last = l.getLast?
  valid : ∀ p ∈ l, p < s.ips.length

variable {l : List Nat}

def newEntry (e : IpAddr × Nat) : AllowedIp := { addr := e.1, cidr := BitVec.ofNat 8 e.2 }

theorem IpList.link_of_none (h : s.last = none) :
    s.link e = ⟨s.ips ++ [newEntry e], some s.ips.length, some s.ips.length⟩ := by
  unfold IpList.link
  rw [h]
  rfl

theorem IpList.link_of_some {last : Nat} (h : s.last = some last) :
    s.link e = ⟨s.ips.modify last (fun a => { a with nextAllowedip := some s.ips.length })
      ++ [newEntry e], s.first, some s.ips.length⟩ := by
  unfold IpList.link
  rw [h]
  rfl

theorem IpList.link_length (s : IpList) (e : IpAddr × Nat) :
    (s.link e).ips.length = s.ips.length + 1 := by
  cases h : s.last with
  | none => simp [link_of_none h]
  | some last => simp [link_of_some h]

theorem IpList.link_last (s : IpList) (e : IpAddr × Nat) :
    (s.link e).last = some s.ips.length := by
  cases h : s.last with
  | none => rw [link_of_none h]
  | some last => rw [link_of_some h]

theorem IpList.link_getElem?_new (s : IpList) (e : IpAddr × Nat) :
    (s.link e).ips[s.ips.length]? = some (newEntry e) := by
  cases h : s.last with
  | none => simp [link_of_none h]
  | some last =>
    rw [link_of_some h, getElem?_append_right (by simp)]
    simp

theorem IpList.link_getElem? {p : Nat} (hp : p < s.ips.length) :
    (s.link e).ips[p]? = (s.ips[p]?).map fun a =>
      if s.last = some p then { a with nextAllowedip := some s.ips.length } else a := by
  cases h : s.last with
  | none => simp [link_of_none h, getElem?_append_left hp]
  | some last =>
    rw [link_of_some h, getElem?_append_left (by simpa using hp), getElem?_modify]
    simp

theorem IpList.entryAt_link {p : Nat} (hp : p < s.ips.length) :
    entryAt (s.link e).ips p = entryAt s.ips p := by
  rw [entryAt, entryAt, link_getElem? hp, Option.map_map]
  congr 1
  funext a
  by_cases h : s.last = some p <;> simp [h]

theorem IpList.entryAt_link_new (he : e.2 < 2 ^ 8) :
    entryAt (s.link e).ips s.ips.length = some e := by
  rw [entryAt, link_getElem?_new, Option.map_some, newEntry]
  simp only [BitVec.toNat_ofNat, Nat.mod_eq_of_lt he]

theorem IpList.nextIp_link {p : Nat} (hp : p < s.ips.length) (hlast : s.last ≠ some p) :
    nextIp (s.link e).ips p = nextIp s.ips p := by
  rw [nextIp, link_getElem? hp, nextIp]
  simp [hlast]

theorem IpList.nextIp_link_last {p : Nat} (hp : p < s.ips.length) (hlast : s.last = some p) :
    nextIp (s.link e).ips p = some s.ips.length := by
  rw [nextIp, link_getElem? hp]
  simp [hlast, hp]

theorem IpList.nextIp_link_new : nextIp (s.link e).ips s.ips.length = none := by
  rw [nextIp, link_getElem?_new]
  rfl

theorem PeerIps.link (h : PeerIps s l) (e : IpAddr × Nat) :
    PeerIps (s.link e) (l ++ [s.ips.length]) := by
  have hvalid : ∀ p ∈ l ++ [s.ips.length], p < (s.link e).ips.length := by
    intro p hp
    rw [IpList.link_length]
    rcases mem_append.mp hp with hp | hp
    · have := h.valid p hp
      omega
    · rw [mem_singleton.mp hp]
      omega
  rcases eq_nil_or_concat' l with rfl | ⟨l, p, rfl⟩
  · -- the list was empty, and the entry is its first
    have hlast : s.last = none := h.last
    refine ⟨?_, by simp [IpList.link_last], hvalid⟩
    have hfirst : (s.link e).first = some s.ips.length := by rw [IpList.link_of_none hlast]
    rw [hfirst]
    refine .cons ?_
    rw [IpList.nextIp_link_new]
    exact .nil
  · have hlast : s.last = some p := by simpa using h.last
    refine ⟨?_, by simp [IpList.link_last], hvalid⟩
    have hfirst : (s.link e).first = s.first := by rw [IpList.link_of_some hlast]
    have hp : p ∉ l := fun hmem =>
      (nodup_append.mp h.path.nodup).2.2 p hmem p (mem_singleton_self p) rfl
    rw [hfirst, ← IpList.nextIp_link_new]
    refine h.path.snoc ?_ (IpList.nextIp_link_last (h.valid p (by simp)) hlast)
    intro q hq
    refine IpList.nextIp_link (h.valid q (by simp [hq])) ?_
    rw [hlast]
    rintro ⟨⟩
    exact hp hq

/-- **The entries are linked at the end of the list, in order**; those that were there stay. -/
theorem PeerIps.linkAll (h : PeerIps s l) (hes : ∀ e ∈ es, e.2 < 2 ^ 8) :
    ∃ new, PeerIps (es.foldl IpList.link s) (l ++ new)
      ∧ new.map (entryAt (es.foldl IpList.link s).ips) = es.map some
      ∧ l.map (entryAt (es.foldl IpList.link s).ips) = l.map (entryAt s.ips) := by
  induction es generalizing s l with
  | nil => exact ⟨[], by simpa using h, rfl, rfl⟩
  | cons e es ih =>
    obtain ⟨new, hlist, hnew, hold⟩ := ih (h.link e) (fun e' he' => hes e' (by simp [he']))
    rw [map_append, map_append] at hold
    obtain ⟨hold, hfirst⟩ := append_inj hold (by simp)
    refine ⟨s.ips.length :: new, by simpa using hlist, ?_, ?_⟩
    · rw [map_singleton, map_singleton, IpList.entryAt_link_new (hes e (by simp))]
        at hfirst
      simp only [foldl_cons, map_cons, hnew]
      rw [singleton_inj.mp hfirst]
    · rw [foldl_cons, hold]
      exact map_congr_left (fun p hp => IpList.entryAt_link (h.valid p hp))

theorem parseItems_getElem? {n : Nat} (hn : n ≤ s.ips.length)
    (hlast : ∀ q, s.last = some q → n ≤ q) :
    ∀ p < n, (parseItems pton items s).2.ips[p]? = s.ips[p]? := by
  induction items generalizing s with
  | nil => exact fun _ _ => rfl
  | cons item items ih =>
    intro p hp
    rw [parseItems]
    cases parseEntry pton item with
    | error complaint => rfl
    | ok e =>
      have hnew : ∀ q, (s.link e).last = some q → n ≤ q := by
        intro q hq
        rw [IpList.link_last, Option.some.injEq] at hq
        omega
      have hne : s.last ≠ some p := fun heq => absurd (hlast p heq) (by omega)
      have hlink : (s.link e).ips[p]? = s.ips[p]? := by
        rw [IpList.link_getElem? (by omega)]
        simp [hne]
      dsimp only
      rw [ih (by rw [IpList.link_length]; omega) hnew p hp, hlink]

/-! ## The whole function -/

def itemsOf (value : List Char) : List (List Char) :=
  if value = [] then [] else value.splitOn ','

variable {rounds : Nat} {ips : List AllowedIp} {peer : WgPeer} {last : Option Nat}

theorem wguParseAllowedips_eq (hrounds : value.length + 2 ≤ rounds) :
    wguParseAllowedips rounds pton ips peer last value =
      let (ret, s) := parseItems pton (itemsOf value) ⟨ips, peer.firstAllowedip, last⟩
      some ⟨ret, { peer with flags := peer.flags ||| WGPEER_REPLACE_ALLOWEDIPS
                             firstAllowedip := s.first },
        if ret = .ok () then s.last else last, s.ips⟩ := by
  unfold wguParseAllowedips itemsOf
  by_cases hvalue : value = []
  · simp [hvalue, parseItems]
  · rw [if_neg hvalue, if_neg hvalue, parseEntries_spec hrounds]
    rcases h : parseItems pton (value.splitOn ',') ⟨ips, peer.firstAllowedip, last⟩ with ⟨ret, s⟩
    cases ret with
    | error complaint => simp
    | ok u => simp

/-- **A text is taken exactly if it is empty or each of its items is an address with or without a
prefix length.** The entries of the items are then behind those that the peer had, and
`*last_allowedip` is the last of them. -/
theorem parse_allowedips_exact (hpton : pton.Exact) (hrounds : value.length + 2 ≤ rounds) :
    ∃ r, wguParseAllowedips rounds pton ips peer last value = some r
      ∧ (r.ret = .ok () ↔ value = [] ∨ ∀ item ∈ value.splitOn ',', IsItem item)
      ∧ (r.ret = .ok () → ∀ l, PeerIps ⟨ips, peer.firstAllowedip, last⟩ l →
        ∃ new es, PeerIps ⟨r.ips, r.peer.firstAllowedip, r.lastAllowedip⟩ (l ++ new)
          ∧ List.Forall₂ (IsEntry pton) (itemsOf value) es
          ∧ new.map (entryAt r.ips) = es.map some
          ∧ l.map (entryAt r.ips) = l.map (entryAt ips)) := by
  have hitem (item : List Char) : IsItem item ↔ ∃ e, parseEntry pton item = .ok e := by
    simp only [isItem_iff_exists_isEntry hpton, parseEntry_eq_ok_iff hpton]
  rw [wguParseAllowedips_eq hrounds]
  refine ⟨_, rfl, ?_, ?_⟩
  · have hitems : (∀ item ∈ itemsOf value, ∃ e, parseEntry pton item = .ok e)
        ↔ value = [] ∨ ∀ item ∈ value.splitOn ',', IsItem item := by
      unfold itemsOf
      by_cases hvalue : value = [] <;> simp [hvalue, hitem]
    rw [← hitems, ← exists_taken_iff]
    constructor
    · exact taken_of_parseItems
    · rintro ⟨es, hes⟩
      simp only [parseItems_of_taken hes]
  · intro hok l hl
    obtain ⟨es, hes⟩ := taken_of_parseItems hok
    obtain ⟨new, hlist, hnew, hold⟩ := hl.linkAll hes.cidr_lt
    simp only [parseItems_of_taken hes, if_true]
    exact ⟨new, es, hlist, hes.imp (fun _ _ => (parseEntry_eq_ok_iff hpton).mp), hnew, hold⟩

open Classical in
/-- An `inet_pton` that takes exactly the textual addresses, for whatever they stand for. -/
noncomputable def InetPton.textual (v4 : List Char → BitVec 32) (v6 : List Char → BitVec 128) :
    InetPton where
  ip4 s := if Ip4Text s then some (v4 s) else none
  ip6 s := if Ip6Text s then some (v6 s) else none

theorem InetPton.textual_exact (v4 : List Char → BitVec 32) (v6 : List Char → BitVec 128) :
    (InetPton.textual v4 v6).Exact := by
  constructor
  · intro s
    by_cases h : Ip4Text s <;> simp [InetPton.textual, h]
  · intro s
    by_cases h : Ip6Text s <;> simp [InetPton.textual, h]

theorem parse_allowedips_exact_both_families :
    ∃ r, wguParseAllowedips 16 (InetPton.textual (fun _ => 10) (fun _ => 1)) [] {} none
        "10.0.0.0/8,::1".toList = some r
      ∧ r.ret = .ok () := by
  obtain ⟨r, hr, hret, -⟩ :=
    @parse_allowedips_exact _ "10.0.0.0/8,::1".toList 16 [] {} none
      (InetPton.textual_exact (fun _ => 10) (fun _ => 1)) (by decide)
  have hitems : "10.0.0.0/8,::1".toList.splitOn ',' = ["10.0.0.0/8".toList, "::1".toList] := by
    decide
  have h4 : Ip4Text "10.0.0.0".toList :=
    ⟨["10".toList, "0".toList, "0".toList, "0".toList], rfl, by decide +kernel, by decide⟩
  have h6 : Ip6Text "::1".toList :=
    @Ip6Text.run [] "1".toList 1 (by simp) (Or.inr (.one (by decide +kernel))) (by decide)
  refine ⟨r, hr, hret.mpr (Or.inr ?_)⟩
  rw [hitems, List.forall_mem_cons, List.forall_mem_singleton]
  exact ⟨⟨"10.0.0.0".toList, 8, Or.inl ⟨h4, Or.inr ⟨"8".toList, by decide, by decide,
      by simp [isdigit, digitVal], by decide, by decide⟩⟩⟩,
    ⟨"::1".toList, 128, Or.inr ⟨h6, Or.inl ⟨rfl, rfl⟩⟩⟩⟩

end RktIo.Wg
