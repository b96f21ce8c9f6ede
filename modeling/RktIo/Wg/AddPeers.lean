import RktIo.Cmd.AppConfig
import RktIo.Wg.PeerText

/-!
# Adding peers to a WireGuard device

`wgu_add_peers` (`wireguard/wireguard_util.c`) fills an array of peers in a first loop, which skips
the configurations that lack a key, allowed addresses or an endpoint, and links the array to the
list of the device in a second loop, which skips none. A peer that was skipped is what `malloc` left
in the array.

Peers are at addresses; those of the array are the ones from `base` on.
-/

namespace RktIo.Wg

open Cmd Links Function List

/-! ## The model -/

def WGPEER_HAS_PUBLIC_KEY : BitVec 32 := 1 <<< 2

structure WgDevice where
  firstPeer : Option Nat
  lastPeer : Option Nat
  deriving Repr, DecidableEq

structure PeerText where
  key : List Char
  allowedIps : List Char
  endpoint : List Char
  deriving Repr, DecidableEq

def peerText (cfg : EnclaveWgPeerConfig) : Except String PeerText :=
  let key := cfg.key.getD []
  let allowedIps := cfg.allowedIps.getD []
  let endpoint := cfg.endpoint.getD []
  if key = [] then .error "Unable to add wireguard peer due to missing key.\n"
  else if allowedIps = [] then
    .error "Unable to add wireguard peer due to missing allowed ips configuration.\n"
  else if endpoint = [] then .error "Unable to add wireguard peer due to missing endpoint.\n"
  else .ok ⟨key, allowedIps, endpoint⟩

/-- The body of the first loop for a complete configuration: the peer that is filled in from zeros,
or what the function returns, and the arena of allowed addresses. -/
def initPeer (pton : InetPton) (gai : Resolver) (ips : List AllowedIp) (t : PeerText) :
    Option (Except Int WgPeer × List AllowedIp) :=
  let peer : WgPeer := { flags := WGPEER_HAS_PUBLIC_KEY ||| WGPEER_REPLACE_ALLOWEDIPS }
  let key := wgKeyFromBase64 peer.publicKey t.key
  if key.1 ≠ 0 then some (.error key.1, ips)
  else do
    let r ← wguParseAllowedips (t.allowedIps.length + 2) pton ips { peer with publicKey := key.2 }
      none t.allowedIps
    match r.ret with
    | .error _ => pure (.error (-EINVAL), r.ips)
    | .ok () =>
      match ← wguParseEndpoint gai r.peer.endpoint t.endpoint with
      | .error _ => pure (.error (-EINVAL), r.ips)
      | .ok endpoint => pure (.ok { r.peer with endpoint := endpoint }, r.ips)

/-- The memory that the peers are in, the arena of allowed addresses, and the warnings. -/
structure PeerHeap where
  peers : Nat → WgPeer
  ips : List AllowedIp
  warnings : List String := []

def parsePeers (pton : InetPton) (gai : Nat → Resolver) (base : Nat) :
    Nat → List EnclaveWgPeerConfig → PeerHeap → Option (Except Int Unit × PeerHeap)
  | _, [], h => some (.ok (), h)
  | i, cfg :: cfgs, h =>
    match peerText cfg with
    | .error warning =>
      parsePeers pton gai base (i + 1) cfgs { h with warnings := h.warnings ++ [warning] }
    | .ok t => do
      let (peer, ips) ← initPeer pton (gai i) h.ips t
      match peer with
      | .error ret => pure (.error ret, { h with ips := ips })
      | .ok peer =>
        parsePeers pton gai base (i + 1) cfgs
          { h with peers := update h.peers (base + i) peer, ips := ips }

/-- `wgu_add_peer`; without a last peer it would write through `NULL`. `set` is what `wg_set_device`
returns, if it is called. -/
def wguAddPeer (setDevice : Bool) (set : Int) (dev : WgDevice) (peers : Nat → WgPeer) (new : Nat) :
    Option (Int × WgDevice × (Nat → WgPeer)) := do
  let (dev, peers) ←
    match dev.firstPeer with
    | none => some (WgDevice.mk (some new) (some new), peers)
    | some _ =>
      dev.lastPeer.map fun last =>
        ({ dev with lastPeer := some new },
          update peers last { peers last with nextPeer := some new })
  if setDevice = true ∧ set < 0 then pure (set, dev, peers) else pure (0, dev, peers)

def linkPeers (setDevice : Bool) (set : Nat → Int) (base : Nat) :
    Nat → Nat → WgDevice → (Nat → WgPeer) → Option (Int × WgDevice × (Nat → WgPeer))
  | 0, _, dev, peers => some (0, dev, peers)
  | n + 1, i, dev, peers => do
    let (ret, dev, peers) ← wguAddPeer setDevice (set i) dev peers (base + i)
    if ret ≠ 0 then pure (ret, dev, peers) else linkPeers setDevice set base n (i + 1) dev peers

/-- What the function works with besides its arguments: `inet_pton`, `getaddrinfo` for each
configuration, `wg_set_device` for each peer, and where `malloc` puts the array. -/
structure WgEnv where
  pton : InetPton
  gai : Nat → Resolver
  set : Nat → Int
  base : Nat

def wguAddPeers (env : WgEnv) (dev : WgDevice) (cfgs : List EnclaveWgPeerConfig) (setDevice : Bool)
    (h : PeerHeap) : Option (Int × WgDevice × PeerHeap) := do
  let (ret, h) ← parsePeers env.pton env.gai env.base 0 cfgs h
  match ret with
  | .error ret => pure (ret, dev, h)
  | .ok () =>
    let (ret, dev, peers) ← linkPeers setDevice env.set env.base cfgs.length 0 dev h.peers
    pure (ret, dev, { h with peers := peers })

/-! ## What is to hold -/

def completes : Nat → List EnclaveWgPeerConfig → List (Nat × PeerText)
  | _, [] => []
  | i, cfg :: cfgs =>
    match peerText cfg with
    | .error _ => completes (i + 1) cfgs
    | .ok t => (i, t) :: completes (i + 1) cfgs

def Parses (pton : InetPton) (gai : Resolver) (t : PeerText) : Prop :=
  (wgKeyFromBase64 zeroKey t.key).1 = 0
    ∧ (∃ es, Taken pton (itemsOf t.allowedIps) es)
    ∧ ∃ endpoint, wguParseEndpoint gai zeroEndpoint t.endpoint = some (.ok endpoint)

structure Initialised (pton : InetPton) (gai : Resolver) (ips : List AllowedIp) (peer : WgPeer)
    (t : PeerText) : Prop where
  flags : peer.flags = WGPEER_HAS_PUBLIC_KEY ||| WGPEER_REPLACE_ALLOWEDIPS
  publicKey : wgKeyFromBase64 zeroKey t.key = (0, peer.publicKey)
  endpoint : wguParseEndpoint gai zeroEndpoint t.endpoint = some (.ok peer.endpoint)
  allowedIps : ∃ l es, Path (nextIp ips) peer.firstAllowedip l none ∧ (∀ p ∈ l, p < ips.length)
    ∧ Taken pton (itemsOf t.allowedIps) es ∧ l.map (entryAt ips) = es.map some

def nextPeerAt (peers : Nat → WgPeer) (p : Nat) : Option Nat := (peers p).nextPeer

structure PeerList (dev : WgDevice) (peers : Nat → WgPeer) (l : List Nat) : Prop where
  path : Path (nextPeerAt peers) dev.firstPeer l none
  last : l ≠ [] → dev.lastPeer = l.getLast?

structure SameButNext (peer peer' : WgPeer) : Prop where
  flags : peer'.flags = peer.flags
  publicKey : peer'.publicKey = peer.publicKey
  endpoint : peer'.endpoint = peer.endpoint
  firstAllowedip : peer'.firstAllowedip = peer.firstAllowedip

/-- **The device gets exactly the complete peers**: if the function returns 0, its list `l` has one
initialised peer for each complete configuration more, in order; if one of them cannot be parsed,
the function returns an error and the list is as before. -/
def AddsComplete (env : WgEnv) (dev : WgDevice) (cfgs : List EnclaveWgPeerConfig) (setDevice : Bool)
    (h : PeerHeap) (l : List Nat) : Prop :=
  ∃ ret dev' h', wguAddPeers env dev cfgs setDevice h = some (ret, dev', h')
    ∧ (ret = 0 → ∃ new, PeerList dev' h'.peers (l ++ new)
      ∧ (∀ p ∈ l, SameButNext (h.peers p) (h'.peers p))
      ∧ List.Forall₂ (fun p c => Initialised env.pton (env.gai c.1) h'.ips (h'.peers p) c.2)
          new (completes 0 cfgs))
    ∧ ((∃ c ∈ completes 0 cfgs, ¬ Parses env.pton (env.gai c.1) c.2) →
      ret ≠ 0 ∧ dev' = dev ∧ PeerList dev' h'.peers l ∧ ∀ p ∈ l, h'.peers p = h.peers p)

/-! ## One configuration -/

variable {pton : InetPton} {gai : Resolver} {ips ips' : List AllowedIp} {peer : WgPeer}
  {t : PeerText}

theorem lt_length_of_extends (hext : ∀ p < ips.length, ips'[p]? = ips[p]?) {p : Nat}
    (hp : p < ips.length) : p < ips'.length := by
  have hsome := hext p hp
  rw [List.getElem?_eq_getElem hp] at hsome
  exact (List.getElem?_eq_some_iff.mp hsome).1

theorem Initialised.mono (h : Initialised pton gai ips peer t)
    (hext : ∀ p < ips.length, ips'[p]? = ips[p]?) : Initialised pton gai ips' peer t := by
  obtain ⟨l, es, hpath, hvalid, htaken, hentries⟩ := h.allowedIps
  refine ⟨h.flags, h.publicKey, h.endpoint, l, es, ?_,
    fun p hp => lt_length_of_extends hext (hvalid p hp), htaken, ?_⟩
  · refine hpath.congr (fun p hp => ?_)
    rw [nextIp, nextIp, hext p (hvalid p hp)]
  · rw [← hentries]
    refine map_congr_left (fun p hp => ?_)
    rw [entryAt, entryAt, hext p (hvalid p hp)]

inductive InitResult (pton : InetPton) (gai : Resolver) (ips : List AllowedIp) (t : PeerText) :
    Except Int WgPeer → Prop where
  | failed {ret : Int} (hret : ret ≠ 0) (h : ¬ Parses pton gai t) :
      InitResult pton gai ips t (.error ret)
  | filled {peer : WgPeer} (hparses : Parses pton gai t) (h : Initialised pton gai ips peer t)
      (hnext : peer.nextPeer = none) : InitResult pton gai ips t (.ok peer)

theorem initPeer_spec (pton : InetPton) (gai : Resolver) (ips : List AllowedIp) (t : PeerText) :
    ∃ res ips', initPeer pton gai ips t = some (res, ips')
      ∧ (∀ p < ips.length, ips'[p]? = ips[p]?) ∧ InitResult pton gai ips' t res := by
  unfold initPeer
  by_cases hkey : (wgKeyFromBase64 zeroKey t.key).1 = 0
  · rw [if_neg (by simpa using hkey), wguParseAllowedips_eq le_rfl]
    have hold :=
      @parseItems_getElem? pton ⟨ips, none, none⟩ (itemsOf t.allowedIps) _ le_rfl (by simp)
    cases hret : (parseItems pton (itemsOf t.allowedIps) ⟨ips, none, none⟩).1 with
    | error complaint =>
      refine ⟨.error (-EINVAL), _, by simp [hret], hold, .failed (by decide) ?_⟩
      rintro ⟨-, ⟨es, hes⟩, -⟩
      rw [parseItems_of_taken hes] at hret
      cases hret
    | ok u =>
      obtain ⟨es, hes⟩ := taken_of_parseItems hret
      obtain ⟨ep, hep⟩ := Option.isSome_iff_exists.mp
        (wguParseEndpoint_isSome gai zeroEndpoint t.endpoint)
      cases ep with
      | error complaint =>
        refine ⟨.error (-EINVAL), _, by simp [hret, hep], hold, .failed (by decide) ?_⟩
        rintro ⟨-, -, endpoint, hendpoint⟩
        rw [hep] at hendpoint
        cases hendpoint
      | ok endpoint =>
        refine ⟨.ok
          { flags :=
              WGPEER_HAS_PUBLIC_KEY ||| WGPEER_REPLACE_ALLOWEDIPS ||| WGPEER_REPLACE_ALLOWEDIPS
            publicKey := (wgKeyFromBase64 zeroKey t.key).2
            endpoint := endpoint
            firstAllowedip := (parseItems pton (itemsOf t.allowedIps) ⟨ips, none, none⟩).2.first },
          _, by simp [hret, hep], hold, .filled ⟨hkey, ⟨es, hes⟩, endpoint, hep⟩ ?_ rfl⟩
        have hempty : PeerIps ⟨ips, none, none⟩ [] := ⟨.nil, rfl, by simp⟩
        obtain ⟨new, hlist, hnew, -⟩ := hempty.linkAll hes.cidr_lt
        rw [parseItems_of_taken hes]
        exact ⟨by dsimp only; decide, Prod.ext hkey rfl, hep, new, es, hlist.path, hlist.valid, hes,
          hnew⟩
  · rw [if_pos hkey]
    exact ⟨_, _, rfl, fun _ _ => rfl, .failed hkey (fun h => hkey h.1)⟩

/-! ## The first loop -/

variable {gais : Nat → Resolver} {base i n : Nat} {cfg : EnclaveWgPeerConfig}
  {cfgs : List EnclaveWgPeerConfig} {h : PeerHeap}

theorem completes_skip {warning : String} (hcfg : peerText cfg = .error warning) :
    completes i (cfg :: cfgs) = completes (i + 1) cfgs := by
  rw [completes, hcfg]

theorem completes_take (hcfg : peerText cfg = .ok t) :
    completes i (cfg :: cfgs) = (i, t) :: completes (i + 1) cfgs := by
  rw [completes, hcfg]

/-- How the first loop ends: each complete configuration has its peer in the array, or one of them
has failed. -/
inductive ParseResult (pton : InetPton) (gais : Nat → Resolver) (base : Nat)
    (cs : List (Nat × PeerText)) (h : PeerHeap) : Except Int Unit → Prop where
  | failed {ret : Int} (hret : ret ≠ 0) (hc : ∃ c ∈ cs, ¬ Parses pton (gais c.1) c.2) :
      ParseResult pton gais base cs h (.error ret)
  | filled (hc : ∀ c ∈ cs, Parses pton (gais c.1) c.2
        ∧ Initialised pton (gais c.1) h.ips (h.peers (base + c.1)) c.2
        ∧ (h.peers (base + c.1)).nextPeer = none) :
      ParseResult pton gais base cs h (.ok ())

/-- **The first loop** changes no peer outside of the array. Induction on the configurations. -/
theorem parsePeers_spec (pton : InetPton) (gais : Nat → Resolver) (base i : Nat)
    (cfgs : List EnclaveWgPeerConfig) (h : PeerHeap) :
    ∃ ret h', parsePeers pton gais base i cfgs h = some (ret, h')
      ∧ (∀ q, q < base + i ∨ base + i + cfgs.length ≤ q → h'.peers q = h.peers q)
      ∧ (∀ p < h.ips.length, h'.ips[p]? = h.ips[p]?)
      ∧ ParseResult pton gais base (completes i cfgs) h' ret := by
  induction cfgs generalizing i h with
  | nil => exact ⟨_, _, rfl, fun _ _ => rfl, fun _ _ => rfl, .filled (by simp [completes])⟩
  | cons cfg cfgs ih =>
    cases hcfg : peerText cfg with
    | error warning =>
      rw [completes_skip hcfg]
      obtain ⟨ret, h', heq, hpeers, hips, hresult⟩ :=
        ih (i + 1) { h with warnings := h.warnings ++ [warning] }
      refine ⟨ret, h', by rw [parsePeers, hcfg]; exact heq, ?_, hips, hresult⟩
      intro q hq
      exact hpeers q (by rw [length_cons] at hq; omega)
    | ok t =>
      rw [completes_take hcfg]
      obtain ⟨res, ips', hinit, hext, hres⟩ := initPeer_spec pton (gais i) h.ips t
      cases hres with
      | @failed ret hret hnot =>
        refine ⟨.error ret, { h with ips := ips' }, ?_, fun _ _ => rfl, hext,
          .failed hret ⟨(i, t), by simp, hnot⟩⟩
        rw [parsePeers, hcfg]
        simp [hinit]
      | @filled peer hparses hinitialised hnext =>
        obtain ⟨ret, h', heq, hpeers, hips, hresult⟩ :=
          ih (i + 1) { h with peers := update h.peers (base + i) peer, ips := ips' }
        have hpeer : h'.peers (base + i) = peer :=
          (hpeers (base + i) (by omega)).trans (update_self ..)
        refine ⟨ret, h', ?_, ?_, ?_, ?_⟩
        · rw [parsePeers, hcfg]
          simp [hinit, heq]
        · intro q hq
          rw [length_cons] at hq
          exact (hpeers q (by omega)).trans (update_of_ne (by omega) ..)
        · intro p hp
          exact (hips p (lt_length_of_extends hext hp)).trans (hext p hp)
        · cases hresult with
          | failed hret hc =>
            obtain ⟨c, hmem, hnot⟩ := hc
            exact .failed hret ⟨c, mem_cons_of_mem _ hmem, hnot⟩
          | filled hc =>
            refine .filled (forall_mem_cons.mpr ⟨⟨hparses, ?_, ?_⟩, hc⟩)
            · rw [hpeer]
              exact hinitialised.mono hips
            · rw [hpeer]
              exact hnext

/-! ## The second loop -/

/-- The links of the device run through `l`, whose last peer is `last_peer`; behind it is what that
peer points to. -/
structure Reaches (dev : WgDevice) (peers : Nat → WgPeer) (l : List Nat) : Prop where
  path : Path (nextPeerAt peers) dev.firstPeer l (l.getLast?.bind (nextPeerAt peers))
  last : l ≠ [] → dev.lastPeer = l.getLast?
  nodup : l.Nodup

variable {dev : WgDevice} {peers : Nat → WgPeer} {l : List Nat} {setDevice : Bool}
  {set : Nat → Int}

theorem SameButNext.refl (peer : WgPeer) : SameButNext peer peer := ⟨rfl, rfl, rfl, rfl⟩

theorem SameButNext.trans {peer peer' peer'' : WgPeer} (h : SameButNext peer peer')
    (h' : SameButNext peer' peer'') : SameButNext peer peer'' :=
  ⟨h'.flags.trans h.flags, h'.publicKey.trans h.publicKey, h'.endpoint.trans h.endpoint,
    h'.firstAllowedip.trans h.firstAllowedip⟩

theorem Reaches.addPeer {new : Nat} {set : Int} (hl : Reaches dev peers l) (hnew : new ∉ l)
    (hset : setDevice = true → 0 ≤ set) :
    ∃ dev' peers', wguAddPeer setDevice set dev peers new = some (0, dev', peers')
      ∧ Reaches dev' peers' (l ++ [new]) ∧ (∀ q, SameButNext (peers q) (peers' q))
      ∧ ∀ q ∉ l, peers' q = peers q := by
  have hsucceeds : ¬ (setDevice = true ∧ set < 0) := fun h => absurd (hset h.1) (by omega)
  have hnodup : (l ++ [new]).Nodup := by
    rw [nodup_append]
    refine ⟨hl.nodup, by simp, fun a ha b hb => ?_⟩
    rw [mem_singleton.mp hb]
    exact ne_of_mem_of_not_mem ha hnew
  rcases eq_nil_or_concat' l with rfl | ⟨l, p, rfl⟩
  · have hfirst : dev.firstPeer = none := hl.path.eq_of_nil
    refine ⟨⟨some new, some new⟩, peers, ?_, ⟨.cons .nil, by simp, by simp⟩, fun q => .refl _,
      fun q _ => rfl⟩
    unfold wguAddPeer
    simp [hfirst, hsucceeds]
  · have hlast : dev.lastPeer = some p := by simpa using hl.last (by simp)
    obtain ⟨first, hfirst⟩ := Option.isSome_iff_exists.mp (hl.path.isSome_of_ne_nil (by simp))
    have hp : p ∉ l := fun hmem =>
      (nodup_append.mp hl.nodup).2.2 p hmem p (mem_singleton_self p) rfl
    refine ⟨{ dev with lastPeer := some new },
      update peers p { peers p with nextPeer := some new }, ?_, ⟨?_, by simp, hnodup⟩, ?_,
      ?_⟩
    · unfold wguAddPeer
      simp [hfirst, hlast, hsucceeds]
    · rw [getLast?_append_of_ne_nil _ (by simp)]
      refine hl.path.snoc (fun c hc => ?_) ?_
      · rw [nextPeerAt, update_of_ne (ne_of_mem_of_not_mem hc hp), nextPeerAt]
      · rw [nextPeerAt, update_self]
    · intro q
      rcases eq_or_ne q p with rfl | hq
      · rw [update_self]
        exact ⟨rfl, rfl, rfl, rfl⟩
      · rw [update_of_ne hq]
        exact .refl _
    · intro q hq
      refine update_of_ne ?_ ..
      rintro rfl
      exact hq (by simp)

/-- **The second loop** links the whole array at the end. -/
theorem Reaches.linkPeers (hl : Reaches dev peers l)
    (hfresh : ∀ q ∈ l, q < base + i ∨ base + i + n ≤ q) (hset : setDevice = true → ∀ j, 0 ≤ set j) :
    ∃ dev' peers', linkPeers setDevice set base n i dev peers = some (0, dev', peers')
      ∧ Reaches dev' peers' (l ++ List.range' (base + i) n)
      ∧ (∀ q, SameButNext (peers q) (peers' q))
      ∧ (l ++ List.range' (base + i) n).getLast?.bind (nextPeerAt peers')
        = (l ++ List.range' (base + i) n).getLast?.bind (nextPeerAt peers) := by
  induction n generalizing i dev peers l with
  | zero => exact ⟨dev, peers, rfl, by simpa using hl, fun q => .refl _, rfl⟩
  | succ n ih =>
    have hnew : base + i ∉ l := fun hmem => by
      rcases hfresh _ hmem with h | h <;> omega
    obtain ⟨dev₁, peers₁, hadd, hl₁, hsame₁, hkept₁⟩ := hl.addPeer hnew (fun h => hset h i)
    have hfresh₁ : ∀ q ∈ l ++ [base + i], q < base + (i + 1) ∨ base + (i + 1) + n ≤ q := by
      intro q hq
      rcases mem_append.mp hq with hq | hq
      · have := hfresh q hq
        omega
      · rw [mem_singleton.mp hq]
        omega
    obtain ⟨dev', peers', hlink, hl', hsame, hbehind⟩ := ih hl₁ hfresh₁
    have hlist : l ++ List.range' (base + i) (n + 1)
        = l ++ [base + i] ++ List.range' (base + (i + 1)) n := by
      rw [List.range'_succ, append_assoc]
      rfl
    refine ⟨dev', peers', ?_, ?_, fun q => (hsame₁ q).trans (hsame q), ?_⟩
    · rw [RktIo.Wg.linkPeers, hadd]
      simpa using hlink
    · rw [hlist]
      exact hl'
    · -- the last peer is one of the array, which the first link has not changed
      rw [hlist, hbehind, append_assoc, getLast?_append_of_ne_nil _ (by simp)]
      cases hq : ([base + i] ++ List.range' (base + (i + 1)) n).getLast? with
      | none => rfl
      | some q =>
        have hmem := mem_of_getLast? hq
        have hnot : q ∉ l := by
          intro hql
          have := hfresh q hql
          rw [singleton_append, mem_cons, mem_range'_1] at hmem
          omega
        rw [Option.bind_some, Option.bind_some, nextPeerAt, hkept₁ q hnot, nextPeerAt]

/-! ## Both loops -/

def Complete (cfg : EnclaveWgPeerConfig) : Prop := ∃ t, peerText cfg = .ok t

theorem completes_eq_range' (hall : ∀ cfg ∈ cfgs, Complete cfg) :
    (completes i cfgs).map (fun c => base + c.1) = List.range' (base + i) cfgs.length := by
  induction cfgs generalizing i with
  | nil => rfl
  | cons cfg cfgs ih =>
    obtain ⟨⟨t, ht⟩, hrest⟩ := forall_mem_cons.mp hall
    rw [completes_take ht, map_cons, ih hrest, length_cons, List.range'_succ]
    rfl

theorem length_completes_le : (completes i cfgs).length ≤ cfgs.length := by
  induction cfgs generalizing i with
  | nil => rfl
  | cons cfg cfgs ih =>
    have := @ih (i + 1)
    cases hcfg : peerText cfg with
    | error warning =>
      rw [completes_skip hcfg, length_cons]
      omega
    | ok t =>
      rw [completes_take hcfg, length_cons, length_cons]
      omega

theorem complete_of_length_le (h : cfgs.length ≤ (completes i cfgs).length) :
    ∀ cfg ∈ cfgs, Complete cfg := by
  induction cfgs generalizing i with
  | nil => simp
  | cons cfg cfgs ih =>
    cases hcfg : peerText cfg with
    | error warning =>
      have := @length_completes_le (i + 1) cfgs
      rw [completes_skip hcfg, length_cons] at h
      omega
    | ok t =>
      rw [completes_take hcfg, length_cons, length_cons] at h
      exact forall_mem_cons.mpr ⟨⟨t, hcfg⟩, @ih (i + 1) (by omega)⟩

theorem Initialised.of_sameButNext {peer' : WgPeer} (h : Initialised pton gai ips peer t)
    (hsame : SameButNext peer peer') : Initialised pton gai ips peer' t := by
  refine ⟨hsame.flags.trans h.flags, ?_, ?_, ?_⟩
  · rw [hsame.publicKey]
    exact h.publicKey
  · rw [hsame.endpoint]
    exact h.endpoint
  · rw [hsame.firstAllowedip]
    exact h.allowedIps

theorem PeerList.congr {peers' : Nat → WgPeer} (hl : PeerList dev peers l)
    (heq : ∀ q ∈ l, peers' q = peers q) : PeerList dev peers' l := by
  refine ⟨hl.path.congr (fun q hq => ?_), hl.last⟩
  rw [nextPeerAt, heq q hq, nextPeerAt]

theorem PeerList.behind (hl : PeerList dev peers l) :
    l.getLast?.bind (nextPeerAt peers) = none := by
  by_cases hnil : l = []
  · rw [hnil]
    rfl
  · exact hl.path.getLast?_bind hnil

theorem PeerList.reaches (hl : PeerList dev peers l) : Reaches dev peers l := by
  refine ⟨?_, hl.last, hl.path.nodup⟩
  rw [hl.behind]
  exact hl.path

theorem behind_of_null {new : List Nat} (hl : l.getLast?.bind (nextPeerAt peers) = none)
    (hnew : ∀ q ∈ new, (peers q).nextPeer = none) :
    (l ++ new).getLast?.bind (nextPeerAt peers) = none := by
  by_cases hnil : new = []
  · rw [hnil, append_nil]
    exact hl
  · rw [getLast?_append_of_ne_nil _ hnil, getLast?_eq_getLast_of_ne_nil hnil]
    exact hnew _ (getLast_mem hnil)

/-- **The device gets exactly the complete peers if and only if no configuration is incomplete, or
one of the complete ones cannot be parsed.** -/
theorem adds_complete_iff {env : WgEnv} (hl : PeerList dev h.peers l)
    (hfresh : ∀ q ∈ l, q < env.base ∨ env.base + cfgs.length ≤ q)
    (hset : setDevice = true → ∀ j, 0 ≤ env.set j) :
    AddsComplete env dev cfgs setDevice h l
      ↔ (∀ cfg ∈ cfgs, Complete cfg)
        ∨ ∃ c ∈ completes 0 cfgs, ¬ Parses env.pton (env.gai c.1) c.2 := by
  obtain ⟨ret, h₁, hparse, hpeers, -, hresult⟩ :=
    parsePeers_spec env.pton env.gai env.base 0 cfgs h
  have hkept : ∀ q ∈ l, h₁.peers q = h.peers q := fun q hq => hpeers q (by simpa using hfresh q hq)
  have hl₁ : PeerList dev h₁.peers l := hl.congr hkept
  cases hresult with
  | @failed ret hret hc =>
    refine iff_of_true ⟨ret, dev, h₁, ?_, fun h0 => absurd h0 hret, fun _ => ?_⟩ (Or.inr hc)
    · unfold wguAddPeers
      simp [hparse]
    · exact ⟨hret, rfl, hl₁, hkept⟩
  | filled hc =>
    obtain ⟨dev', peers', hlink, hreach, hsame, hbehind⟩ :=
      @Reaches.linkPeers env.base 0 cfgs.length dev h₁.peers l setDevice env.set hl₁.reaches
        (by simpa using hfresh) hset
    have hrun : wguAddPeers env dev cfgs setDevice h
        = some (0, dev', { h₁ with peers := peers' }) := by
      unfold wguAddPeers
      simp [hparse, hlink]
    rw [Nat.add_zero] at hreach hbehind
    constructor
    · -- the whole array is in the list, which is as long as there are complete configurations
      rintro ⟨ret, dev₂, h₂, hrun₂, hadded, -⟩
      rw [hrun, Option.some.injEq, Prod.mk.injEq, Prod.mk.injEq] at hrun₂
      obtain ⟨rfl, rfl, rfl⟩ := hrun₂
      obtain ⟨new, hlist, -, hforall⟩ := hadded rfl
      obtain ⟨rest, heq, -⟩ := hreach.path.isPrefix hlist.path
      refine Or.inl (@complete_of_length_le 0 _ ?_)
      have hlength := congrArg List.length heq
      have hnew := hforall.length_eq
      simp only [List.length_append, List.length_range'] at hlength
      omega
    · rintro (hall | ⟨c, hmem, hnot⟩)
      · have hblock := @completes_eq_range' env.base 0 cfgs hall
        rw [Nat.add_zero] at hblock
        have hnone : (l ++ List.range' env.base cfgs.length).getLast?.bind (nextPeerAt peers')
            = none := by
          rw [hbehind, ← hblock]
          refine behind_of_null hl₁.behind (List.forall_mem_map.mpr ?_)
          exact fun c hmem => (hc c hmem).2.2
        refine ⟨0, dev', _, hrun, fun _ => ⟨List.range' env.base cfgs.length, ⟨?_, hreach.last⟩,
          ?_, ?_⟩, ?_⟩
        · rw [← hnone]
          exact hreach.path
        · intro p hp
          rw [← hkept p hp]
          exact hsame p
        · rw [← hblock, List.forall₂_map_left_iff, List.forall₂_same]
          exact fun c hmem => (hc c hmem).2.1.of_sameButNext (hsame _)
        · rintro ⟨c, hmem, hnot⟩
          exact absurd (hc c hmem).1 hnot
      · exact absurd (hc c hmem).1 hnot

def resolvingEnv : WgEnv where
  pton := ⟨fun _ => some 10, fun _ => some 1⟩
  gai _ _ _ _ := .ok ⟨.inet, 16, List.replicate 16 0⟩
  set _ := 0
  base := 4

def usedHeap : PeerHeap := ⟨fun _ => { flags := 0xdeadbeef }, [], []⟩

theorem adds_complete_iff_one_peer :
    AddsComplete resolvingEnv ⟨none, none⟩
      [⟨some "AQIDAAAAAAAAAAAAAAAAAAAAAAAAAAAAAAAAAAAAAP8=".toList, some "10.0.0.1/32".toList,
        some "10.0.0.1:51820".toList⟩] true usedHeap [] :=
  (adds_complete_iff ⟨.nil, by simp⟩ (by simp) (fun _ _ => le_rfl)).mpr (Or.inl (by
    rw [List.forall_mem_singleton]
    exact ⟨_, rfl⟩))

/-- A configuration without anything is skipped in the first loop; the second one links what
`malloc` left in the array. -/
theorem skipped_peer_linked :
    wguAddPeers resolvingEnv ⟨none, none⟩ [{}] false usedHeap
        = some (0, ⟨some 4, some 4⟩, { usedHeap with
            warnings := ["Unable to add wireguard peer due to missing key.\n"] })
      ∧ ¬ AddsComplete resolvingEnv ⟨none, none⟩ [{}] false usedHeap [] := by
  have hrun : wguAddPeers resolvingEnv ⟨none, none⟩ [{}] false usedHeap
      = some (0, ⟨some 4, some 4⟩, { usedHeap with
          warnings := ["Unable to add wireguard peer due to missing key.\n"] }) := rfl
  refine ⟨hrun, ?_⟩
  rintro ⟨ret, dev', h', hrun', hadded, -⟩
  rw [hrun, Option.some.injEq, Prod.mk.injEq, Prod.mk.injEq] at hrun'
  obtain ⟨rfl, rfl, rfl⟩ := hrun'
  obtain ⟨new, hlist, -, hforall⟩ := hadded rfl
  -- no configuration is complete, so the list would have to be empty
  obtain rfl : new = [] := List.length_eq_zero_iff.mp hforall.length_eq
  have hfirst : some 4 = none := hlist.path.eq_of_nil
  cases hfirst

end RktIo.Wg
