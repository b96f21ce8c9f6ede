import RktIo.Run.ItemLists

/-!
# Well-formed lists of disks and of peers

A list of items that is joined with commas is taken apart by `register_hds` and `set_wg` into the
same items, although commas may also be in their first two fields. The strings of a peer stay in the
buffer, and later rounds do not write to them.

* **`hdsLoop_joined`**, **`wgLoop_joined`** — the loops, by induction on the list;

`register_hd` refuses a mount point of more than 255 characters, and the host may refuse a disk; the
program then ends.
-/

namespace RktIo.Run

open CString CBuffer List

/-! ## Joined lists -/

structure ListItem.WellFormed (item : ListItem) : Prop where
  first_colon : ':' ∉ item.first
  second_colon : ':' ∉ item.second
  third_comma : ',' ∉ item.third
  ne_nil : item.first ≠ []
  start : item.first.head?.any isSep = false
  nul : nul ∉ item.first ++ item.second ++ item.third

instance (item : ListItem) : Decidable item.WellFormed :=
  decidable_of_iff (':' ∉ item.first ∧ ':' ∉ item.second ∧ ',' ∉ item.third ∧ item.first ≠ []
      ∧ item.first.head?.any isSep = false ∧ CBuffer.nul ∉ item.first ++ item.second ++ item.third)
    ⟨fun ⟨h₁, h₂, h₃, h₄, h₅, h₆⟩ => ⟨h₁, h₂, h₃, h₄, h₅, h₆⟩,
      fun ⟨h₁, h₂, h₃, h₄, h₅, h₆⟩ => ⟨h₁, h₂, h₃, h₄, h₅, h₆⟩⟩

def ListItem.text (item : ListItem) : List Char :=
  item.first ++ ':' :: (item.second ++ ':' :: item.third)

def joined (items : List ListItem) : List Char := [','].intercalate (items.map ListItem.text)

variable {item : ListItem} {items : List ListItem}

theorem joined_cons_cons (item item' : ListItem) (items : List ListItem) :
    joined (item :: item' :: items)
      = item.first ++ ':' :: (item.second ++ ':' ::
          (item.third ++ ',' :: joined (item' :: items))) := by
  simp [joined, ListItem.text, intercalate_cons_cons]

theorem dropWhile_isSep_joined (h : item.WellFormed) :
    (joined (item :: items)).dropWhile isSep = joined (item :: items) := by
  obtain ⟨c, cs, hfirst⟩ := exists_cons_of_ne_nil h.ne_nil
  have hc : isSep c = false := by simpa [hfirst] using h.start
  have hstart : ∃ t, joined (item :: items) = c :: t := by
    cases items with
    | nil => exact ⟨_, by rw [joined, map_singleton, intercalate_singleton, ListItem.text,
        hfirst, cons_append]⟩
    | cons item' items => exact ⟨_, by rw [joined_cons_cons, hfirst, cons_append]⟩
  obtain ⟨t, ht⟩ := hstart
  rw [ht, dropWhile_cons_of_neg (by simp [hc])]

theorem nextItem_joined (h : item.WellFormed) (hitems : ∀ i ∈ items, i.WellFormed) :
    nextItem (joined (item :: items)) = some (item, joined items) := by
  cases items with
  | nil =>
    have htext : joined [item] = item.first ++ ':' :: (item.second ++ ':' :: item.third) := by
      rw [joined, map_singleton, intercalate_singleton, ListItem.text]
    rw [htext, nextItem_two_colons h.first_colon h.second_colon, strsep_of_not_mem h.third_comma]
    rfl
  | cons item' items =>
    rw [joined_cons_cons, nextItem_two_colons h.first_colon h.second_colon,
      strsep_append h.third_comma]
    dsimp only [Option.getD_some]
    rw [dropWhile_isSep_joined (hitems item' (by simp))]

theorem nul_not_mem_joined (hitems : ∀ i ∈ items, i.WellFormed) : nul ∉ joined items := by
  induction items with
  | nil => simp [joined]
  | cons item items ih =>
    have hnul := (hitems item (by simp)).nul
    have hcolon : nul ≠ ':' := by decide
    have hcomma : nul ≠ ',' := by decide
    cases items with
    | nil => simp_all [joined, ListItem.text]
    | cons item' items =>
      have hrest := ih (fun i hi => hitems i (mem_cons_of_mem item hi))
      rw [joined_cons_cons]
      simp_all

/-! ## Disks -/

def Disk.spec (d : Disk) : List Char × List Char × Bool := (d.path, d.mnt, d.ro)

def ListItem.disk (item : ListItem) : List Char × List Char × Bool :=
  (item.first, item.second, item.ro)

variable {host : DiskHost}

theorem hdsLoop_joined (hitems : ∀ i ∈ items, i.WellFormed)
    (hhost : ∀ i ∈ items, ∀ k, ¬ hdStops host k i) (l : List Char) (disks : List Disk) :
    ∃ rounds t,
      scanLoop (hdsRound host) rounds ⟨l ++ (joined items ++ [nul]), l.length, disks⟩
        = some (.ok (), t)
      ∧ t.items.map Disk.spec = disks.map Disk.spec ++ items.map ListItem.disk := by
  induction items generalizing l disks with
  | nil => exact ⟨1, _, scanLoop_nil _ 0 l disks, by simp⟩
  | cons item items ih =>
    rw [forall_mem_cons] at hitems hhost
    have hnul : nul ∉ joined (item :: items) :=
      nul_not_mem_joined (forall_mem_cons.mpr hitems)
    have hnext := nextItem_joined hitems.1 hitems.2
    obtain ⟨l', hround⟩ := @hdsRound_item _ l _ item host disks hnul hnext
    obtain ⟨file, -, hregister⟩ := registerHd_eq_some (hhost.1 disks.length)
    rw [hregister] at hround
    obtain ⟨rounds, t, hloop, hspec⟩ := ih hitems.2 hhost.2 l' _
    refine ⟨rounds + 1, t, ?_, ?_⟩
    · rw [scanLoop_round (ne_nil_of_nextItem hnext) hnul, hround]
      exact hloop
    · rw [hspec]
      simp [Disk.spec, ListItem.disk]

/-! ## Peers -/

def peerAt (buf : List Char) (p : PeerPtrs) : ListItem :=
  ⟨strAt buf p.key, strAt buf p.allowedIps, strAt buf p.endpoint⟩

theorem wgLoop_joined (hitems : ∀ i ∈ items, i.WellFormed) (l : List Char) (peers : List PeerPtrs) :
    ∃ rounds t new x,
      scanLoop wgRound rounds ⟨l ++ (joined items ++ [nul]), l.length, peers⟩ = some (.ok (), t)
      ∧ t.items = peers ++ new ∧ new.map (peerAt t.buf) = items
      ∧ t.buf = l ++ x ∧ (joined items = [] → x = [nul]) := by
  induction items generalizing l peers with
  | nil => exact ⟨1, _, [], [nul], scanLoop_nil _ 0 l peers, by simp, rfl, rfl, fun _ => rfl⟩
  | cons item items ih =>
    rw [forall_mem_cons] at hitems
    have hnul : nul ∉ joined (item :: items) :=
      nul_not_mem_joined (forall_mem_cons.mpr hitems)
    have hnext := nextItem_joined hitems.1 hitems.2
    obtain ⟨l', hround, hfields⟩ := @wgRound_item _ l _ item peers hnul hnext
    obtain ⟨rounds, t, new, x, hloop, hptrs, hnew, hbuf, hx⟩ :=
      ih hitems.2 l' (peers ++ [cutPtrs l item])
    obtain ⟨y, hy⟩ : ∃ y, t.buf = cutFields l item ++ (item.third ++ nul :: y) := by
      rcases hfields with ⟨hrest, rfl⟩ | ⟨seps, rfl⟩
      · exact ⟨[], by rw [hbuf, hx hrest, append_assoc]⟩
      · exact ⟨seps ++ x, by rw [hbuf]; simp⟩
    have hnul_item := hitems.1.nul
    rw [mem_append, mem_append, not_or, not_or] at hnul_item
    have hpeer : peerAt t.buf (cutPtrs l item) = item := by
      rw [hy, peerAt, cutPtrs, strAt_first hnul_item.1.1, strAt_second hnul_item.1.2,
        strAt_append hnul_item.2]
    refine ⟨rounds + 1, t, cutPtrs l item :: new,
      item.first ++ nul :: (item.second ++ nul :: (item.third ++ nul :: y)), ?_, by simp [hptrs],
      by rw [map_cons, hpeer, hnew], by rw [hy, cutFields]; simp, ?_⟩
    · rw [scanLoop_round (ne_nil_of_nextItem hnext) hnul, hround]
      exact hloop
    · exact fun hnil => absurd hnil (ne_nil_of_nextItem hnext)

/-! ## Both functions -/

def DisksRoundTrip (host : DiskHost) (rootHd : List Char) (rootRo : Bool) (disks : List ListItem) :
    Prop :=
  ∃ rounds t, registerHds host rounds rootHd rootRo (joined disks) = some (.ok (), t)
    ∧ t.items.map Disk.spec = (rootHd, ['/'], rootRo) :: disks.map ListItem.disk

def PeersRoundTrip (opts : WgOptions) (peers : List ListItem) : Prop :=
  ∃ rounds conf, setWg rounds opts (joined peers) = some (.ok (), some conf)
    ∧ conf.peers.items.map (peerAt conf.peers.buf) = peers

/-- **Well-formed lists of disks and of peers round-trip**: disks that `register_hd` and the host do
not refuse, and peers for a valid address. -/
theorem item_lists_round_trip {rootHd : List Char} {rootRo : Bool} {opts : WgOptions}
    {disks peers : List ListItem} (hdisks : ∀ d ∈ disks, d.WellFormed)
    (hroot : host 0 rootHd rootRo ≠ none)
    (hmnt : ∀ d ∈ disks, d.second.length ≤ SGXLKL_DISK_MNT_MAX_PATH_LEN)
    (hhost : ∀ d ∈ disks, ∀ k, host k d.first d.ro ≠ none)
    (hpeers : ∀ p ∈ peers, p.WellFormed) (hip : opts.ip ≠ none) :
    DisksRoundTrip host rootHd rootRo disks ∧ PeersRoundTrip opts peers := by
  constructor
  · obtain ⟨file, hfile⟩ := Option.ne_none_iff_exists'.mp hroot
    have hregister : registerHd host [] rootHd ['/'] rootRo
        = some [⟨rootHd, ['/'], rootRo, file⟩] := registerHd_root hfile
    have hstops : ∀ d ∈ disks, ∀ k, ¬ hdStops host k d := by
      rintro d hd k (h | h)
      · exact absurd (hmnt d hd) (by omega)
      · exact hhost d hd k h
    obtain ⟨rounds, t, hloop, hspec⟩ :=
      hdsLoop_joined hdisks hstops [] [⟨rootHd, ['/'], rootRo, file⟩]
    refine ⟨rounds, t, ?_, hspec⟩
    rw [registerHds, hregister]
    exact hloop
  · obtain ⟨ip, hip⟩ := Option.ne_none_iff_exists'.mp hip
    cases peers with
    | nil => exact ⟨0, _, setWg_nil hip 0, rfl⟩
    | cons peer peers =>
      have hvalue : joined (peer :: peers) ≠ [] :=
        ne_nil_of_nextItem (nextItem_joined (hpeers peer (by simp))
          (fun p hp => hpeers p (List.mem_cons_of_mem peer hp)))
      obtain ⟨rounds, t, new, x, hloop, hptrs, hnew, -⟩ := wgLoop_joined hpeers [] []
      refine ⟨rounds, wgConfig ip opts t, ?_, ?_⟩
      · rw [setWg_eq hip hvalue, Option.map_eq_some_iff]
        exact ⟨(.ok (), t), hloop, rfl⟩
      · rw [wgConfig, hptrs]
        exact hnew

def twoDisks : List ListItem :=
  [⟨"a,b.img".toList, "/a".toList, "0".toList⟩, ⟨"c.img".toList, "/c".toList, "1x".toList⟩]

def twoPeers : List ListItem :=
  [⟨"key".toList, "10.0.0.1/32,10.0.0.2/32".toList, "host:1".toList⟩,
    ⟨"other".toList, "".toList, "".toList⟩]

theorem item_lists_round_trip_two :
    DisksRoundTrip openingHost "root.img".toList true twoDisks
      ∧ PeersRoundTrip wgOptions twoPeers :=
  item_lists_round_trip (by decide) (by simp [openingHost]) (by decide) (by simp [openingHost])
    (by decide) (by decide)

def longMount : ListItem := ⟨"disk".toList, List.replicate 256 'm', "0".toList⟩

theorem longMount_wellFormed : longMount.WellFormed := by
  refine ⟨by decide, ?_, by decide, by decide, by decide, ?_⟩
  · exact fun h => absurd (eq_of_mem_replicate h) (by decide)
  · intro h
    rcases mem_append.mp h with h | h
    · rcases mem_append.mp h with h | h
      · exact absurd h (by decide)
      · exact absurd (eq_of_mem_replicate h) (by decide)
    · exact absurd h (by decide)

/-- `register_hd` refuses the disk, and the program ends. -/
theorem long_mount_refused :
    longMount.WellFormed ∧ ¬ DisksRoundTrip openingHost "root".toList false [longMount] := by
  have hwf := longMount_wellFormed
  refine ⟨hwf, ?_⟩
  rintro ⟨rounds, t, hrun, -⟩
  have hnext : nextItem (joined [longMount]) = some (longMount, joined []) :=
    nextItem_joined hwf (by simp)
  have hnul : nul ∉ joined [longMount] := nul_not_mem_joined (by simpa using hwf)
  have hstops : hdStops openingHost 1 longMount := Or.inl (by
    rw [longMount, List.length_replicate]
    decide)
  rw [registerHds, registerHd_root rfl] at hrun
  cases rounds with
  | zero => cases hrun
  | succ rounds =>
    obtain ⟨l', hround⟩ := @hdsRound_item _ [] _ longMount openingHost
      [⟨"root".toList, ['/'], false, ⟨0, 0, false⟩⟩] hnul hnext
    rw [registerHd_eq_none hstops] at hround
    have hloop := @scanLoop_round _ _ (hdsRound openingHost) (ne_nil_of_nextItem hnext) hnul rounds
      [] [⟨"root".toList, ['/'], false, ⟨0, 0, false⟩⟩]
    rw [hround] at hloop
    have heq := hrun.symm.trans hloop
    cases heq

end RktIo.Run
