import RktIo.Cmd.Patch
import RktIo.Cmd.Server

/-!
# What earlier requests leave behind

A request is parsed into the structure that earlier requests have been parsed into, and nothing
is taken back when a request is refused. The configuration of an accepted request is its own
exactly if, for every field, the request sets it or the structure still holds what a request that
does not set it ends up with (`run_isolated_iff`).
-/

namespace RktIo.Cmd

open CString Shared CallRun Patch

/-! ## The document as a patch -/

def IsObject (tokener : Tokener) (str : List Char) (members : List (String × Json)) : Prop :=
  (str.dropWhile isspace).headD (Char.ofNat 0) = '\x7b' ∧ tokener str = .ok members

def finish (config : Parsing AppConfig) : Int × Option ErrDesc × Parsing AppConfig :=
  match config.val.run with
  | none => (1, some (.literal "No executable path provided via 'run'.".toList), config)
  | some run => (0, none, { config with val := fixArgs run config.val })

variable {tokener : Tokener} {str : List Char} {members : List (String × Json)} {p : Patch}
  {s s' : Parsing AppConfig} {errDesc : Option ErrDesc} {config : AppConfig} {run : List Char}
  {stderr : List Message}

theorem parseFromStr_of_read
    (hread : parseJsonFromStr tokener parseSgxlklAppConfigEntry str none s = some (0, none, s')) :
    parseSgxlklAppConfigFromStr tokener str s = some (finish s') := by
  obtain ⟨⟨_ | run, cwd, argc, argv, envp, numDisks, disks, numPeers, peers⟩, stderr⟩ := s'
  · unfold parseSgxlklAppConfigFromStr
    rw [hread]
    rfl
  · unfold parseSgxlklAppConfigFromStr
    rw [hread]
    rfl

theorem parseFromStr_of_patch (hobj : IsObject tokener str members)
    (hdoc : docPatch members = some (0, p)) :
    parseSgxlklAppConfigFromStr tokener str s = some (finish (p.apply s)) := by
  apply parseFromStr_of_read
  obtain ⟨hbrace, htok⟩ := hobj
  unfold parseJsonFromStr
  rw [if_neg (not_not.mpr hbrace), htok]
  simp only [parseJson_eq_apply, hdoc]
  rfl

theorem patch_of_parseFromStr
    (h : parseSgxlklAppConfigFromStr tokener str s = some (0, errDesc, s')) :
    ∃ members p, IsObject tokener str members ∧ docPatch members = some (0, p) := by
  simp only [parseSgxlklAppConfigFromStr, Option.bind_eq_bind, Option.bind_eq_some_iff,
    Prod.exists] at h
  obtain ⟨res, err, parsed, hread, h⟩ := h
  obtain rfl : res = 0 := by
    by_contra hres
    rw [if_pos hres] at h
    exact hres (Prod.mk.inj (Option.some.inj h)).1
  unfold parseJsonFromStr at hread
  by_cases hbrace : (str.dropWhile isspace).headD (Char.ofNat 0) = '\x7b'
  · rw [if_neg (not_not.mpr hbrace)] at hread
    cases htok : tokener str with
    | error desc =>
      rw [htok] at hread
      cases hread
    | ok members =>
      rw [htok] at hread
      simp only [parseJson_eq_apply, Option.bind_eq_bind, Option.bind_eq_some_iff,
        Option.map_eq_some_iff, Prod.exists, applyTo] at hread
      obtain ⟨ret, s₁, ⟨ret', p, hdoc, heq⟩, hread⟩ := hread
      obtain ⟨rfl, -⟩ := Prod.mk.inj heq
      refine ⟨members, p, ⟨hbrace, htok⟩, ?_⟩
      split_ifs at hread with hret
      · cases hread
      · rw [hdoc, not_not.mp hret]
  · rw [if_pos hbrace] at hread
    cases hread

theorem IsObject.docMembers (hobj : IsObject tokener str members) :
    docMembers tokener str = members := by
  obtain ⟨hbrace, htok⟩ := hobj
  unfold Shared.docMembers
  rw [if_pos hbrace, htok]

/-! ## Defaults -/

theorem fixArgs_eq (run : List Char) (c : AppConfig) :
    fixArgs run c = { c with
      argc := if c.argv.isSome then c.argc else 1
      argv := some (setArgv0 run (c.argv.getD [.uninit, .null]))
      envp := some (c.envp.getD [.null]) } := by
  obtain ⟨crun, cwd, argc, argv, envp, numDisks, disks, numPeers, peers⟩ := c
  cases argv <;> cases envp <;> rfl

def DefaultArgs (c : AppConfig) : Prop :=
  c.argv = none ∨ c.argc = 1 ∧ ∃ slot, c.argv = some [slot, .null]

theorem defaultArgs_iff (run : List Char) (c : AppConfig) :
    ((if c.argv.isSome then c.argc else 1) = 1
        ∧ setArgv0 run (c.argv.getD [.uninit, .null]) = [.str run, .null])
      ↔ DefaultArgs c := by
  unfold DefaultArgs
  cases hargv : c.argv with
  | none => simp [setArgv0]
  | some slots =>
    cases slots with
    | nil | cons slot slots => simp [setArgv0]

/-! ## Isolation -/

/-- What the structure holds does not show if the fields are assigned: the executable and the
disks are among them, and each other field is, or has the value that it gets by default. -/
structure Covers (assigned : Field → Bool) (c : AppConfig) : Prop where
  run : assigned .run = true
  disks : assigned .disks = true
  cwd : assigned .cwd = true ∨ c.cwd = none
  args : assigned .args = true ∨ DefaultArgs c
  environment : assigned .environment = true ∨ c.envp = none ∨ c.envp = some [.null]
  peers : assigned .peers = true ∨ c.peers = none ∧ c.numPeers = 0

theorem args_eq_iff (p : Patch) (c : AppConfig) (run : List Char) :
    ((fixArgs run (p.applyVal c)).argc = (fixArgs run (p.applyVal {})).argc
        ∧ (fixArgs run (p.applyVal c)).argv = (fixArgs run (p.applyVal {})).argv)
      ↔ p.assigned .args = true ∨ DefaultArgs c := by
  rw [fixArgs_eq, fixArgs_eq]
  cases hargs : p.args with
  | some args => simp [assigned, applyVal, hargs]
  | none =>
    rw [← defaultArgs_iff run c]
    simp [assigned, applyVal, hargs, setArgv0]

theorem envp_eq_iff (p : Patch) (c : AppConfig) (run : List Char) :
    (fixArgs run (p.applyVal c)).envp = (fixArgs run (p.applyVal {})).envp
      ↔ p.assigned .environment = true ∨ c.envp = none ∨ c.envp = some [.null] := by
  rw [fixArgs_eq, fixArgs_eq]
  cases hpatch : p.envp with
  | some slots => simp [assigned, applyVal, hpatch]
  | none => cases henvp : c.envp <;> simp [assigned, applyVal, hpatch, henvp]

theorem fixArgs_eq_iff (hrun : p.run = some run) (hdisks : (p.applyVal config).disks.isSome = true) :
    fixArgs run (p.applyVal config) = fixArgs run (p.applyVal {}) ↔ Covers p.assigned config := by
  have hargs := args_eq_iff p config run
  have henvp := envp_eq_iff p config run
  have hcwd : p.cwd.or config.cwd = p.cwd ↔ p.assigned .cwd = true ∨ config.cwd = none := by
    cases hcwd : p.cwd <;> simp [assigned, hcwd]
  have hdisks' : p.disks.or config.disks = p.disks ↔ p.assigned .disks = true := by
    cases hpatch : p.disks with
    | some disks => simp [assigned, hpatch]
    | none =>
      simp only [applyVal, hpatch, Option.none_or, Option.isSome_iff_ne_none] at hdisks
      simp [assigned, hpatch, hdisks]
  have hpeers : (p.peers.or config.peers = p.peers
      ∧ (p.peers.map List.length).getD config.numPeers = (p.peers.map List.length).getD 0)
        ↔ p.assigned .peers = true ∨ config.peers = none ∧ config.numPeers = 0 := by
    cases hpeers : p.peers <;> simp [assigned, hpeers]
  rw [AppConfig.ext_iff]
  constructor
  · rintro ⟨-, hc, hargc, hargv, he, -, hd, hn, hp⟩
    exact
      { run := by simp [assigned, hrun]
        disks := hdisks'.mp (by simpa [fixArgs_eq, applyVal] using hd)
        cwd := hcwd.mp (by simpa [fixArgs_eq, applyVal] using hc)
        args := hargs.mp ⟨hargc, hargv⟩
        environment := henvp.mp he
        peers := hpeers.mp
          ⟨by simpa [fixArgs_eq, applyVal] using hp,
            by simpa [fixArgs_eq, applyVal] using hn⟩ }
  · intro hcovers
    have hd := hdisks'.mpr hcovers.disks
    have hc := hcwd.mpr hcovers.cwd
    obtain ⟨hp, hn⟩ := hpeers.mpr hcovers.peers
    obtain ⟨hargc, hargv⟩ := hargs.mpr hcovers.args
    refine ⟨?_, ?_, hargc, hargv, henvp.mpr hcovers.environment, ?_, ?_, ?_, ?_⟩
    · simp [fixArgs_eq, applyVal, hrun]
    · simpa [fixArgs_eq, applyVal] using hc
    · obtain ⟨disks, hpatch⟩ := Option.isSome_iff_exists.mp hcovers.disks
      simp [fixArgs_eq, applyVal, hpatch]
    · simpa [fixArgs_eq, applyVal] using hd
    · simpa [fixArgs_eq, applyVal] using hn
    · simpa [fixArgs_eq, applyVal] using hp

def parsedAlone (tokener : Tokener) (json : List Char) : Option AppConfig :=
  (parseSgxlklAppConfigFromStr tokener json ⟨{}, []⟩).map (fun r => r.2.2.val)

/-- **One accepted request.** If it names no executable, there is none in the zeroed structure. -/
theorem eq_parsedAlone_iff
    (hparse : parseSgxlklAppConfigFromStr tokener str ⟨config, stderr⟩ = some (0, errDesc, s'))
    (hdisks : s'.val.disks.isSome = true) :
    some s'.val = parsedAlone tokener str
      ↔ Covers (fun f => sets f (docMembers tokener str)) config := by
  obtain ⟨members, p, hobj, hdoc⟩ := patch_of_parseFromStr hparse
  have hsets : (fun f => sets f (docMembers tokener str)) = p.assigned := by
    funext f
    rw [hobj.docMembers, assigned_docPatch hdoc]
  rw [hsets, parsedAlone, parseFromStr_of_patch hobj hdoc]
  rw [parseFromStr_of_patch hobj hdoc] at hparse
  have hval : (p.apply ⟨config, stderr⟩).val = p.applyVal config := rfl
  have hzero : (p.apply ⟨{}, []⟩).val = p.applyVal {} := rfl
  cases hrun : (p.applyVal config).run with
  | none => simp [finish, hval, hrun] at hparse
  | some run =>
    obtain rfl : { p.apply ⟨config, stderr⟩ with val := fixArgs run (p.applyVal config) } = s' := by
      simpa [finish, hval, hrun] using (Prod.mk.inj (Prod.mk.inj (Option.some.inj hparse)).2).2
    cases hown : p.run with
    | none =>
      have hnone : (p.applyVal {}).run = none := by simp [applyVal, hown]
      constructor
      · intro heq
        have hrun' := congrArg (Option.map AppConfig.run) heq
        simp [finish, hzero, hnone, fixArgs_eq, hrun] at hrun'
      · intro hcovers
        simpa [assigned, hown] using hcovers.run
    | some own =>
      have hsome : (p.applyVal {}).run = some own := by simp [applyVal, hown]
      obtain rfl : own = run := by simpa [applyVal, hown] using hrun
      have hdisks' : (p.applyVal config).disks.isSome = true := by
        simpa [fixArgs_eq] using hdisks
      simp only [finish, hzero, hsome, Option.map_some, Option.some.injEq]
      exact fixArgs_eq_iff hown hdisks'

/-- **The configurations of accepted requests are their own exactly if every accepted request
covers what the requests before it have left.** -/
theorem run_isolated_iff (tokener : Tokener) (srv : CmdServer) (reqs : List RunRequest) :
    (∀ t req result t' json, Makes (runCall tokener) srv reqs t req →
        runCall tokener t req = some (some result, t') → result.err = .SUCCESS →
        req.jsonConfig = some json → t'.appConfig = parsedAlone tokener json)
      ↔ ∀ t req result t' json config, Makes (runCall tokener) srv reqs t req →
        runCall tokener t req = some (some result, t') → result.err = .SUCCESS →
        req.jsonConfig = some json → t.appConfig = some config →
        Covers (fun f => sets f (docMembers tokener json)) config := by
  constructor
  · intro hown t req result t' json config hmade hcall herr hjson hconf
    obtain ⟨json', config', errDesc, parsed, hjson', hconf', hparse, hdisks, ht'⟩ :=
      runCall_success hcall herr
    obtain rfl := Option.some.inj (hjson'.symm.trans hjson)
    obtain rfl := Option.some.inj (hconf'.symm.trans hconf)
    apply (eq_parsedAlone_iff hparse hdisks).mp
    rw [← ht']
    exact hown t req result t' json' hmade hcall herr hjson
  · intro hcovers t req result t' json hmade hcall herr hjson
    obtain ⟨json', config, errDesc, parsed, hjson', hconf, hparse, hdisks, ht'⟩ :=
      runCall_success hcall herr
    obtain rfl := Option.some.inj (hjson'.symm.trans hjson)
    rw [ht']
    exact (eq_parsedAlone_iff hparse hdisks).mpr
      (hcovers t req result t' json' config hmade hcall herr hjson hconf)

def refusedJson : String := "\x7b\"cwd\":\"/tmp\",\"user\":1\x7d"
def goodJson : String := "\x7b\"run\":\"/a\",\"disk_config\":[]\x7d"

def tokenTwo : Tokener := fun str =>
  if str = refusedJson.toList then .ok [("cwd", .string "/tmp".toList), ("user", .int 1)]
  else .ok [("run", .string "/a".toList), ("disk_config", .array [])]

/-- The first request is refused and changes the configuration, and the second one runs in the
directory of the first. -/
theorem refused_request_leaks :
    (∃ result srv₁ srv₂, runCall tokenTwo waitingServer (requestWith refusedJson)
          = some (some result, srv₁)
        ∧ result.err = .PARSE
        ∧ runCall tokenTwo srv₁ (requestWith goodJson) = some (some ⟨.SUCCESS, none⟩, srv₂)
        ∧ srv₁.appConfig = some { cwd := some "/tmp".toList }
        ∧ srv₂.appConfig.bind AppConfig.cwd = some "/tmp".toList
        ∧ (parsedAlone tokenTwo goodJson.toList).bind AppConfig.cwd = none)
      ∧ ¬ ∀ t req result t' json,
        Makes (runCall tokenTwo) waitingServer [requestWith refusedJson, requestWith goodJson] t req →
        runCall tokenTwo t req = some (some result, t') → result.err = .SUCCESS →
        req.jsonConfig = some json → t'.appConfig = parsedAlone tokenTwo json := by
  refine ⟨⟨_, _, _, rfl, rfl, rfl, rfl, rfl, rfl⟩, ?_⟩
  intro hown
  have heq := hown _ _ _ _ goodJson.toList
    (Or.inr ⟨_, _, rfl, Or.inl ⟨rfl, rfl⟩⟩) rfl rfl rfl
  have hcwd := congrArg (fun c => c.bind AppConfig.cwd) heq
  cases hcwd

end RktIo.Cmd
