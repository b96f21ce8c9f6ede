import RktIo.Cmd.AppConfig
import RktIo.Lib.CallRun

/-!
# Run requests (`sgx/enclave_cmd.c`)

A command server answers requests one after the other. A run request is parsed into the
structure that `app_config` points to, and `run_cv` is signalled when it is accepted.

The server is meant to accept one run request, and to be closed by a null `app_config`. But
`cmd__run` clears its local copy of the pointer, so the server stays open
(`accepted_once_iff`).
-/

namespace RktIo.Cmd

open CString Shared CallRun

/-! ## The server -/

inductive Error where
  | SUCCESS | INTERNAL | NOT_PERMITTED | APP_RUNNING | PARSE
  deriving Repr, DecidableEq

structure RunResult where
  err : Error
  errMsg : Option (List Char) := none
  deriving Repr, DecidableEq

def ERR_MSG_ATTEST_ONLY : List Char := "This is an attest-only endpoint".toList

/-- `cmd_server_config` as far as run requests use it. `runMtxHeld` is set if `cmd__run` has left
`run_mtx` locked; `signals` counts the signals to `run_cv`. -/
structure CmdServer where
  attestOnly : Bool
  appConfig : Option AppConfig
  runMtxHeld : Bool := false
  signals : Nat := 0
  stderr : List Message := []
  deriving Repr, DecidableEq

structure RunRequest where
  jsonConfig : Option (List Char)
  lockRet : Int := 0
  signalRet : Int := 0
  strerror : List Char := []
  deriving Repr, DecidableEq

/-- A request that is answered: the argument of `closure`, and the server when `cmd__run`
returns. -/
structure Handled where
  result : Option RunResult
  srv : Option CmdServer
  deriving Repr, DecidableEq

def freeErrDesc (srv : CmdServer) : Option ErrDesc → Option CmdServer
  | some (.literal _) => none
  | _ => some srv

/-- The part of `cmd__run` that wakes up the thread that waits for the request. A failed signal
leaves the mutex locked, and the next attempt to lock it is not granted. -/
def signalRun (srv : CmdServer) (req : RunRequest) : Option Handled :=
  if req.lockRet ≠ 0 then some ⟨some ⟨.INTERNAL, some req.strerror⟩, some srv⟩
  else if srv.runMtxHeld then none
  else if req.signalRet ≠ 0 then
    some ⟨some ⟨.INTERNAL, some req.strerror⟩, some { srv with runMtxHeld := true }⟩
  else some ⟨some ⟨.SUCCESS, none⟩, some { srv with signals := srv.signals + 1 }⟩

def cmdRun (tokener : Tokener) (srv : CmdServer) (req : RunRequest) : Option Handled :=
  if srv.attestOnly then some ⟨some ⟨.NOT_PERMITTED, some ERR_MSG_ATTEST_ONLY⟩, some srv⟩
  else
    match req.jsonConfig, srv.appConfig with
    | none, _ => some ⟨none, some srv⟩
    | some _, none => some ⟨some ⟨.APP_RUNNING, none⟩, some srv⟩
    | some json, some appConfig => do
      let (ret, errDesc, parsed) ←
        parseSgxlklAppConfigFromStr tokener json ⟨appConfig, srv.stderr⟩
      let srv := { srv with appConfig := some parsed.val, stderr := parsed.stderr }
      if ret ≠ 0 then
        return ⟨some ⟨.PARSE, errDesc.map ErrDesc.text⟩, freeErrDesc srv errDesc⟩
      else if parsed.val.disks.isNone then
        return ⟨some ⟨.PARSE, some "Missing disk configuration".toList⟩, some srv⟩
      -- `app_config = NULL` is an assignment to the local variable
      else signalRun srv req

def runCall (tokener : Tokener) (srv : CmdServer) (req : RunRequest) :
    Option (Option RunResult × CmdServer) := do
  let handled ← cmdRun tokener srv req
  let srv ← handled.srv
  return (handled.result, srv)

def AnsweredWith (tokener : Tokener) (srv : CmdServer) (req : RunRequest) (err : Error) : Prop :=
  ∃ handled result, cmdRun tokener srv req = some handled ∧ handled.result = some result
    ∧ result.err = err

variable {tokener : Tokener} {srv srv' : CmdServer} {req : RunRequest} {result : Option RunResult}

/-! ## What a request does -/

inductive Outcome (tokener : Tokener) (srv : CmdServer) (req : RunRequest) : Handled → Prop
  | notPermitted (hattest : srv.attestOnly = true) :
    Outcome tokener srv req ⟨some ⟨.NOT_PERMITTED, some ERR_MSG_ATTEST_ONLY⟩, some srv⟩
  | noJson (hattest : srv.attestOnly = false) (hjson : req.jsonConfig = none) :
    Outcome tokener srv req ⟨none, some srv⟩
  | closed (hattest : srv.attestOnly = false) (hjson : req.jsonConfig.isSome = true)
      (hconf : srv.appConfig = none) :
    Outcome tokener srv req ⟨some ⟨.APP_RUNNING, none⟩, some srv⟩
  | refused {json : List Char} {appConfig : AppConfig} {result : RunResult}
      {srv' : Option CmdServer} (hattest : srv.attestOnly = false)
      (hjson : req.jsonConfig = some json) (hconf : srv.appConfig = some appConfig)
      (herr : result.err = .PARSE ∨ result.err = .INTERNAL) :
    Outcome tokener srv req ⟨some result, srv'⟩
  | accepted {json : List Char} {appConfig : AppConfig} {errDesc : Option ErrDesc}
      {parsed : Parsing AppConfig} (hattest : srv.attestOnly = false)
      (hjson : req.jsonConfig = some json) (hconf : srv.appConfig = some appConfig)
      (hparse : parseSgxlklAppConfigFromStr tokener json ⟨appConfig, srv.stderr⟩
        = some (0, errDesc, parsed))
      (hdisks : parsed.val.disks.isSome = true) :
    Outcome tokener srv req ⟨some ⟨.SUCCESS, none⟩,
      some { srv with
        appConfig := some parsed.val, stderr := parsed.stderr, signals := srv.signals + 1 }⟩

theorem signalRun_cases {handled : Handled} (h : signalRun srv req = some handled) :
    (∃ srv', handled = ⟨some ⟨.INTERNAL, some req.strerror⟩, some srv'⟩)
      ∨ handled = ⟨some ⟨.SUCCESS, none⟩, some { srv with signals := srv.signals + 1 }⟩ := by
  unfold signalRun at h
  split_ifs at h with hlock hheld hsignal
  · exact Or.inl ⟨_, (Option.some.inj h).symm⟩
  · exact Or.inl ⟨_, (Option.some.inj h).symm⟩
  · exact Or.inr (Option.some.inj h).symm

theorem cmdRun_outcome {handled : Handled} (h : cmdRun tokener srv req = some handled) :
    Outcome tokener srv req handled := by
  unfold cmdRun at h
  split_ifs at h with hattest
  · obtain rfl := Option.some.inj h
    exact .notPermitted hattest
  · have hattest := Bool.eq_false_iff.mpr hattest
    cases hjson : req.jsonConfig with
    | none =>
      rw [hjson] at h
      obtain rfl := Option.some.inj h
      exact .noJson hattest hjson
    | some json =>
      cases hconf : srv.appConfig with
      | none =>
        rw [hjson, hconf] at h
        obtain rfl := Option.some.inj h
        exact .closed hattest (by rw [hjson]; rfl) hconf
      | some appConfig =>
        simp only [hjson, hconf, Option.bind_eq_bind, Option.bind_eq_some_iff, Prod.exists] at h
        obtain ⟨ret, errDesc, parsed, hparse, h⟩ := h
        split_ifs at h with hret hdisks
        · obtain rfl := Option.some.inj h
          exact .refused hattest hjson hconf (Or.inl rfl)
        · obtain rfl := Option.some.inj h
          exact .refused hattest hjson hconf (Or.inl rfl)
        · obtain rfl : ret = 0 := not_not.mp hret
          have hdisks : parsed.val.disks.isSome = true := by
            simpa [Option.isSome_iff_ne_none] using hdisks
          rcases signalRun_cases h with ⟨srv', rfl⟩ | rfl
          · exact .refused hattest hjson hconf (Or.inr rfl)
          · exact .accepted hattest hjson hconf hparse hdisks

theorem runCall_success {result : RunResult}
    (h : runCall tokener srv req = some (some result, srv')) (herr : result.err = .SUCCESS) :
    ∃ json appConfig errDesc parsed, req.jsonConfig = some json ∧ srv.appConfig = some appConfig
      ∧ parseSgxlklAppConfigFromStr tokener json ⟨appConfig, srv.stderr⟩
        = some (0, errDesc, parsed)
      ∧ parsed.val.disks.isSome = true ∧ srv'.appConfig = some parsed.val := by
  simp only [runCall, Option.bind_eq_bind, Option.bind_eq_some_iff] at h
  obtain ⟨handled, hrun, s, hs, h⟩ := h
  obtain ⟨hresult, rfl⟩ := Prod.mk.inj (Option.some.inj h)
  cases cmdRun_outcome hrun with
  | notPermitted hattest =>
    obtain rfl := Option.some.inj hresult
    cases herr
  | noJson hattest hjson => cases hresult
  | closed hattest hjson hconf =>
    obtain rfl := Option.some.inj hresult
    cases herr
  | refused hattest hjson hconf hrefused =>
    obtain rfl := Option.some.inj hresult
    rcases hrefused with hparse | hinternal
    · rw [hparse] at herr
      cases herr
    · rw [hinternal] at herr
      cases herr
  | accepted hattest hjson hconf hparse hdisks =>
    obtain rfl := Option.some.inj hs
    exact ⟨_, _, _, _, hjson, hconf, hparse, hdisks, rfl⟩

/-- **A server that has a structure to parse into never says that the application is running.** -/
theorem not_appRunning {appConfig : AppConfig} (hconf : srv.appConfig = some appConfig) :
    ¬ AnsweredWith tokener srv req .APP_RUNNING := by
  rintro ⟨handled, result, hrun, hresult, herr⟩
  cases cmdRun_outcome hrun with
  | notPermitted hattest =>
    obtain rfl := Option.some.inj hresult
    cases herr
  | noJson hattest hjson => cases hresult
  | closed hattest hjson hnone =>
    rw [hnone] at hconf
    cases hconf
  | refused hattest hjson hconf hrefused =>
    obtain rfl := Option.some.inj hresult
    rcases hrefused with hparse | hinternal
    · rw [hparse] at herr
      cases herr
    · rw [hinternal] at herr
      cases herr
  | accepted hattest hjson hconf hparse hdisks =>
    obtain rfl := Option.some.inj hresult
    cases herr

theorem cmdRun_noJson (hjson : req.jsonConfig = none) :
    cmdRun tokener srv req
      = some ⟨if srv.attestOnly then some ⟨.NOT_PERMITTED, some ERR_MSG_ATTEST_ONLY⟩ else none,
          some srv⟩ := by
  unfold cmdRun
  rw [hjson]
  split_ifs <;> rfl

theorem not_success_of_noJson (hjson : req.jsonConfig = none) :
    ¬ AnsweredWith tokener srv req .SUCCESS := by
  rintro ⟨handled, result, hrun, hresult, herr⟩
  rw [cmdRun_noJson hjson] at hrun
  obtain rfl := Option.some.inj hrun
  split_ifs at hresult with hattest
  obtain rfl := Option.some.inj hresult
  cases herr

/-! ## One run request -/

/-- The server is closed for the requests: those with a document are told that the application is
running, none is accepted, and neither the configuration nor the number of signals changes. -/
def ClosedFor (tokener : Tokener) (srv : CmdServer) (reqs : List RunRequest) : Prop :=
  (∀ t req, Makes (runCall tokener) srv reqs t req →
      (req.jsonConfig.isSome = true → AnsweredWith tokener t req .APP_RUNNING)
        ∧ ¬ AnsweredWith tokener t req .SUCCESS)
    ∧ ∀ t, Visits (runCall tokener) srv reqs t →
      t.appConfig = srv.appConfig ∧ t.signals = srv.signals

theorem closedFor_iff {appConfig : AppConfig} (hconf : srv.appConfig = some appConfig)
    (reqs : List RunRequest) :
    ClosedFor tokener srv reqs
      ↔ ∀ t req, Makes (runCall tokener) srv reqs t req → req.jsonConfig = none := by
  constructor
  · rintro ⟨hanswers, hstates⟩ t req hmade
    by_contra hjson
    have hrunning := (hanswers t req hmade).1 (Option.isSome_iff_ne_none.mpr hjson)
    exact not_appRunning ((hstates t hmade.visits).1.trans hconf) hrunning
  · intro hnone
    -- without a document, a request leaves the server as it is
    have hstates : ∀ t, Visits (runCall tokener) srv reqs t → t = srv := by
      intro t hvisit
      refine @visits_of_not_bad _ _ _ _ srv t reqs (fun t => t = srv)
        (fun _ req => req.jsonConfig ≠ none) rfl ?_
        (fun t req hmade => not_not.mpr (hnone t req hmade)) hvisit
      rintro t req r t' - rfl hjson hcall
      rw [runCall, cmdRun_noJson (not_not.mp hjson)] at hcall
      exact (Prod.mk.inj (Option.some.inj hcall)).2.symm
    refine ⟨?_, ?_⟩
    · intro t req hmade
      have hjson := hnone t req hmade
      refine ⟨?_, not_success_of_noJson hjson⟩
      rw [hjson]
      simp
    · intro t hvisit
      rw [hstates t hvisit]
      exact ⟨rfl, rfl⟩

def Accepts (tokener : Tokener) (srv : CmdServer) (before : List RunRequest) (req : RunRequest)
    (srv' : CmdServer) : Prop :=
  ∃ t result, Ends (runCall tokener) srv before t
    ∧ runCall tokener t req = some (some result, srv') ∧ result.err = .SUCCESS

/-- **After an accepted request the server is closed exactly if no later request has a
document.** -/
theorem accepted_once_iff (tokener : Tokener) (srv : CmdServer) (reqs : List RunRequest) :
    (∀ before req later srv', reqs = before ++ req :: later →
        Accepts tokener srv before req srv' → ClosedFor tokener srv' later)
      ↔ ∀ before req later srv', reqs = before ++ req :: later →
        Accepts tokener srv before req srv' →
        ∀ t req', Makes (runCall tokener) srv' later t req' → req'.jsonConfig = none := by
  refine forall₄_congr fun before req later srv' => forall₂_congr fun _ haccepts => ?_
  obtain ⟨t, result, -, hcall, herr⟩ := haccepts
  obtain ⟨json, appConfig, errDesc, parsed, -, -, -, -, hconf⟩ := runCall_success hcall herr
  exact closedFor_iff hconf later

def requestWith (document : String) : RunRequest where
  jsonConfig := some document.toList

def waitingServer : CmdServer where
  attestOnly := false
  appConfig := some {}

def tokenPath : Tokener := fun str =>
  .ok [("run", .string (str.drop 1)), ("disk_config", .array [])]

/-- Both requests are accepted: the second one replaces the configuration and signals again. -/
theorem second_request_accepted :
    (∃ srv₁ srv₂, Accepts tokenPath waitingServer [] (requestWith "\x7b/a") srv₁
        ∧ Accepts tokenPath waitingServer [requestWith "\x7b/a"] (requestWith "\x7b/b") srv₂
        ∧ srv₁.appConfig.bind AppConfig.run = some "/a".toList ∧ srv₁.signals = 1
        ∧ srv₂.appConfig.bind AppConfig.run = some "/b".toList ∧ srv₂.signals = 2)
      ∧ ¬ ∀ before req later srv',
        [requestWith "\x7b/a", requestWith "\x7b/b"] = before ++ req :: later →
        Accepts tokenPath waitingServer before req srv' → ClosedFor tokenPath srv' later := by
  refine ⟨⟨_, _, ⟨_, _, rfl, rfl, rfl⟩, ⟨_, _, ⟨_, _, rfl, rfl⟩, rfl, rfl⟩, rfl, rfl, rfl, rfl⟩, ?_⟩
  intro hclosed
  obtain ⟨hanswers, -⟩ := hclosed [] _ _ _ rfl ⟨_, _, rfl, rfl, rfl⟩
  exact (hanswers _ _ (Or.inl ⟨rfl, rfl⟩)).2 ⟨_, _, rfl, rfl, rfl⟩

end RktIo.Cmd
