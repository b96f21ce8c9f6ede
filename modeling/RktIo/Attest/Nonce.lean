import RktIo.Attest.VerifyReport
import RktIo.Lib.Bytes

/-!
# The nonce of an attestation (`handle_attest_response` of `ctl/sgxlkl_ctl.c`)

The server answers with a quote, a report of IAS about it, or both. `sgxlkl-ctl` has the quote
confirmed by IAS if it has the credentials, takes the report of the server if there is one, and
otherwise checks the measurements of the quote itself. The nonce is compared after a report has been
verified (`checkReport`); the paths without a report leave before.

What is sent to IAS and what comes back is an oracle, as OpenSSL is.
-/

namespace RktIo.Attest

open Shared

/-! ## The answer of the server and the options -/

inductive CtlError where
  | success
  | invalidArgument
  | internal
  | notPermitted
  | simMode
  | repNotAvailable
  | appRunning
  | parse
  deriving Repr, DecidableEq

structure BinaryData where
  len : Nat
  data : Nat → UInt8

structure AttestResult where
  err : CtlError
  quote : BinaryData
  iasReport : List Char
  iasSignCaCert : List UInt8
  iasSignCert : List UInt8
  iasReportSignature : List UInt8

structure CtlOptions where
  iasSignCaCertPath : Option String
  mrenclave : Option (List Char)
  mrsigner : Option (List Char)
  nonce : BitVec 64
  spidProvided : Bool
  strictMode : Bool
  printWgKey : Bool
  forceIasAttestation : Bool
  iasKeyFile : Option String
  iasCertFile : Option String

/-- OpenSSL, and `ias_get_attestation_verification_report`; `none` is an error. -/
structure AttestServices where
  ssl : OpenSsl
  ias : BinaryData → Option AttestationVerificationReport

/-! ## Quotes -/

def BinaryData.quote (b : BinaryData) : List UInt8 := (List.range SIZEOF_QUOTE).map b.data

def REPORT_DATA : Nat := 48 + 320

def wgPublicKey (quote : List UInt8) : List UInt8 := (quote.drop REPORT_DATA).take 32

def reportNonce (quote : List UInt8) : BitVec 64 :=
  BitVec.ofNat 64 (Bytes.load (fun i => (quote.getD i 0).toBitVec) (REPORT_DATA + 32) 8)

/-! ## The handler -/

inductive CtlFailure where
  /-- `sgxlkl_fail` -/
  | fail (text : String) (args : List Nat)
  /-- `exit(EXIT_FAILURE)` -/
  | exitFailure
  /-- A failing assertion, or a null pointer. -/
  | abort
  deriving Repr, DecidableEq

/-- What is printed: a text, or a key in base64. -/
inductive Printed where
  | text (s : String)
  | key (bytes : List UInt8)
  deriving Repr, DecidableEq

/-- What the handler leaves when it is done: the messages on `stderr` (a message without a level
counts as information), what is printed, and the quote whose measurements were checked. -/
structure Attested where
  log : List LogLine
  stdout : List Printed := []
  verified : Option (List UInt8) := none
  deriving Repr, DecidableEq

def REPORT_FIELD_SIZE : Nat := 2 * 1024

def quotePath (o : CtlOptions) (result : AttestResult) : Bool :=
  result.quote.len ≠ 0 && (result.iasReport.length = 0 || o.forceIasAttestation)

def credentials (o : CtlOptions) : Bool :=
  o.spidProvided && o.iasKeyFile.isSome && o.iasCertFile.isSome

def skipWarning (o : CtlOptions) : List LogLine :=
  if !o.spidProvided then [⟨.warn, "No IAS SPID provided, skipping IAS verification.\n", []⟩]
  else if o.iasKeyFile.isNone then
    [⟨.warn, "No IAS key file provided (via --ias-key), skipping IAS verification.\n", []⟩]
  else if o.iasCertFile.isNone then
    [⟨.warn, "No IAS certificate provided (via --ias-cert), skipping IAS verification.\n", []⟩]
  else []

def checkReport (s : AttestServices) (o : CtlOptions) (log : List LogLine)
    (report : AttestationVerificationReport) : Except CtlFailure Attested :=
  match verifyReport s.ssl o.strictMode o.iasSignCaCertPath report o.mrenclave o.mrsigner 0 with
  | none => .error .abort
  | some (err, lines) =>
    if err ≠ 0 then .error (.fail "Verification of quote and attestation report failed!\n" [])
    else
      match getQuoteFromReport s.ssl report.iasReport with
      | none => .error .abort
      | some quote =>
        let log := log ++ lines
          ++ [⟨.info, "Verification of quote and attestation report successful.\n", []⟩,
            ⟨.info, "Enclave report data:\n", []⟩,
            ⟨.info, "  Nonce: %lu\n", [(reportNonce quote).toNat]⟩,
            -- the key is printed in base64
            ⟨.info, "  Public wireguard key: %s\n", (wgPublicKey quote).map UInt8.toNat⟩]
        if o.nonce ≠ 0 ∧ o.nonce ≠ reportNonce quote then
          .error (.fail "Nonce mismatch! Expected nonce: %lu\n" [o.nonce.toNat])
        else .ok ⟨log, if o.printWgKey then [.key (wgPublicKey quote)] else [], some quote⟩

def handleSuccess (s : AttestServices) (o : CtlOptions) (result : AttestResult) :
    Except CtlFailure Attested :=
  let log : List LogLine := [⟨.info, "Request successful.\n", []⟩]
  if quotePath o result then
    let log := log ++ skipWarning o
    if credentials o then
      match s.ias result.quote with
      | none => .error (.fail "Failed to retrieve IAS attestation report.\n" [])
      | some report => checkReport s o log report
    else
      let (err, lines) := verifyQuote result.quote.quote o.mrenclave o.mrsigner
      if err ≠ 0 then .error .exitFailure
      else .ok ⟨log ++ lines, [], some result.quote.quote⟩
  else if result.iasReport.length ≠ 0 then
    if result.iasReport.length ≤ REPORT_FIELD_SIZE ∧ result.iasSignCaCert.length ≤ REPORT_FIELD_SIZE
        ∧ result.iasSignCert.length ≤ REPORT_FIELD_SIZE
        ∧ result.iasReportSignature.length ≤ REPORT_FIELD_SIZE then
      checkReport s o log ⟨result.iasReport, result.iasSignCert, result.iasReportSignature⟩
    else .error .abort
  else .ok ⟨log ++ [⟨.warn, "Could not attest. No quote or attestation report provided.\n", []⟩],
    [], none⟩

def handleAttestResponse (s : AttestServices) (o : CtlOptions) :
    Option AttestResult → Except CtlFailure Attested
  | none => .ok ⟨[], [.text "Error processing request.\n"], none⟩
  | some result =>
    match result.err with
    | .success => handleSuccess s o result
    | .simMode => .error (.fail "Could not attest. Enclave runs in simulation mode.\n" [])
    | .repNotAvailable => .error (.fail "Could not attest. Attestation report is unavailable.\n" [])
    | _ => .error (.fail "Unknown error.\n" [])

/-! ## The paths -/

variable {s : AttestServices} {o : CtlOptions} {result : AttestResult}

/-- **With a report**, the quote in it has been checked, and its nonce is the expected one. -/
theorem checkReport_nonce {log : List LogLine} {report : AttestationVerificationReport}
    {out : Attested} (h : checkReport s o log report = .ok out) :
    ∃ quote, out.verified = some quote ∧ (verifyQuote quote o.mrenclave o.mrsigner).1 = 0
      ∧ (o.nonce ≠ 0 → reportNonce quote = o.nonce) := by
  unfold checkReport at h
  cases hverify :
      verifyReport s.ssl o.strictMode o.iasSignCaCertPath report o.mrenclave o.mrsigner 0 with
  | none =>
    rw [hverify] at h
    cases h
  | some verdict =>
    obtain ⟨err, lines⟩ := verdict
    simp only [hverify] at h
    by_cases herr : err = 0
    · obtain rfl := herr
      obtain ⟨-, -, -, -, quote, hquote, hmatch⟩ :=
        (verifyReport_eq_zero_iff ..).mp ⟨lines, hverify⟩
      rw [if_neg (by simp), hquote] at h
      dsimp only at h
      split at h
      · cases h
      · rename_i hnonce
        obtain rfl := Except.ok.inj h
        refine ⟨quote, rfl, hmatch, fun hne => ?_⟩
        rw [not_and, not_not] at hnonce
        exact (hnonce hne).symm
    · rw [if_pos herr] at h
      cases h

def reportPath (o : CtlOptions) (result : AttestResult) : Bool :=
  if quotePath o result then credentials o else result.iasReport.length ≠ 0

def measurePath (o : CtlOptions) (result : AttestResult) : Bool :=
  quotePath o result && !credentials o

theorem handleSuccess_reportPath (h : reportPath o result = true) {out : Attested}
    (hout : handleSuccess s o result = .ok out) :
    ∃ quote, out.verified = some quote ∧ (verifyQuote quote o.mrenclave o.mrsigner).1 = 0
      ∧ (o.nonce ≠ 0 → reportNonce quote = o.nonce) := by
  unfold reportPath at h
  unfold handleSuccess at hout
  by_cases hpath : quotePath o result = true
  · rw [if_pos hpath] at h
    rw [if_pos hpath, if_pos h] at hout
    split at hout
    · cases hout
    · exact checkReport_nonce hout
  · rw [if_neg hpath, decide_eq_true_eq] at h
    rw [if_neg hpath, if_pos h] at hout
    split at hout
    · exact checkReport_nonce hout
    · cases hout

theorem handleSuccess_measurePath (h : measurePath o result = true) :
    if (verifyQuote result.quote.quote o.mrenclave o.mrsigner).1 = 0 then
      ∃ out, handleSuccess s o result = .ok out ∧ out.verified = some result.quote.quote
    else handleSuccess s o result = .error .exitFailure := by
  obtain ⟨hpath, hcred⟩ := Bool.and_eq_true_iff.mp h
  rw [Bool.not_eq_true'] at hcred
  unfold handleSuccess
  rw [if_pos hpath, hcred]
  by_cases hzero : (verifyQuote result.quote.quote o.mrenclave o.mrsigner).1 = 0
  · simp [hzero]
  · simp [hzero]

theorem handleSuccess_noPath (hreport : ¬ reportPath o result = true)
    (hmeasure : ¬ measurePath o result = true) :
    ∃ out, handleSuccess s o result = .ok out ∧ out.verified = none := by
  unfold reportPath at hreport
  unfold measurePath at hmeasure
  by_cases hpath : quotePath o result = true
  · simp [hpath] at hreport hmeasure
    simp [hreport] at hmeasure
  · simp only [if_neg hpath, decide_eq_true_eq] at hreport
    unfold handleSuccess
    rw [if_neg hpath, if_neg hreport]
    exact ⟨_, rfl, rfl⟩

/-! ## The nonce -/

/-- If a nonce is expected and the handler is done without a failure, a quote has been checked and
its nonce is the expected one. -/
def NonceChecked (s : AttestServices) (o : CtlOptions) (result : AttestResult) : Prop :=
  ∀ out, handleAttestResponse s o (some result) = .ok out → o.nonce ≠ 0 →
    ∃ quote, out.verified = some quote ∧ reportNonce quote = o.nonce

/-- **The nonce is checked**, for an answer with status `SUCCESS`, exactly if

* none is expected, or
* there is a report, of IAS or of the server, or
* only the measurements of the quote are checked, and they are refused or the nonce happens to be
  the expected one. -/
theorem nonce_checked_iff (s : AttestServices) (o : CtlOptions) (result : AttestResult)
    (hsuccess : result.err = .success) :
    NonceChecked s o result ↔ o.nonce = 0 ∨ reportPath o result = true
      ∨ (measurePath o result = true
        ∧ ((verifyQuote result.quote.quote o.mrenclave o.mrsigner).1 ≠ 0
          ∨ reportNonce result.quote.quote = o.nonce)) := by
  have hhandle : handleAttestResponse s o (some result) = handleSuccess s o result := by
    simp [handleAttestResponse, hsuccess]
  by_cases hnonce : o.nonce = 0
  · exact iff_of_true (fun out _ hne => absurd hnonce hne) (Or.inl hnonce)
  rw [or_iff_right hnonce]
  by_cases hreport : reportPath o result = true
  · refine iff_of_true ?_ (Or.inl hreport)
    intro out hout hne
    obtain ⟨quote, hquote, -, hmatch⟩ := handleSuccess_reportPath hreport (hhandle ▸ hout)
    exact ⟨quote, hquote, hmatch hne⟩
  rw [or_iff_right hreport]
  unfold NonceChecked
  rw [hhandle]
  by_cases hmeasure : measurePath o result = true
  · rw [and_iff_right hmeasure]
    have hrun := @handleSuccess_measurePath s o result hmeasure
    by_cases hzero : (verifyQuote result.quote.quote o.mrenclave o.mrsigner).1 = 0
    · rw [if_pos hzero] at hrun
      rw [or_iff_right (not_not.mpr hzero)]
      obtain ⟨out, hrun, hverified⟩ := hrun
      constructor
      · intro h
        obtain ⟨quote, hquote, hmatch⟩ := h out hrun hnonce
        obtain rfl : result.quote.quote = quote := by simpa [hverified] using hquote
        exact hmatch
      · intro hmatch out' hrun' _
        obtain rfl : out = out' := by simpa [hrun] using hrun'
        exact ⟨_, hverified, hmatch⟩
    · rw [if_neg hzero] at hrun
      simp [hrun, hzero]
  · -- neither a quote nor a report: there is only a warning
    obtain ⟨out, hrun, hverified⟩ := @handleSuccess_noPath s o result hreport hmeasure
    refine iff_of_false ?_ fun h => hmeasure h.1
    intro h
    obtain ⟨quote, hquote, -⟩ := h out hrun hnonce
    simp [hverified] at hquote

def nonceOptions : CtlOptions := ⟨none, none, none, 7, false, false, false, false, none, none⟩

def zeroQuote : AttestResult := ⟨.success, ⟨436, fun _ => 0⟩, [], [], [], []⟩

def noServices : AttestServices :=
  ⟨⟨fun _ _ => false, fun _ _ _ => false, fun _ => none⟩, fun _ => none⟩

/-- A report is refused, and with it the nonce. -/
theorem nonce_checked_iff_report :
    NonceChecked noServices nonceOptions { zeroQuote with iasReport := ['r'] } :=
  (nonce_checked_iff noServices nonceOptions { zeroQuote with iasReport := ['r'] } rfl).mpr
    (Or.inr (Or.inl rfl))

/-- A quote with the nonce 0 is taken by a client that expects 7, and so is an answer without a
quote. -/
theorem nonce_not_compared :
    ((handleAttestResponse noServices nonceOptions (some zeroQuote)).map
        fun out => out.verified.map reportNonce) = .ok (some 0)
      ∧ ¬ NonceChecked noServices nonceOptions zeroQuote
      ∧ ((handleAttestResponse noServices nonceOptions
        (some { zeroQuote with quote := ⟨0, fun _ => 0⟩ })).map Attested.verified) = .ok none := by
  refine ⟨by decide +kernel, ?_, by decide +kernel⟩
  intro h
  have hrun : ∃ out, handleAttestResponse noServices nonceOptions (some zeroQuote) = .ok out
      ∧ out.verified = some zeroQuote.quote.quote := ⟨_, rfl, rfl⟩
  obtain ⟨out, hout, hverified⟩ := hrun
  obtain ⟨quote, hquote, hnonce⟩ := h out hout (by decide)
  rw [hverified, Option.some.injEq] at hquote
  rw [← hquote] at hnonce
  exact absurd hnonce (by decide +kernel)

end RktIo.Attest
