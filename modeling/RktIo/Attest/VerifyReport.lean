import RktIo.Shared.Util

/-!
# Verifying an attestation report (`ctl/verify_report.c`)

`sgxlkl-ctl` has IAS confirm an enclave's quote and checks the answer: the certificate chain, the
signature of the report, the status that IAS gives the quote, and the measurements in the
quote. `verify_report` returns 0 if the enclave is to be trusted.

OpenSSL is a structure of oracles. A function that runs into a failing `assert` or that
dereferences a null pointer returns `none`.
-/

namespace RktIo.Attest

open CString Shared

/-! ## Texts -/

def PLATFORM_INFO_BLOB_PREFIX : List Char := "\"platformInfoBlob\":\"".toList

def JSON_PREFIX_QUOTE_STATUS : List Char := "\"isvEnclaveQuoteStatus\":\"".toList
def JSON_PREFIX_QUOTE_BODY : List Char := "\"isvEnclaveQuoteBody\":\"".toList

def STATUS_OK : List Char := "OK\"".toList
def STATUS_OUT_OF_DATE : List Char := "GROUP_OUT_OF_DATE\"".toList
def STATUS_CONFIG_NEEDED : List Char := "CONFIGURATION_NEEDED\"".toList

inductive LogLevel where
  | info
  | warn
  | err
  deriving Repr, DecidableEq

structure LogLine where
  level : LogLevel
  text : String
  args : List Nat := []
  deriving Repr, DecidableEq

/-! ## Reports and quotes -/

/-- The fields of `attestation_verification_report_t` that are read; every array stands with its
length. -/
structure AttestationVerificationReport where
  iasReport : List Char
  iasSignCert : List UInt8
  iasReportSignature : List UInt8
  deriving Repr, DecidableEq

/-- OpenSSL. `chain` is whether `verify_ias_certificate_chain` succeeds with the CA certificate
at a path or with the built-in one, `signature` whether every assertion of
`verify_ias_report_signature` holds, and `decodeBlock` is `EVP_DecodeBlock`. -/
structure OpenSsl where
  chain : Option String → List UInt8 → Bool
  signature : List UInt8 → List Char → List UInt8 → Bool
  decodeBlock : List Char → Option (List UInt8)

def SIZEOF_QUOTE : Nat := 436

def SGX_HASH_SIZE : Nat := 32

def mrEnclave (quote : List UInt8) : List UInt8 := (quote.drop (48 + 64)).take SGX_HASH_SIZE

def mrSigner (quote : List UInt8) : List UInt8 := (quote.drop (48 + 128)).take SGX_HASH_SIZE

def getQuoteFromReport (ssl : OpenSsl) (report : List Char) : Option (List UInt8) := do
  let buf := content report
  let pBegin ← strstr JSON_PREFIX_QUOTE_BODY buf
  let quoteBase64 ← before '"' (pBegin.drop JSON_PREFIX_QUOTE_BODY.length)
  let quoteBin ← ssl.decodeBlock quoteBase64
  if quoteBin.length ≤ SIZEOF_QUOTE then
    some (quoteBin ++ List.replicate (SIZEOF_QUOTE - quoteBin.length) 0)
  else none

/-! ## The checks -/

def verifyIasCertificateChain (ssl : OpenSsl) (signCaCertPemPath : Option String)
    (attnReport : AttestationVerificationReport) : Nat :=
  if ssl.chain signCaCertPemPath attnReport.iasSignCert then 0 else 1

def verifyIasReportSignature (ssl : OpenSsl) (attnReport : AttestationVerificationReport) :
    Option Nat :=
  if ssl.signature attnReport.iasSignCert attnReport.iasReport attnReport.iasReportSignature then
    some 0
  else none

def SIZEOF_PLATFORM_INFO_BLOB : Nat := 101

def printPlatformInfo (buf : List Char) : Option (List LogLine) :=
  match strstr PLATFORM_INFO_BLOB_PREFIX buf with
  | none => some [⟨.err, "Could not parse platform info blob in IAS response.\n", []⟩]
  | some blob => do
    -- the result of `strchr` is not checked
    let blobStr ← before '"' (blob.drop PLATFORM_INFO_BLOB_PREFIX.length)
    if blobStr.length < 210 then
      return [⟨.err, "Incomplete platform blob, length: %lu.\n", [blobStr.length]⟩]
    let decodedBlob := hexToBytes blobStr
    -- -1 is printed as a `size_t`
    let decodedLen := decodedBlob.elim (2 ^ 64 - 1) List.length
    -- +4 for TSV header
    if decodedLen ≠ SIZEOF_PLATFORM_INFO_BLOB + 4 then
      return [⟨.err, "Invalid platform blob, expected length: %lu, actual length: %lu, sizeof(struct platform_info_blob): %lu.\n",
        [SIZEOF_PLATFORM_INFO_BLOB + 4, decodedLen, SIZEOF_PLATFORM_INFO_BLOB]⟩]
    let pi := ((decodedBlob.getD []).drop 4).map UInt8.toNat
    return [⟨.warn, "Platform Info:\n", []⟩,
      ⟨.warn, " EPID group flags: 0x%x\n", pi.take 1⟩,
      ⟨.warn, " TCB evaluation flags: 0x%x%x\n", (pi.drop 1).take 2⟩,
      ⟨.warn, " PSE evaluation flags: 0x%x%x\n", (pi.drop 3).take 2⟩]

def verifyEnclaveQuoteStatus (strict : Bool) (iasReport : List Char) :
    Option (Nat × List LogLine) := do
  let buf := content iasReport
  let found ← strstr JSON_PREFIX_QUOTE_STATUS buf
  let pBegin := found.drop JSON_PREFIX_QUOTE_STATUS.length
  if startsWith STATUS_OK pBegin then
    return (0, [⟨.info, "Quote status: OK\n", []⟩])
  else if startsWith STATUS_OUT_OF_DATE pBegin then
    return (if strict then 1 else 0,
      [⟨.warn, "Quote status: GROUP_OUT_OF_DATE (Platform software/firmware is out of date)\n", []⟩])
  else if startsWith STATUS_CONFIG_NEEDED pBegin then
    let lines ← printPlatformInfo buf
    return (if strict then 1 else 0,
      ⟨.warn, "Quote status: CONFIGURATION_NEEDED (Target systems requires reconfiguration)\n", []⟩
        :: lines)
  else return (1, [⟨.warn, "Quote status: Unknown!\n", []⟩])

def verifyMeasurement (measured : List UInt8) (expectedHex : Option (List Char))
    (skipped mismatch : String) : Nat × List LogLine :=
  match expectedHex with
  | none => (0, [⟨.info, skipped, []⟩])
  | some hex =>
    match hexToBytes hex with
    | none => (1, [⟨.warn, mismatch, []⟩])
    | some expected =>
      if expected.length ≠ SGX_HASH_SIZE ∨ measured ≠ expected then (1, [⟨.warn, mismatch, []⟩])
      else (0, [])

def verifyQuote (quote : List UInt8) (mrenclaveHex mrsignerHex : Option (List Char)) :
    Nat × List LogLine :=
  let (enclave, enclaveLog) := verifyMeasurement (mrEnclave quote) mrenclaveHex
    "No expected MRENCLAVE specified. Skipping verification.\n"
    "MRENCLAVE mismatch. Verification failed!\n"
  let (signer, signerLog) := verifyMeasurement (mrSigner quote) mrsignerHex
    "No expected MRSIGNER specified. Skipping verification.\n"
    "MRSIGNER mismatch. Verification failed!\n"
  (if enclave = 0 ∧ signer = 0 then 0 else 1,
    [⟨.info, "Quote measurements:\n", []⟩,
      ⟨.info, " MRENCLAVE: ", (mrEnclave quote).map UInt8.toNat⟩,
      ⟨.info, " MRSIGNER:  ", (mrSigner quote).map UInt8.toNat⟩] ++ enclaveLog ++ signerLog)

def finishReport (ssl : OpenSsl) (report : List Char) (mrenclaveHex mrsignerHex : Option (List Char))
    (ret : Nat) (log : List LogLine) : Option (Nat × List LogLine) := do
  let quote ← getQuoteFromReport ssl report
  let (err, lines) := verifyQuote quote mrenclaveHex mrsignerHex
  return (if err ≠ 0 then 1 else ret, log ++ lines)

def verifyReport (ssl : OpenSsl) (strict : Bool) (iasSignCaCertPem : Option String)
    (attnReport : AttestationVerificationReport) (mrenclaveHex mrsignerHex : Option (List Char))
    (_nonce : BitVec 64) : Option (Nat × List LogLine) := do
  let err := verifyIasCertificateChain ssl iasSignCaCertPem attnReport
  let ret := if err ≠ 0 then 1 else 0
  if err ≠ 0 ∧ strict then return (err, [])
  let err ← verifyIasReportSignature ssl attnReport
  let ret := if err ≠ 0 then 1 else ret
  if err ≠ 0 ∧ strict then return (err, [])
  let (err, lines) ← verifyEnclaveQuoteStatus strict attnReport.iasReport
  let log := if err ≠ 0 then lines ++ [⟨.warn, "Quote status verification failed.\n", []⟩] else lines
  -- in contrast to the other checks, `ret` stays as it is
  if err ≠ 0 ∧ strict then return (err, log)
  finishReport ssl attnReport.iasReport mrenclaveHex mrsignerHex ret log

/-! ## What a verdict is to mean -/

def quoteStatus (report : List Char) : Option (List Char) := do
  let found ← strstr JSON_PREFIX_QUOTE_STATUS (content report)
  before '"' (found.drop JSON_PREFIX_QUOTE_STATUS.length)

def StatusAccepted (strict : Bool) (report : List Char) : Prop :=
  quoteStatus report = some "OK".toList ∨
    (strict = false ∧ (quoteStatus report = some "GROUP_OUT_OF_DATE".toList ∨
      quoteStatus report = some "CONFIGURATION_NEEDED".toList))

instance (strict : Bool) (report : List Char) : Decidable (StatusAccepted strict report) :=
  inferInstanceAs (Decidable (_ ∨ _))

def Measured (measured : List UInt8) (expectedHex : Option (List Char)) : Prop :=
  ∀ hex, expectedHex = some hex → hex.length = 64 → (∀ c ∈ hex, digitVal c < 16) →
    measured = hexValue hex

structure Sound (ssl : OpenSsl) (strict : Bool) (iasSignCaCertPem : Option String)
    (attnReport : AttestationVerificationReport) (mrenclaveHex mrsignerHex : Option (List Char)) :
    Prop where
  chain : ssl.chain iasSignCaCertPem attnReport.iasSignCert = true
  signature : ssl.signature attnReport.iasSignCert attnReport.iasReport
    attnReport.iasReportSignature = true
  status : StatusAccepted strict attnReport.iasReport
  measurements : ∃ quote, getQuoteFromReport ssl attnReport.iasReport = some quote
    ∧ Measured (mrEnclave quote) mrenclaveHex ∧ Measured (mrSigner quote) mrsignerHex

/-! ## The checks one by one -/

theorem verifyEnclaveQuoteStatus_zero_iff {strict : Bool} {report : List Char} {err : Nat}
    {log : List LogLine} (h : verifyEnclaveQuoteStatus strict report = some (err, log)) :
    err = 0 ↔ StatusAccepted strict report := by
  unfold verifyEnclaveQuoteStatus at h
  obtain ⟨found, hfound, h⟩ := Option.bind_eq_some_iff.mp h
  have hstatus : ∀ t, '"' ∉ t →
      (startsWith (t ++ ['"']) (found.drop JSON_PREFIX_QUOTE_STATUS.length) = true
        ↔ quoteStatus report = some t) := by
    intro t ht
    rw [startsWith_snoc_iff ht, quoteStatus, hfound]
    rfl
  have hok : startsWith STATUS_OK _ = true ↔ _ := hstatus "OK".toList (by decide)
  have hout : startsWith STATUS_OUT_OF_DATE _ = true ↔ _ :=
    hstatus "GROUP_OUT_OF_DATE".toList (by decide)
  have hconf : startsWith STATUS_CONFIG_NEEDED _ = true ↔ _ :=
    hstatus "CONFIGURATION_NEEDED".toList (by decide)
  unfold StatusAccepted
  rw [← hok, ← hout, ← hconf]
  dsimp only at h
  split at h
  · rename_i h1
    cases h
    simp [h1]
  · rename_i h1
    split at h
    · rename_i h2
      cases h
      simp [h1, h2]
    · rename_i h2
      split at h
      · rename_i h3
        obtain ⟨lines, -, h⟩ := Option.bind_eq_some_iff.mp h
        cases h
        simp [h1, h3]
      · rename_i h3
        cases h
        simp [h1, h2, h3]

theorem measured_of_verifyMeasurement {measured : List UInt8} {expectedHex : Option (List Char)}
    {skipped mismatch : String}
    (h : (verifyMeasurement measured expectedHex skipped mismatch).1 = 0) :
    Measured measured expectedHex := by
  rintro hex rfl hlen hdigits
  have hbytes := hexToBytes_of_digits (by omega) hdigits
  simp only [verifyMeasurement, hbytes] at h
  split at h
  · cases h
  · rename_i heq
    rw [not_or, not_not, not_not] at heq
    exact heq.2

theorem measured_of_verifyQuote {quote : List UInt8} {mrenclaveHex mrsignerHex : Option (List Char)}
    (h : (verifyQuote quote mrenclaveHex mrsignerHex).1 = 0) :
    Measured (mrEnclave quote) mrenclaveHex ∧ Measured (mrSigner quote) mrsignerHex := by
  simp only [verifyQuote] at h
  split at h
  · rename_i hboth
    exact ⟨measured_of_verifyMeasurement hboth.1, measured_of_verifyMeasurement hboth.2⟩
  · cases h

def QuoteAccepted (ssl : OpenSsl) (report : List Char) (mrenclaveHex mrsignerHex : Option (List Char)) :
    Prop :=
  ∃ quote, getQuoteFromReport ssl report = some quote
    ∧ (verifyQuote quote mrenclaveHex mrsignerHex).1 = 0

theorem finishReport_zero_iff {ssl : OpenSsl} {report : List Char}
    {mrenclaveHex mrsignerHex : Option (List Char)} {ret : Nat} {log : List LogLine} :
    (∃ log', finishReport ssl report mrenclaveHex mrsignerHex ret log = some (0, log'))
      ↔ ret = 0 ∧ QuoteAccepted ssl report mrenclaveHex mrsignerHex := by
  unfold finishReport QuoteAccepted
  cases hquote : getQuoteFromReport ssl report with
  | none => simp
  | some quote =>
    by_cases hzero : (verifyQuote quote mrenclaveHex mrsignerHex).1 = 0
    · simp [hzero]
    · simp [hzero]

/-! ## The verdict -/

section Verdict

variable (ssl : OpenSsl) (strict : Bool) (iasSignCaCertPem : Option String)
  (attnReport : AttestationVerificationReport) (mrenclaveHex mrsignerHex : Option (List Char))
  (nonce : BitVec 64)

/-- **When the verdict is 0.** The chain and the signature verify, the status of the quote is
printed, with `--strict` it is also acceptable, and the quote is accepted. -/
theorem verifyReport_eq_zero_iff :
    (∃ log, verifyReport ssl strict iasSignCaCertPem attnReport mrenclaveHex mrsignerHex nonce
        = some (0, log))
      ↔ ssl.chain iasSignCaCertPem attnReport.iasSignCert = true
        ∧ ssl.signature attnReport.iasSignCert attnReport.iasReport attnReport.iasReportSignature
          = true
        ∧ (verifyEnclaveQuoteStatus strict attnReport.iasReport).isSome = true
        ∧ (strict = true → StatusAccepted strict attnReport.iasReport)
        ∧ QuoteAccepted ssl attnReport.iasReport mrenclaveHex mrsignerHex := by
  unfold verifyReport verifyIasCertificateChain verifyIasReportSignature
  cases hsig : ssl.signature attnReport.iasSignCert attnReport.iasReport
      attnReport.iasReportSignature with
  | false =>
    -- the assertion fails, unless the chain has ended the check before
    cases ssl.chain iasSignCaCertPem attnReport.iasSignCert <;> cases strict <;> simp
  | true =>
    cases hstatus : verifyEnclaveQuoteStatus strict attnReport.iasReport with
    | none => cases ssl.chain iasSignCaCertPem attnReport.iasSignCert <;> cases strict <;> simp
    | some status =>
      obtain ⟨err, lines⟩ := status
      have hzero := verifyEnclaveQuoteStatus_zero_iff hstatus
      cases ssl.chain iasSignCaCertPem attnReport.iasSignCert <;> cases strict
      · simp [finishReport_zero_iff]
      · simp
      · simp [finishReport_zero_iff]
      · by_cases herr : err = 0
        · simp [herr, hzero.mp herr, finishReport_zero_iff]
        · simp [herr, mt hzero.mpr herr]

/-- **The verdict is sound, the status of the quote apart.** For every report, flag and
expected measurements, 0 is returned only if the chain and the signature verify, the status is
acceptable and the measurements are the expected ones, exactly if

* `strict` is set, or the status is acceptable, or
* another check fails: the chain or the signature, the quote is refused, or the text of the
  report cannot be read. -/
theorem verifyReport_sound_iff :
    (∀ log, verifyReport ssl strict iasSignCaCertPem attnReport mrenclaveHex mrsignerHex nonce
        = some (0, log) →
      Sound ssl strict iasSignCaCertPem attnReport mrenclaveHex mrsignerHex)
      ↔ strict = true ∨ StatusAccepted strict attnReport.iasReport
        ∨ ssl.chain iasSignCaCertPem attnReport.iasSignCert = false
        ∨ ssl.signature attnReport.iasSignCert attnReport.iasReport attnReport.iasReportSignature
          = false
        ∨ verifyEnclaveQuoteStatus strict attnReport.iasReport = none
        ∨ ¬ QuoteAccepted ssl attnReport.iasReport mrenclaveHex mrsignerHex := by
  have hiff := verifyReport_eq_zero_iff ssl strict iasSignCaCertPem attnReport mrenclaveHex
    mrsignerHex nonce
  constructor
  · intro hsound
    by_contra hnot
    push Not at hnot
    obtain ⟨hstrict, hstatus, hchain, hsig, hread, hquote⟩ := hnot
    obtain ⟨log, hzero⟩ := hiff.mpr ⟨by simpa using hchain, by simpa using hsig,
      Option.isSome_iff_ne_none.mpr hread, fun h => absurd h hstrict, hquote⟩
    exact hstatus (hsound log hzero).status
  · intro hcond log hzero
    obtain ⟨hchain, hsig, hread, hstrict, quote, hquote, hmatch⟩ := hiff.mp ⟨log, hzero⟩
    have hstatus : StatusAccepted strict attnReport.iasReport := by
      rcases hcond with h | h | h | h | h | h
      · exact hstrict h
      · exact h
      · rw [hchain] at h
        cases h
      · rw [hsig] at h
        cases h
      · rw [h] at hread
        cases hread
      · exact absurd ⟨quote, hquote, hmatch⟩ h
    exact ⟨hchain, hsig, hstatus, quote, hquote, measured_of_verifyQuote hmatch⟩

end Verdict

/-- Without `--strict` a report of a revoked platform is accepted: the chain and the signature
verify, no measurement is expected, and the quote body is empty. -/
theorem verifyReport_accepts_revoked :
    ((verifyReport ⟨fun _ _ => true, fun _ _ _ => true, fun _ => some []⟩ false none
        ⟨"\x7b\"isvEnclaveQuoteStatus\":\"GROUP_REVOKED\",\"isvEnclaveQuoteBody\":\"\"\x7d".toList,
          [], []⟩ none none 0).map Prod.fst = some 0)
      ∧ ¬ StatusAccepted false
        "\x7b\"isvEnclaveQuoteStatus\":\"GROUP_REVOKED\",\"isvEnclaveQuoteBody\":\"\"\x7d".toList := by
  decide

end RktIo.Attest
