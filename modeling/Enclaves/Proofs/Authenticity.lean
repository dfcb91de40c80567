import Enclaves.Proofs.Attestation
import Enclaves.Proofs.Preparation
import Enclaves.Proofs.Verification

/-!
# Trusted reports are authentic

A report that a verifier trusts, off whatever bytes it was read, was asked for with the verifier's
own challenge and tells of an enclave as it was at that moment. What is assumed of the signature
scheme is that nothing but what the run's reports signed passes the check (`Unforged`).

The signature says that some report of the run has the same signed message. That the two are the
same report but for their signatures needs both to fit the wire form: the one because it was read,
the other by the configuration (`Report.signedMessage_inj`).
-/

namespace Enclaves

namespace Monitor

variable {m : Monitor} {config : Config} {identity : Identity} {platform : Platform}
  {acts : List Act} {v : Verifier} {check : SignatureCheck}

/-- A report was asked for at some moment of a run, and it was issued. -/
structure Attests (m : Monitor) (acts : List Act) (moment : Nat) (id : EnclaveId) (data : Bytes)
    (report : Report) : Prop where
  act : acts[moment]? = some (.call (.attest id data))
  issued : (m.upTo acts moment).attest id data = .ok report

/-- A signature passes under a key only on a message that some report of the run signed. -/
def Unforged (m : Monitor) (acts : List Act) (check : SignatureCheck) (key : Ed25519.PublicKey) :
    Prop :=
  ∀ message signature, check key message signature = true →
    ∃ moment id data report, m.Attests acts moment id data report ∧
      report.signedMessage = message

/-- Attestation is sound. Take any bytes that are read as a report which a verifier with the
monitor's public key trusts, for some subject and some nonce. If the check cannot be deceived, then
at some moment of the run the monitor was asked with that nonce to attest an enclave that was live
and measured, as the subject's application under the verifier's loader and runtime; and history,
log and platform digest were at that moment what the report says. -/
theorem trusted_reports_are_authentic
    (hstart : Monitor.start config platform identity = .ok m)
    (hcapacity : config.logCapacity < UInt32.size)
    (hkey : v.key = identity.key.publicKey)
    (hunforged : m.Unforged acts check identity.key.publicKey)
    {bytes : Bytes} {r : Report} {subject : String} {nonce : Bytes}
    (hdecode : Report.decode bytes = .ok r)
    (htrusted : (v.verifyBy check r subject nonce).isTrusted = true) :
    ∃ moment id e app, acts[moment]? = some (.call (.attest id nonce)) ∧
      (m.upTo acts moment).enclave? id = some e ∧ e.state.isMeasured = true ∧
      v.artifact subject = some app ∧
      (m.upTo acts moment).measurement id = .ok (Image.mk v.loader v.runtime app).measure ∧
      r.digest = (Image.mk v.loader v.runtime app).measure ∧
      (m.upTo acts moment).history id = .ok r.history ∧
      (m.upTo acts moment).connectionLog id = .ok r.log ∧
      identity.platform = r.platform ∧ r.data = nonce := by
  obtain ⟨hsignature, hmeasure, hdata⟩ := Verifier.of_isTrusted htrusted
  rw [hkey] at hsignature
  obtain ⟨moment, id, data, report, hattests, hmessage⟩ := hunforged _ _ hsignature
  have hfounded := Founded.of_start hstart (acts.take moment)
  have hsized := hfounded.sized_of_attest (valid_of_start hstart) hcapacity hattests.issued
  obtain ⟨hdigest, hhistory, hlog, hplatform, hsame⟩ :=
    Report.signedMessage_inj hsized (Report.sized_of_decode hdecode) hmessage
  obtain ⟨e, digest, history, hlive, hmeasured, hborne, habsorbed, -, rfl⟩ :=
    attest_eq_ok_iff.mp hattests.issued
  obtain ⟨app, hartifact, himage⟩ := Option.map_eq_some_iff.mp hmeasure
  have hidentity : (m.upTo acts moment).identity = identity := hfounded.identity_eq
  refine ⟨moment, id, e, app, ?_, hlive, hmeasured, hartifact, ?_, himage.symm, ?_, ?_, ?_, hdata⟩
  · rw [← hdata, ← hsame]
    exact hattests.act
  · rw [himage, ← hdigest]
    exact measurement_eq_ok_iff.mpr ⟨e, hlive, hborne⟩
  · rw [← hhistory, Monitor.history, lookup_eq_ok_iff.mpr hlive]
    simp only [habsorbed]
    rfl
  · rw [connectionLog_of_live hlive, ← hlog]
    rfl
  · rw [← hplatform, ← hidentity]
    rfl

/-- An enclave is loaded, finalized and attested. Where no other message and signature pass than the
report's own, what the verifier trusts is that report. -/
theorem trusted_reports_are_authentic_default :
    let acts : List Act := [.call (.allocate 3), .call (.load ⟨0, 1⟩ ⟨"a", ⟨[1], [2], [3]⟩⟩),
      .call (.finalize ⟨0, 1⟩ ⟨0x80000000, 0x80001000, 0x80002000, 0x80003000⟩),
      .call (.attest ⟨0, 1⟩ [5, 6])]
    ∃ m report, Monitor.start {} .initial
        ⟨⟨⟨List.replicate 32 7, rfl⟩⟩, ⟨⟨List.replicate 64 9, rfl⟩⟩⟩ = .ok m ∧
      m.Attests acts 3 ⟨0, 1⟩ [5, 6] report ∧ Report.decode report.encode = .ok report ∧
      let v : Verifier := ⟨m.identity.key.publicKey, [1], [2],
        fun reference => if reference = "a" then some [3] else none, none⟩
      let check : SignatureCheck := fun _ message signature =>
        decide (message = report.signedMessage ∧ signature = report.signature)
      (v.verifyBy check report "a" [5, 6]).isTrusted = true ∧
      ∃ moment id e, acts[moment]? = some (.call (.attest id [5, 6])) ∧
        (m.upTo acts moment).enclave? id = some e ∧ e.state.isMeasured = true ∧
        (m.upTo acts moment).measurement id = .ok (Image.mk [1] [2] [3]).measure ∧
        (m.upTo acts moment).history id = .ok report.history ∧
        (m.upTo acts moment).connectionLog id = .ok report.log := by
  intro acts
  obtain ⟨m, hstart⟩ : ∃ m, Monitor.start {} .initial
    ⟨⟨⟨List.replicate 32 7, rfl⟩⟩, ⟨⟨List.replicate 64 9, rfl⟩⟩⟩ = .ok m := ⟨_, rfl⟩
  have hload : ((m.upTo acts 1).load ⟨0, 1⟩ ⟨"a", ⟨[1], [2], [3]⟩⟩).1 =
      .ok ⟨0x80000000, 0x80001000, 0x80002000, 0x80003000⟩ := by
    cases hstart
    decide
  have hrun : ∃ digest report,
      ((m.upTo acts 2).finalize ⟨0, 1⟩ ⟨0x80000000, 0x80001000, 0x80002000, 0x80003000⟩).1 =
        .ok digest ∧
      (m.upTo acts 3).attest ⟨0, 1⟩ [5, 6] = .ok report ∧ report.digest = digest ∧
      report.history = digest ∧ report.log = [] ∧ report.data = [5, 6] := by
    cases hstart
    exact ⟨_, _, rfl, rfl, rfl, rfl, rfl, rfl⟩
  obtain ⟨digest, report, hfinalize, hattest, hdigest, hhistory, hlog, hdata⟩ := hrun
  have himage : digest = (Image.mk [1] [2] [3]).measure := by
    obtain ⟨e, hlive, hloaded⟩ := loaded_of_load (congrArg (Except.map Reply.loaded) hload)
    rcases finalize_cases (m.upTo acts 2) ⟨0, 1⟩
        ⟨0x80000000, 0x80001000, 0x80002000, 0x80003000⟩ with
      ⟨_, hcall⟩ | ⟨f, _, hlive', -, hmeasure, hcall⟩
    · rw [hcall] at hfinalize
      cases hfinalize
    · rw [hcall] at hfinalize
      cases hfinalize
      obtain rfl := Option.some.inj (hlive.symm.trans hlive')
      exact hloaded.measure_eq hmeasure
  have hattests : m.Attests acts 3 ⟨0, 1⟩ [5, 6] report := ⟨rfl, hattest⟩
  have hdecode : Report.decode report.encode = .ok report :=
    Report.decode_encode ⟨by rw [hlog]; decide, by rw [hdata]; decide⟩
  refine ⟨m, report, hstart, hattests, hdecode, ?_⟩
  intro v check
  have hmeasure : v.measureReference "a" = some report.digest := by
    rw [hdigest, himage]
    rfl
  have hreplay : v.replay report = .ok report.history := by
    rw [Verifier.replay, hlog, hdigest, hhistory]
    rfl
  have htrusted : (v.verifyBy check report "a" [5, 6]).isTrusted = true := by
    rw [Verifier.verifyBy_eq_flawless (by simp [Verifier.checkSignatureBy, check]) hmeasure
      hreplay (by rintro _ ⟨⟩) hdata]
    exact v.isTrusted_flawless
  have hunforged : m.Unforged acts check m.identity.key.publicKey := by
    intro message signature hcheck
    exact ⟨3, ⟨0, 1⟩, [5, 6], report, hattests, (of_decide_eq_true hcheck).1.symm⟩
  have hidentity := (Founded.of_start hstart []).identity_eq
  rw [perform_nil] at hidentity
  obtain ⟨moment, id, e, app, hact, hlive, hmeasured, hartifact, hmeasurement, -, hhistory', hlog',
    -⟩ := trusted_reports_are_authentic hstart (by decide) (congrArg (·.key.publicKey) hidentity)
      (hidentity ▸ hunforged) hdecode htrusted
  cases hartifact
  exact ⟨htrusted, moment, id, e, hact, hlive, hmeasured, hmeasurement, hhistory', hlog'⟩

end Monitor

end Enclaves
