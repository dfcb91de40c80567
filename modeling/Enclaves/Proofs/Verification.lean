import Enclaves.Verifier
import Mathlib.Data.List.Forall2

/-!
# What verification comes to

A verification is described apart from the program that makes it. A log is explained by measuring
the peer of every entry on its own (`Remeasures`); the program measures a reference once and
remembers the result, and it stops at the first peer that it cannot find, which comes to the same
(`resolve_eq_ok_iff`, `resolve_eq_error_iff`). For each check there is a list of what it can find
(`Faults`), and the program finds just that (`finding_eq_some_iff`). What a verification answers
follows: `Verification.Exact` says it field by field, and `exact_verifyBy` that it is so.

Two ends of it are used elsewhere: when no check finds anything, the answer is flawless and trusted
(`verifyBy_eq_flawless`), and what is trusted passed the checks that tie a report to its subject and
to the challenge (`of_isTrusted`). The signature check is any, see `SignatureCheck`.
-/

namespace Enclaves

/-- What is checked of a report. -/
inductive Check where
  | signature
  | digest
  | history
  | platform
  | data
  deriving DecidableEq

/-- The checks, in the order in which they are made. -/
def Check.order : List Check := [.signature, .digest, .history, .platform, .data]

/-- No check is left out of the order. -/
theorem Check.mem_order (c : Check) : c ∈ order := by
  cases c <;> decide

/-- Whether a check was made and failed. The history is not looked at when the digest is wrong, and
the platform only if one is expected. -/
def Verification.failed (w : Verification) : Check → Bool
  | .signature => !w.signatureValid
  | .digest => !w.digestMatches
  | .history => w.digestMatches && !w.historyMatches
  | .platform => w.platformMatches == some false
  | .data => !w.dataMatches

/-- A report is trusted if none of the checks failed. -/
theorem Verification.isTrusted_iff (w : Verification) :
    w.isTrusted = true ↔ ∀ c, w.failed c = false := by
  obtain ⟨signature, digest, history, platform, data, diagnostics⟩ := w
  constructor
  · intro h
    simp only [isTrusted, Bool.and_eq_true, bne_iff_ne, ne_eq] at h
    obtain ⟨⟨⟨⟨rfl, rfl⟩, rfl⟩, hplatform⟩, rfl⟩ := h
    intro c
    cases c <;> simp [failed, hplatform]
  · intro h
    have hsignature := h .signature
    have hdigest := h .digest
    have hhistory := h .history
    have hplatform := h .platform
    have hdata := h .data
    simp_all [failed, isTrusted]

namespace Verifier

variable {v : Verifier} {check : SignatureCheck} {r : Report} {subject : String}
  {challenge : Bytes}

/-! ## Measuring the peers -/

/-- The events that explain a history: those of a log, each with its peer measured on its own. -/
def Remeasures (v : Verifier) (log : List PeerDescriptor) (events : List (Event × Digest)) : Prop :=
  List.Forall₂ (fun entry event => event.1 = entry.event ∧
    v.measureReference entry.reference.text = some event.2) log events

/-- What was measured before is what would be measured now. -/
def Knows (v : Verifier) (known : List (Reference × Digest)) : Prop :=
  ∀ reference digest, known.lookup reference = some digest →
    v.measureReference reference.text = some digest

variable {known : List (Reference × Digest)} {log : List PeerDescriptor}

/-- At first nothing has been measured. -/
theorem Knows.nil : v.Knows [] := by
  rintro reference digest ⟨⟩

/-- Looking first among what is known makes no difference. -/
theorem Knows.lookup_or (h : v.Knows known) (reference : Reference) :
    (known.lookup reference).or (v.measureReference reference.text) =
      v.measureReference reference.text := by
  cases hlookup : known.lookup reference with
  | none => rfl
  | some digest => exact (h reference digest hlookup).symm

/-- A digest may be kept once it is measured, as a reference is measured the same every time. -/
theorem Knows.cons (h : v.Knows known) {reference : Reference} {digest : Digest}
    (hmeasure : v.measureReference reference.text = some digest) :
    v.Knows ((reference, digest) :: known) := by
  intro reference' digest' hlookup
  rw [List.lookup_cons] at hlookup
  split at hlookup
  · rename_i hsame
    rw [beq_iff_eq.mp hsame, hmeasure, hlookup]
  · exact h reference' digest' hlookup

/-- One entry, when what is known is right. -/
theorem Knows.resolve_cons (h : v.Knows known) (entry : PeerDescriptor)
    (log : List PeerDescriptor) :
    (v.measureReference entry.reference.text = none ∧
      v.resolve known (entry :: log) = .error (.noPeer entry.peer entry.reference)) ∨
    (∃ digest known', v.measureReference entry.reference.text = some digest ∧ v.Knows known' ∧
      v.resolve known (entry :: log) =
        (v.resolve known' log).map ((entry.event, digest) :: ·)) := by
  rw [resolve, h.lookup_or]
  cases hmeasure : v.measureReference entry.reference.text with
  | none => exact .inl ⟨rfl, rfl⟩
  | some digest =>
    refine .inr ⟨digest, _, rfl, h.cons hmeasure, ?_⟩
    dsimp only
    cases v.resolve ((entry.reference, digest) :: known) log <;> rfl

/-- Measuring each reference once comes to measuring each entry. -/
theorem resolve_eq_ok_iff {events : List (Event × Digest)} (h : v.Knows known) :
    v.resolve known log = .ok events ↔ v.Remeasures log events := by
  induction log generalizing known events with
  | nil =>
    rw [Remeasures, List.forall₂_nil_left_iff, resolve, Except.ok.injEq, eq_comm]
  | cons entry log ih =>
    rw [Remeasures, List.forall₂_cons_left_iff]
    obtain ⟨hmeasure, hresolve⟩ | ⟨digest, known', hmeasure, hknown', hresolve⟩ :=
      h.resolve_cons entry log
    · rw [hresolve, hmeasure]
      constructor
      · intro hok
        cases hok
      · rintro ⟨event, events, ⟨-, hsome⟩, -⟩
        cases hsome
    · rw [hresolve, hmeasure]
      constructor
      · intro hok
        cases hrest : v.resolve known' log with
        | error fault =>
          rw [hrest] at hok
          cases hok
        | ok events =>
          rw [hrest] at hok
          cases hok
          exact ⟨_, events, ⟨rfl, rfl⟩, (ih hknown').mp hrest, rfl⟩
      · rintro ⟨⟨event, digest'⟩, events, ⟨hevent, hdigest⟩, hrest, rfl⟩
        cases hevent
        cases hdigest
        rw [(ih hknown').mpr hrest]
        rfl

/-- The entry that is named is the first whose peer is not found. -/
theorem resolve_eq_error_iff {finding : Finding} (h : v.Knows known) :
    v.resolve known log = .error finding ↔
      ∃ before entry after, log = before ++ entry :: after ∧
        (∀ earlier ∈ before, (v.measureReference earlier.reference.text).isSome) ∧
        v.measureReference entry.reference.text = none ∧
        finding = .noPeer entry.peer entry.reference := by
  induction log generalizing known with
  | nil =>
    rw [resolve]
    constructor
    · rintro ⟨⟩
    · rintro ⟨before, entry, after, hlog, -⟩
      cases before <;> cases hlog
  | cons entry log ih =>
    obtain ⟨hmeasure, hresolve⟩ | ⟨digest, known', hmeasure, hknown', hresolve⟩ :=
      h.resolve_cons entry log
    · rw [hresolve]
      constructor
      · rintro ⟨⟩
        exact ⟨[], entry, log, rfl, by rintro _ ⟨⟩, hmeasure, rfl⟩
      · rintro ⟨before, entry', after, hlog, hbefore, -, rfl⟩
        cases before with
        | nil =>
          cases hlog
          rfl
        | cons first before =>
          cases hlog
          have hfound := hbefore _ List.mem_cons_self
          rw [hmeasure] at hfound
          cases hfound
    · rw [hresolve]
      constructor
      · intro herror
        cases hrest : v.resolve known' log with
        | ok events =>
          rw [hrest] at herror
          cases herror
        | error fault =>
          rw [hrest] at herror
          cases herror
          obtain ⟨before, entry', after, rfl, hbefore, hmissing⟩ := (ih hknown').mp hrest
          refine ⟨entry :: before, entry', after, rfl, ?_, hmissing⟩
          exact List.forall_mem_cons.mpr ⟨by rw [hmeasure]; rfl, hbefore⟩
      · rintro ⟨before, entry', after, hlog, hbefore, hmissing, rfl⟩
        cases before with
        | nil =>
          cases hlog
          rw [hmeasure] at hmissing
          cases hmissing
        | cons first before =>
          cases hlog
          have hrest := (List.forall_mem_cons.mp hbefore).2
          rw [(ih hknown').mpr ⟨before, entry', after, rfl, hrest, hmissing, rfl⟩]
          rfl

/-! ## What each check finds -/

/-- What can be wrong with a report, check by check. -/
inductive Faults (v : Verifier) (check : SignatureCheck) (r : Report) (subject : String)
    (challenge : Bytes) : Check → Finding → Prop
  | signature (hrejects : check v.key r.signedMessage r.signature = false) :
    Faults v check r subject challenge .signature .signature
  | noSubject (hmissing : v.artifact subject = none) :
    Faults v check r subject challenge .digest (.noSubject subject)
  | digest (measured : Digest) (hmeasure : v.measureReference subject = some measured)
    (hdiffers : measured ≠ r.digest) :
    Faults v check r subject challenge .digest (.digest r.digest measured)
  | noPeer (before after : List PeerDescriptor) (entry : PeerDescriptor)
    (hmeasure : v.measureReference subject = some r.digest)
    (hlog : r.log = before ++ entry :: after)
    (hbefore : ∀ earlier ∈ before, (v.artifact earlier.reference.text).isSome)
    (hmissing : v.artifact entry.reference.text = none) :
    Faults v check r subject challenge .history (.noPeer entry.peer entry.reference)
  | history (measured : Digest) (events : List (Event × Digest))
    (hmeasure : v.measureReference subject = some measured) (hsame : measured = r.digest)
    (hevents : v.Remeasures r.log events) (hdiffers : replayHistory measured events ≠ r.history) :
    Faults v check r subject challenge .history
      (.history r.history (replayHistory measured events))
  | platform (expected : Digest) (hexpected : v.platform = some expected)
    (hdiffers : expected ≠ r.platform) :
    Faults v check r subject challenge .platform (.platform r.platform expected)
  | data (hdiffers : r.data ≠ challenge) :
    Faults v check r subject challenge .data (.data r.data.length challenge.length)

/-- No measurement of a reference means that no artifact is known by it. -/
theorem measureReference_eq_none_iff {reference : String} :
    v.measureReference reference = none ↔ v.artifact reference = none := Option.map_eq_none_iff

/-- That a reference is measured is told from the artifact alone. -/
theorem isSome_measureReference {reference : String} :
    (v.measureReference reference).isSome = (v.artifact reference).isSome := Option.isSome_map

/-- What one check finds, if it is made. -/
def finding (v : Verifier) (check : SignatureCheck) (r : Report) (subject : String)
    (challenge : Bytes) : Check → Option Finding
  | .signature => v.signatureFinding check r
  | .digest => v.digestFinding r subject
  | .history => if (v.digestFinding r subject).isNone then v.historyFinding r else none
  | .platform => v.platform.bind fun expected => platformFinding expected r
  | .data => dataFinding r challenge

/-- Nothing is found of the digest exactly if it is the measurement of the subject. -/
theorem digestFinding_eq_none_iff :
    v.digestFinding r subject = none ↔ v.measureReference subject = some r.digest := by
  unfold digestFinding
  cases v.measureReference subject with
  | none => simp
  | some measured =>
    by_cases hsame : measured = r.digest
    · simp [hsame]
    · simp [hsame]

/-- Nothing is found of the history if it is the replay of a log whose peers all measure as they
should. -/
theorem historyFinding_eq_none_iff : v.historyFinding r = none ↔
    ∃ events, v.Remeasures r.log events ∧ replayHistory r.digest events = r.history := by
  unfold historyFinding replay
  cases hresolve : v.resolve [] r.log with
  | error fault =>
    constructor
    · rintro ⟨⟩
    · rintro ⟨events, hevents, -⟩
      rw [(resolve_eq_ok_iff .nil).mpr hevents] at hresolve
      cases hresolve
  | ok events =>
    have hevents := (resolve_eq_ok_iff .nil).mp hresolve
    simp only [Except.map, ite_eq_left_iff, reduceCtorEq, imp_false, not_not]
    constructor
    · intro hsame
      exact ⟨events, hevents, hsame⟩
    · rintro ⟨events', hevents', hsame⟩
      rw [(resolve_eq_ok_iff .nil).mpr hevents'] at hresolve
      cases hresolve
      exact hsame

/-- A fault of a report is what its check finds. -/
theorem Faults.finding_eq {c : Check} {found : Finding}
    (h : v.Faults check r subject challenge c found) :
    v.finding check r subject challenge c = some found := by
  cases h with
  | signature hrejects => simp [finding, signatureFinding, checkSignatureBy, hrejects]
  | noSubject hmissing =>
    simp [finding, digestFinding, measureReference_eq_none_iff.mpr hmissing]
  | digest measured hmeasure hdiffers => simp [finding, digestFinding, hmeasure, hdiffers]
  | noPeer before after entry hmeasure hlog hbefore hmissing =>
    have hresolve : v.resolve [] r.log = .error (.noPeer entry.peer entry.reference) := by
      apply (resolve_eq_error_iff .nil).mpr
      refine ⟨before, entry, after, hlog, ?_, measureReference_eq_none_iff.mpr hmissing, rfl⟩
      intro earlier hmem
      rw [isSome_measureReference]
      exact hbefore earlier hmem
    simp [finding, digestFinding_eq_none_iff.mpr hmeasure, historyFinding, replay, hresolve,
      Except.map]
  | history measured events hmeasure hsame hevents hdiffers =>
    subst hsame
    simp [finding, digestFinding_eq_none_iff.mpr hmeasure, historyFinding, replay,
      (resolve_eq_ok_iff .nil).mpr hevents, Except.map, hdiffers]
  | platform expected hexpected hdiffers => simp [finding, hexpected, platformFinding, hdiffers]
  | data hdiffers => simp [finding, dataFinding, hdiffers]

/-- What is found of the digest is a fault of it. -/
theorem faults_of_digestFinding {found : Finding} (h : v.digestFinding r subject = some found) :
    v.Faults check r subject challenge .digest found := by
  unfold digestFinding at h
  split at h
  · rename_i hmissing
    cases h
    exact .noSubject (measureReference_eq_none_iff.mp hmissing)
  · rename_i measured hmeasure
    split at h
    · cases h
    · rename_i hdiffers
      cases h
      exact .digest measured hmeasure hdiffers

/-- What is found of the history is a fault of it, once the digest is known to be that of the
subject. -/
theorem faults_of_historyFinding {found : Finding}
    (hmeasure : v.measureReference subject = some r.digest)
    (h : v.historyFinding r = some found) :
    v.Faults check r subject challenge .history found := by
  unfold historyFinding replay at h
  cases hresolve : v.resolve [] r.log with
  | error fault =>
    rw [hresolve] at h
    cases h
    obtain ⟨before, entry, after, hlog, hbefore, hmissing, rfl⟩ :=
      (resolve_eq_error_iff .nil).mp hresolve
    refine .noPeer before after entry hmeasure hlog ?_ (measureReference_eq_none_iff.mp hmissing)
    intro earlier hmem
    rw [← isSome_measureReference]
    exact hbefore earlier hmem
  | ok events =>
    rw [hresolve] at h
    dsimp only [Except.map] at h
    split at h
    · cases h
    · rename_i hdiffers
      cases h
      exact .history _ events hmeasure rfl ((resolve_eq_ok_iff .nil).mp hresolve) hdiffers

/-- What any check finds is a fault of the report. -/
theorem faults_of_finding {c : Check} {found : Finding}
    (h : v.finding check r subject challenge c = some found) :
    v.Faults check r subject challenge c found := by
  cases c with
  | signature =>
    simp only [finding, signatureFinding, ite_eq_iff, Bool.not_eq_true] at h
    obtain ⟨-, ⟨⟩⟩ | ⟨hrejects, ⟨⟩⟩ := h
    exact .signature hrejects
  | digest => exact faults_of_digestFinding h
  | history =>
    simp only [finding, Option.isNone_iff_eq_none, digestFinding_eq_none_iff] at h
    split at h
    · exact faults_of_historyFinding ‹_› h
    · cases h
  | platform =>
    obtain ⟨expected, hexpected, hfound⟩ := Option.bind_eq_some_iff.mp h
    simp only [platformFinding, ite_eq_iff] at hfound
    obtain ⟨-, ⟨⟩⟩ | ⟨hdiffers, ⟨⟩⟩ := hfound
    exact .platform expected hexpected hdiffers
  | data =>
    simp only [finding, dataFinding, ite_eq_iff] at h
    obtain ⟨-, ⟨⟩⟩ | ⟨hdiffers, ⟨⟩⟩ := h
    exact .data hdiffers

/-- The program finds what can be found, and nothing else. -/
theorem finding_eq_some_iff {c : Check} {found : Finding} :
    v.finding check r subject challenge c = some found ↔
      v.Faults check r subject challenge c found :=
  ⟨faults_of_finding, Faults.finding_eq⟩

/-- The checks that fail are those that find something. -/
theorem failed_verifyBy (v : Verifier) (check : SignatureCheck) (r : Report) (subject : String)
    (challenge : Bytes) (c : Check) : (v.verifyBy check r subject challenge).failed c =
      (v.finding check r subject challenge c).isSome := by
  unfold verifyBy Verification.failed finding
  cases c with
  | signature => cases v.signatureFinding check r <;> rfl
  | digest => cases v.digestFinding r subject <;> rfl
  | history =>
    dsimp only
    cases v.digestFinding r subject with
    | some found => rfl
    | none => cases v.historyFinding r <;> rfl
  | platform =>
    dsimp only
    cases v.platform with
    | none => rfl
    | some expected => cases h : platformFinding expected r <;> simp [h]
  | data => cases dataFinding r challenge <;> rfl

/-- The findings, each with the check that made it. -/
def findings (v : Verifier) (check : SignatureCheck) (r : Report) (subject : String)
    (challenge : Bytes) : List (Check × Finding) :=
  Check.order.filterMap fun c => (v.finding check r subject challenge c).map (c, ·)

/-- The findings are the faults, each under its check. -/
theorem mem_findings_iff {c : Check} {found : Finding} :
    (c, found) ∈ v.findings check r subject challenge ↔
      v.Faults check r subject challenge c found := by
  rw [findings, List.mem_filterMap, ← finding_eq_some_iff]
  constructor
  · rintro ⟨c', -, hfound⟩
    obtain ⟨found', hfound, heq⟩ := Option.map_eq_some_iff.mp hfound
    cases heq
    exact hfound
  · intro hfound
    exact ⟨c, c.mem_order, by rw [hfound, Option.map_some]⟩

/-- The findings come in the order of the checks, one for each that failed. -/
theorem map_fst_findings : (v.findings check r subject challenge).map Prod.fst =
    Check.order.filter (v.verifyBy check r subject challenge).failed := by
  rw [findings, List.map_filterMap, ← List.filterMap_eq_filter]
  apply List.filterMap_congr
  intro c _
  rw [Option.guard, failed_verifyBy]
  cases v.finding check r subject challenge c <;> rfl

/-- A verification tells the messages of its findings. -/
theorem diagnostics_verifyBy : (v.verifyBy check r subject challenge).diagnostics =
    ((v.findings check r subject challenge).map Prod.snd).map Finding.message := by
  have hsnd : (v.findings check r subject challenge).map Prod.snd =
      Check.order.filterMap (v.finding check r subject challenge) := by
    rw [findings, List.map_filterMap]
    apply List.filterMap_congr
    intro c _
    cases v.finding check r subject challenge c <;> rfl
  rw [hsnd]
  rfl

/-! ## What a verification answers -/

end Verifier

/-- What a verification of a report says, in terms of what is checked and not of how. The history
is that of the log, the peer of each entry measured on its own, on top of the subject's own
measurement. -/
structure Verification.Exact (w : Verification) (v : Verifier) (check : SignatureCheck)
    (r : Report) (subject : String) (challenge : Bytes) : Prop where
  signature : w.signatureValid = check v.key r.signedMessage r.signature
  digest : w.digestMatches = true ↔
    ∃ app, v.artifact subject = some app ∧ (Image.mk v.loader v.runtime app).measure = r.digest
  history : w.historyMatches = true ↔ w.digestMatches = true ∧
    ∃ measured events, v.measureReference subject = some measured ∧ v.Remeasures r.log events ∧
      replayHistory measured events = r.history
  platform : w.platformMatches = v.platform.map fun expected => decide (expected = r.platform)
  data : w.dataMatches = true ↔ r.data = challenge
  /-- Trust is that no check which was made failed. -/
  trusted : w.isTrusted = true ↔ ∀ c, w.failed c = false
  silent : w.isTrusted = true ↔ w.diagnostics = []
  /-- One text for each check that failed, in their order, and each says what is wrong. -/
  diagnostics : ∃ findings : List (Check × Finding),
    w.diagnostics = (findings.map Prod.snd).map Finding.message ∧
      findings.map Prod.fst = Check.order.filter w.failed ∧
      ∀ c found, (c, found) ∈ findings ↔ v.Faults check r subject challenge c found

namespace Verifier

variable {v : Verifier} {check : SignatureCheck} {r : Report} {subject : String}
  {challenge : Bytes}

/-- A verification tells nothing if no check failed. -/
theorem diagnostics_eq_nil_iff : (v.verifyBy check r subject challenge).diagnostics = [] ↔
    ∀ c, (v.verifyBy check r subject challenge).failed c = false := by
  rw [diagnostics_verifyBy, List.map_eq_nil_iff, List.map_eq_nil_iff,
    ← List.map_eq_nil_iff (f := Prod.fst), map_fst_findings, List.filter_eq_nil_iff]
  constructor
  · intro hnone c
    exact Bool.eq_false_iff.mpr (hnone c c.mem_order)
  · intro hnone c _
    exact Bool.eq_false_iff.mp (hnone c)

/-- Whatever the report and whoever signed it, a verification tells its faults and nothing else. -/
theorem exact_verifyBy (v : Verifier) (check : SignatureCheck) (r : Report) (subject : String)
    (challenge : Bytes) :
    (v.verifyBy check r subject challenge).Exact v check r subject challenge where
  signature := by
    cases h : check v.key r.signedMessage r.signature <;>
      simp [verifyBy, signatureFinding, checkSignatureBy, h]
  digest := by
    dsimp only [verifyBy]
    rw [Option.isNone_iff_eq_none, digestFinding_eq_none_iff]
    exact Option.map_eq_some_iff
  history := by
    dsimp only [verifyBy]
    rw [Bool.and_eq_true]
    apply and_congr_right
    intro hdigest
    rw [if_pos hdigest, Option.isNone_iff_eq_none, historyFinding_eq_none_iff,
      digestFinding_eq_none_iff.mp (Option.isNone_iff_eq_none.mp hdigest)]
    constructor
    · rintro ⟨events, hevents⟩
      exact ⟨r.digest, events, rfl, hevents⟩
    · rintro ⟨measured, events, hmeasure, hevents⟩
      cases hmeasure
      exact ⟨events, hevents⟩
  platform := by
    dsimp only [verifyBy]
    cases v.platform with
    | none => rfl
    | some expected =>
      rw [Option.map_some, Option.map_some, Option.bind_some, platformFinding]
      split <;> simp_all
  data := by
    dsimp only [verifyBy, dataFinding]
    split <;> simp_all
  trusted := Verification.isTrusted_iff _
  silent := (Verification.isTrusted_iff _).trans diagnostics_eq_nil_iff.symm
  diagnostics := ⟨_, diagnostics_verifyBy, map_fst_findings, fun _ _ => mem_findings_iff⟩

/-- A verification in which every check passed, the platform's if it was made. -/
def flawless (v : Verifier) : Verification :=
  ⟨true, true, true, v.platform.map fun _ => true, true, []⟩

/-- When no check finds anything. -/
theorem verifyBy_eq_flawless (hsignature : v.checkSignatureBy check r = true)
    (hdigest : v.measureReference subject = some r.digest) (hhistory : v.replay r = .ok r.history)
    (hplatform : ∀ expected, v.platform = some expected → expected = r.platform)
    (hdata : r.data = challenge) : v.verifyBy check r subject challenge = v.flawless := by
  have hsignature' : v.signatureFinding check r = none := by simp [signatureFinding, hsignature]
  have hdigest' : v.digestFinding r subject = none := by simp [digestFinding, hdigest]
  have hhistory' : v.historyFinding r = none := by simp [historyFinding, hhistory]
  have hdata' : dataFinding r challenge = none := by simp [dataFinding, hdata]
  cases hexpected : v.platform with
  | none => simp [verifyBy, flawless, hsignature', hdigest', hhistory', hdata', hexpected]
  | some expected =>
    have hplatform' : platformFinding expected r = none := by
      simp [platformFinding, hplatform expected hexpected]
    simp [verifyBy, flawless, hsignature', hdigest', hhistory', hdata', hexpected, hplatform']

/-- With every check passed the report is trusted. -/
theorem isTrusted_flawless (v : Verifier) : v.flawless.isTrusted = true := by
  cases h : v.platform <;> simp [flawless, Verification.isTrusted, h]

/-- What a report is trusted for, the replay of its log and the platform left aside. -/
theorem of_isTrusted (h : (v.verifyBy check r subject challenge).isTrusted = true) :
    check v.key r.signedMessage r.signature = true ∧
      v.measureReference subject = some r.digest ∧ r.data = challenge := by
  have hexact := v.exact_verifyBy check r subject challenge
  simp only [Verification.isTrusted, Bool.and_eq_true] at h
  obtain ⟨⟨⟨⟨hsignature, hdigest⟩, -⟩, -⟩, hdata⟩ := h
  rw [hexact.signature] at hsignature
  exact ⟨hsignature, Option.map_eq_some_iff.mpr (hexact.digest.mp hdigest), hexact.data.mp hdata⟩

end Verifier

end Enclaves
