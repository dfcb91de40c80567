import Enclaves.Proofs.Attestation
import Enclaves.Proofs.Preparation
import Enclaves.Proofs.Verification

/-!
# Honest enclaves pass verification

A verifier holds the loader, the runtime and the application behind each reference, and nothing of
the monitor but its public key. Where every enclave of a run was prepared from these (`Honest`), it
finds every report on any of them right, on the wire and off it.

Two computations have to agree that share no data. The verifier measures images where the monitor
measured memory (`VouchedBy`, from `Prepared.exists_loaded`), and it measures the peers that the log
names where the monitor took the digests that they had when they met (`Verifier.resolve_eq_ok`, from
the replay law). Peers that are gone by now are no different: they were honest when they met.

Of the signature scheme it is asked that a check accepts what the same key signed.
-/

namespace Enclaves

namespace Verifier

variable {v : Verifier}

/-- The events of a log, when each peer is measured as what the history absorbed of it. -/
theorem resolve_eq_ok {meetings : List Meeting}
    (hmeetings : ∀ meeting ∈ meetings,
      v.measureReference meeting.entry.reference.text = some meeting.digest) :
    v.resolve [] (meetings.map Meeting.entry) = .ok (meetings.map Meeting.absorbed) := by
  apply (resolve_eq_ok_iff .nil).mpr
  apply List.forall₂_map_left_iff.mpr
  apply List.forall₂_map_right_iff.mpr
  apply List.forall₂_same.mpr
  intro meeting hmem
  exact ⟨rfl, hmeetings meeting hmem⟩

end Verifier

/-- An enclave that is measured as what a verifier measures under its reference. -/
def Enclave.VouchedBy (e : Enclave) (v : Verifier) : Prop :=
  e.state ≠ .allocated → ∃ digest reference, e.Bears digest reference ∧
    v.measureReference reference.text = some digest

namespace Monitor

variable {m : Monitor} {config : Config} {identity : Identity} {platform : Platform}
  {acts : List Act} {id : EnclaveId} {e : Enclave} {v : Verifier} {moment : Nat}

/-- Every enclave that was ever finalized in a run had been prepared from the verifier's artifacts:
its loader, its runtime, and an application under the reference by which it finds it. -/
def Honest (m : Monitor) (acts : List Act) (v : Verifier) : Prop :=
  ∀ moment id layout digest, acts[moment]? = some (.call (.finalize id layout)) →
    ((m.upTo acts moment).step (.finalize id layout)).1 = .ok (.finalized digest) →
    ∃ loaded reference app, v.artifact reference = some app ∧
      m.Prepared acts id moment loaded ⟨reference, ⟨v.loader, v.runtime, app⟩⟩ layout

/-- A step of a run: what becomes of an enclave that the verifier vouches for. -/
theorem Honest.vouched_step (h : m.Honest acts v) (hstack : ∀ t, (m.upTo acts t).StackSound)
    {act : Act} (hact : acts[moment]? = some act)
    (hbefore : ∀ e, (m.upTo acts moment).enclave? id = some e → e.VouchedBy v)
    (hafter : ((m.upTo acts moment).act act).enclave? id = some e) : e.VouchedBy v := by
  intro hstate
  cases hlive : (m.upTo acts moment).enclave? id with
  | none =>
    -- a new enclave is not measured
    cases follows_of_effect (hstack moment) (effect_act _ act) hafter with
    | born _ hfresh => exact absurd hfresh.state_eq hstate
    | carried hsome _ =>
      rw [hlive] at hsome
      cases hsome
    | met hid hside _ _ =>
      rw [← hid, hside.live] at hlive
      cases hlive
  | some e₀ =>
    cases deed_act (hstack moment) act hlive hafter with
    | kept hkept =>
      obtain ⟨digest, reference, hbears, hmeasure⟩ :=
        hbefore e₀ hlive fun h => hstate (hkept.allocated_iff.mpr h)
      exact ⟨digest, reference, ⟨hstate, hkept.digest_eq.trans hbears.digest_eq,
        hkept.reference_eq.trans hbears.reference_eq⟩, hmeasure⟩
    | setReference _ _ hallocated => exact absurd hallocated hstate
    | load _ _ hallocated => exact absurd hallocated hstate
    | finalize hcall hdone _ hmeasure =>
      rw [hcall] at hact
      obtain ⟨loaded, reference, app, hartifact, hprepared⟩ := h moment id _ _ hact hdone
      obtain ⟨e₁, hlive₁, hloaded⟩ := hprepared.exists_loaded hstack
      obtain rfl := Option.some.inj (hlive₁.symm.trans hlive)
      obtain ⟨known, htext, hreference⟩ := hloaded.reference_eq
      refine ⟨_, known, ⟨hstate, rfl, hreference⟩, ?_⟩
      rw [Reference.text_of_ofString htext, Verifier.measureReference, hartifact,
        hloaded.measure_eq hmeasure]
      rfl

/-- At every moment of an honest run the verifier vouches for every enclave. -/
theorem Honest.vouched (h : m.Honest acts v)
    (hstart : Monitor.start config platform identity = .ok m) (moment : Nat) :
    ∀ id e, (m.upTo acts moment).enclave? id = some e → e.VouchedBy v := by
  have hstack := stackSound_upTo hstart acts
  induction moment with
  | zero =>
    intro id e hlive
    rw [upTo, List.take_zero, perform_nil, enclave?_start hstart] at hlive
    cases hlive
  | succ moment ih =>
    intro id e hlive
    rcases m.upTo_succ_cases acts moment with ⟨act, hact, hsucc⟩ | hover
    · rw [hsucc] at hlive
      exact h.vouched_step hstack hact (ih id) hlive
    · exact ih id e (hover ▸ hlive)

/-- Up to a moment before its end a run is as it would be without the end. -/
theorem upTo_take {t : Nat} (h : t ≤ moment) :
    m.upTo (acts.take moment) t = m.upTo acts t := by
  rw [upTo, upTo, List.take_take, Nat.min_eq_left h]

/-- The verifier measures every peer as what it was when it was met. -/
theorem Honest.measures_peers (h : m.Honest acts v)
    (hstart : Monitor.start config platform identity = .ok m) {meetings : List Meeting}
    (haccount : m.Account (acts.take moment) id meetings) :
    ∀ meeting ∈ meetings,
      v.measureReference meeting.entry.reference.text = some meeting.digest := by
  intro meeting hmem
  obtain ⟨k, hk⟩ := List.getElem?_of_mem hmem
  have hhappened := haccount.happened k meeting hk
  have hthen : meeting.moment ≤ moment :=
    Nat.le_trans (Nat.le_of_lt hhappened.moment_lt) (List.length_take_le _ _)
  obtain ⟨f, hpeer, hbears⟩ := hhappened.peer_before
  rw [upTo_take hthen] at hpeer
  obtain ⟨digest, reference, hbears', hmeasure⟩ :=
    h.vouched hstart meeting.moment _ f hpeer hbears.state_ne
  obtain rfl := Option.some.inj (hbears.digest_eq.symm.trans hbears'.digest_eq)
  obtain rfl := Option.some.inj (hbears.reference_eq.symm.trans hbears'.reference_eq)
  exact hmeasure

/-- Attestation is complete. Take a run in which every enclave that was ever finalized had been
prepared from a verifier's artifacts, and let the verifier have the monitor's public key and, if it
looks at the platform, the monitor's platform digest. At every moment, every measured enclave can be
attested with any data that the configuration admits. The report is read back from its wire form,
and for the enclave's own reference and that data every check of it passes. -/
theorem honest_reports_are_trusted (check : SignatureCheck)
    (hstart : Monitor.start config platform identity = .ok m)
    (hcapacity : config.logCapacity < UInt32.size)
    (hkey : v.key = identity.key.publicKey)
    (hplatform : ∀ expected, v.platform = some expected → expected = identity.platform)
    (haccepts : ∀ message,
      check identity.key.publicKey message (identity.key.sign message) = true)
    (hhonest : m.Honest acts v) (moment : Nat) (id : EnclaveId) (e : Enclave) (nonce : Bytes)
    (hlive : (m.upTo acts moment).enclave? id = some e) (hmeasured : e.state.isMeasured = true)
    (hnonce : nonce.length ≤ config.attestDataMax) :
    ∃ report reference, e.reference = some reference ∧
      (m.upTo acts moment).attest id nonce = .ok report ∧
      Report.decode report.encode = .ok report ∧
      v.verifyBy check report reference.text nonce = v.flawless ∧
      (v.verifyBy check report reference.text nonce).isTrusted = true := by
  have hstate : e.state ≠ .allocated := by
    intro hstate
    rw [hstate] at hmeasured
    cases hmeasured
  have hfounded := Founded.of_start hstart (acts.take moment)
  obtain ⟨digest, reference, hbears, hmeasure⟩ := hhonest.vouched hstart moment id e hlive hstate
  obtain ⟨meetings, hrecounts, haccount⟩ :=
    (MemorySound.start hstart).exists_account (enclave?_start hstart) (acts.take moment) hlive
  obtain ⟨_, hdigest, hhistory⟩ := hrecounts.measured hstate
  obtain rfl := Option.some.inj (hbears.digest_eq.symm.trans hdigest)
  have hidentity : (m.upTo acts moment).identity = identity := hfounded.identity_eq
  have hattest := attest_eq_ok_iff.mpr ⟨e, digest, _, hlive, hmeasured, hdigest, hhistory,
    hfounded.config_eq.symm ▸ hnonce, rfl⟩
  rw [hidentity] at hattest
  have hreplay : v.resolve [] e.log.entries = .ok (meetings.map Meeting.absorbed) := by
    rw [hrecounts.entries_eq]
    exact Verifier.resolve_eq_ok (hhonest.measures_peers hstart haccount)
  have hflawless : v.verifyBy check (.issue identity.key digest
      (replayHistory digest (meetings.map Meeting.absorbed)) e.log.entries identity.platform nonce)
      reference.text nonce = v.flawless := by
    refine Verifier.verifyBy_eq_flawless ?_ hmeasure ?_ hplatform rfl
    · rw [Verifier.checkSignatureBy, hkey]
      exact haccepts _
    · exact congrArg _ hreplay
  refine ⟨_, reference, hbears.reference_eq, hattest, Report.decode_encode ?_, hflawless, ?_⟩
  · exact hfounded.sized_of_attest (valid_of_start hstart) hcapacity hattest
  · rw [hflawless]
    exact v.isTrusted_flawless

/-- Two enclaves are loaded, finalized and connected. A verifier that takes for signed what the key
signs finds the report on the first one right. -/
theorem honest_reports_are_trusted_default :
    let identity : Identity := ⟨⟨⟨List.replicate 32 7, rfl⟩⟩, ⟨⟨List.replicate 64 9, rfl⟩⟩⟩
    let first : Image := ⟨[1], [2], [3]⟩
    let second : Image := ⟨[1], [2], [4]⟩
    let acts : List Act := [.call (.allocate 3), .call (.allocate 3),
      .call (.load ⟨0, 1⟩ ⟨"a", first⟩), .call (.finalize ⟨0, 1⟩ (first.layoutAt 0x80000000)),
      .call (.load ⟨1, 1⟩ ⟨"b", second⟩), .call (.finalize ⟨1, 1⟩ (second.layoutAt 0x80045000)),
      .call (.connect ⟨0, 1⟩ ⟨1, 1⟩)]
    let v : Verifier := ⟨identity.key.publicKey, [1], [2],
      fun reference => if reference = "a" then some [3] else some [4], some identity.platform⟩
    let check : SignatureCheck := fun _ message signature =>
      decide (signature = identity.key.sign message)
    ∃ m, Monitor.start {} .initial identity = .ok m ∧ m.Honest acts v ∧
      ∃ report, (m.perform acts).attest ⟨0, 1⟩ [5, 6] = .ok report ∧
        Report.decode report.encode = .ok report ∧ report.log.length = 1 ∧
        v.verifyBy check report "a" [5, 6] = ⟨true, true, true, some true, true, []⟩ := by
  intro identity first second acts v check
  obtain ⟨m, hstart⟩ : ∃ m, Monitor.start {} .initial identity = .ok m := ⟨_, rfl⟩
  have hfirst : ((m.upTo acts 2).load ⟨0, 1⟩ ⟨"a", first⟩).1 =
        .ok (first.layoutAt 0x80000000) ∧
      ((m.upTo acts 3).enclave? ⟨0, 1⟩).isSome = true := by
    cases hstart
    decide
  have hsecond : ((m.upTo acts 4).load ⟨1, 1⟩ ⟨"b", second⟩).1 =
        .ok (second.layoutAt 0x80045000) ∧
      ((m.upTo acts 5).enclave? ⟨1, 1⟩).isSome = true := by
    cases hstart
    decide
  have hlast : ((m.upTo acts 7).enclave? ⟨0, 1⟩).map (fun e =>
      (e.state, e.reference.map Reference.text, e.log.entries.length)) =
        some (.finalized, some "a", 1) := by
    cases hstart
    decide
  have hhonest : m.Honest acts v := by
    intro moment id layout digest hact hdone
    rcases moment with _ | _ | _ | _ | _ | _ | _ | moment <;> cases hact
    · refine ⟨2, "a", [3], rfl, by decide, rfl, congrArg (Except.map Reply.loaded) hfirst.1, ?_,
        fun t _ _ hfrom hto => by omega, fun t _ hfrom hto => by omega⟩
      intro t hfrom hto
      obtain rfl : t = 3 := by omega
      exact hfirst.2
    · refine ⟨4, "b", [4], rfl, by decide, rfl, congrArg (Except.map Reply.loaded) hsecond.1, ?_,
        fun t _ _ hfrom hto => by omega, fun t _ hfrom hto => by omega⟩
      intro t hfrom hto
      obtain rfl : t = 5 := by omega
      exact hsecond.2
  obtain ⟨e, hlive, hfacts⟩ := Option.map_eq_some_iff.mp hlast
  simp only [Prod.mk.injEq] at hfacts
  obtain ⟨hstate, htext, hlength⟩ := hfacts
  obtain ⟨report, reference, hreference, hattest, hdecode, hflawless, -⟩ :=
    honest_reports_are_trusted check hstart (by decide) rfl (by rintro _ ⟨⟩; rfl)
      (fun message => by simp [check]) hhonest 7 ⟨0, 1⟩ e [5, 6] hlive (by rw [hstate]; rfl)
      (by decide)
  rw [hreference, Option.map_some, Option.some.injEq] at htext
  rw [htext] at hflawless
  refine ⟨m, hstart, hhonest, report, hattest, hdecode, ?_, hflawless⟩
  obtain ⟨f, _, _, hlive', -, -, -, -, rfl⟩ := attest_eq_ok_iff.mp hattest
  obtain rfl := Option.some.inj (hlive'.symm.trans hlive)
  exact hlength

end Monitor

end Enclaves
