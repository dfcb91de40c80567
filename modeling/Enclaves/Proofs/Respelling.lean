import Enclaves.Proofs.Grammar

/-!
# Reports spelled in another way

A report is not tied to one byte string. Where its entries have bytes that mean nothing, any other
bytes may stand, and since a signature is checked over what the report is written as again, nothing
that is done to these bytes is noticed.

This is how far it goes (`respelled_in_idle_bytes`): every other change to a byte string that is a
report leads to a refusal or to a report with another message or another signature. And the bytes
that a report is written as are those it was read from if all that means nothing is zero, and only
then.
-/

namespace Enclaves

namespace WireEntry

/-- All that means nothing is zero. -/
def Idle (w : WireEntry) : Prop :=
  w.reserved.toBytes = Bytes.zeros 7 ∧ w.rest = Bytes.zeros w.rest.length

variable {w : WireEntry}

/-- With its idle bytes clear already, an entry is as it was. -/
theorem Idle.cleared_eq (h : w.Idle) : w.cleared = w := by
  obtain ⟨index, generation, code, ⟨reserved, hlength⟩, text, rest⟩ := w
  obtain ⟨hreserved, hrest⟩ := h
  dsimp only at hreserved hrest
  subst hreserved
  rw [cleared, ← hrest]

/-- Clearing bytes removes none. -/
theorem length_bytes_cleared (w : WireEntry) : w.cleared.bytes.length = w.bytes.length := by
  simp [bytes, field, cleared]

/-- Where clearing changes no byte, the idle bytes were clear. -/
theorem idle_of_bytes_cleared (h : w.cleared.bytes = w.bytes) : w.Idle := by
  have hbehind := List.append_cancel_left (List.append_cancel_left h)
  obtain ⟨hreserved, hfield⟩ :=
    List.append_inj (List.cons_inj_right _ |>.mp hbehind) (by simp [cleared])
  have hrest := List.cons_inj_right _ |>.mp (List.append_cancel_left hfield)
  exact ⟨hreserved.symm, hrest.symm⟩

/-- That can be told from all entries in a row, as they have one length. -/
theorem idle_of_flatten_cleared {entries : List WireEntry}
    (h : ((entries.map cleared).map bytes).flatten = (entries.map bytes).flatten) :
    ∀ entry ∈ entries, entry.Idle := by
  induction entries with
  | nil => simp
  | cons entry entries ih =>
    -- every piece keeps its length, so pieces stand against each other
    obtain ⟨hentry, hentries⟩ := List.append_inj h entry.length_bytes_cleared
    exact List.forall_mem_cons.mpr ⟨idle_of_bytes_cleared hentry, ih hentries⟩

end WireEntry

namespace WireReport

/-- All that means nothing is zero. -/
def Idle (w : WireReport) : Prop := ∀ entry ∈ w.entries, entry.Idle

variable {w w' : WireReport} {r r' : Report}

/-- A report is spelled as it is written again exactly if all idle bytes are clear. -/
theorem bytes_cleared_eq_iff : w.cleared.bytes = w.bytes ↔ w.Idle := by
  constructor
  · intro h
    have hbehind := List.append_cancel_left (List.append_cancel_left h)
    rw [cleared, List.length_map] at hbehind
    exact WireEntry.idle_of_flatten_cleared
      (List.append_cancel_right (List.append_cancel_left hbehind))
  · intro h
    have hentries : w.entries.map WireEntry.cleared = w.entries :=
      List.map_congr_left (fun entry hmem => (h entry hmem).cleared_eq) |>.trans (List.map_id _)
    rw [cleared, hentries]

/-- Parts are read as one report if they differ in nothing but what means nothing. -/
theorem eq_iff_bytes_cleared (h : w.Reads r) (h' : w'.Reads r') (hproper : w.Proper)
    (hproper' : w'.Proper) : r' = r ↔ w'.cleared.bytes = w.cleared.bytes := by
  rw [← h.encode_eq hproper, ← h'.encode_eq hproper']
  constructor
  · rintro rfl
    rfl
  · intro hencode
    have hread := Report.decode_encode (h.sized hproper)
    rw [← hencode, Report.decode_encode (h'.sized hproper')] at hread
    cases hread
    rfl

end WireReport

/-- Reports that are not the same have different messages or different signatures. -/
theorem Report.signedMessage_ne_or {r r' : Report} (h : r.Sized) (h' : r'.Sized) (hne : r' ≠ r) :
    r'.signedMessage ≠ r.signedMessage ∨ r'.signature ≠ r.signature := by
  by_cases hmessage : r'.signedMessage = r.signedMessage
  · refine .inr fun hsignature => hne ?_
    obtain ⟨hdigest, hhistory, hlog, hplatform, hdata⟩ := signedMessage_inj h' h hmessage
    obtain ⟨digest, history, log, platform, signature, data⟩ := r
    obtain ⟨digest', history', log', platform', signature', data'⟩ := r'
    exact Report.mk.injEq .. |>.mpr ⟨hdigest, hhistory, hlog, hplatform, hsignature, hdata⟩
  · exact .inl hmessage

/-- What becomes of a byte string that is a report when bytes of it are changed. Writing the report
again clears all that means nothing, so it gives the same bytes just where that was clear. Any other
byte string is refused, or it is the same report and differs in bytes that mean nothing, or it is
another report, with another message or another signature to check. -/
theorem respelled_in_idle_bytes {bytes : Bytes} {r : Report} (h : Report.decode bytes = .ok r) :
    ∃ w : WireReport, w.Proper ∧ w.bytes = bytes ∧ r.encode = w.cleared.bytes ∧
      (r.encode = bytes ↔ w.Idle) ∧
      ∀ other, (∃ fault, Report.decode other = .error fault) ∨
        ∃ (w' : WireReport) (r' : Report), w'.Proper ∧ w'.bytes = other ∧
          Report.decode other = .ok r' ∧
          (r' = r ↔ w'.cleared.bytes = w.cleared.bytes) ∧
          (r' ≠ r → r'.signedMessage ≠ r.signedMessage ∨ r'.signature ≠ r.signature) := by
  obtain ⟨w, hproper, hreads, rfl⟩ := Report.decode_eq_ok_iff.mp h
  have hencode := hreads.encode_eq hproper
  refine ⟨w, hproper, rfl, hencode, by rw [hencode, WireReport.bytes_cleared_eq_iff], ?_⟩
  intro other
  cases hother : Report.decode other with
  | error fault => exact .inl ⟨fault, rfl⟩
  | ok r' =>
    obtain ⟨w', hproper', hreads', rfl⟩ := Report.decode_eq_ok_iff.mp hother
    refine .inr ⟨w', r', hproper', rfl, rfl, ?_, ?_⟩
    · exact WireReport.eq_iff_bytes_cleared hreads hreads' hproper hproper'
    · exact Report.signedMessage_ne_or (hreads.sized hproper) (hreads'.sized hproper')

/-- A report with a spot in an idle byte is read, and written again without it. -/
theorem respelled_in_idle_bytes_spotted :
    ∃ (r : Report) (w : WireReport), Report.decode spotted.bytes = .ok r ∧
      w.bytes = spotted.bytes ∧ r.encode = w.cleared.bytes := by
  obtain ⟨r, hreads⟩ := spotted_proper.exists_reads
  have hdecode := Report.decode_eq_ok_iff.mpr ⟨spotted, spotted_proper, hreads, rfl⟩
  obtain ⟨w, -, hbytes, hencode, -⟩ := respelled_in_idle_bytes hdecode
  exact ⟨r, w, hdecode, hbytes, hencode⟩

/-- Two byte strings that are one report, and only one of them is what the report is written as. -/
theorem two_spellings_of_one_report :
    ∃ bytes other r, bytes ≠ other ∧ Report.decode bytes = .ok r ∧ Report.decode other = .ok r ∧
      r.encode = other ∧ r.encode ≠ bytes := by
  obtain ⟨r, hreads⟩ := spotted_proper.exists_reads
  have hdecode := Report.decode_eq_ok_iff.mpr ⟨spotted, spotted_proper, hreads, rfl⟩
  have hback := Report.decode_encode (hreads.sized spotted_proper)
  have hne : r.encode ≠ spotted.bytes := by
    rw [hreads.encode_eq spotted_proper]
    intro heq
    have hidle := WireReport.bytes_cleared_eq_iff.mp heq _ (List.mem_singleton.mpr rfl)
    exact absurd hidle.1 (by decide)
  exact ⟨spotted.bytes, r.encode, r, hne.symm, hdecode, hback, rfl, hne⟩

end Enclaves
