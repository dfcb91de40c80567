import Enclaves.Proofs.Locality

/-!
# Independent calls commute

Two calls that name different enclaves can be made in either order: both answer the same, and the
monitor is the same afterwards, with its logs and histories, the order of links and mappings, the
free list and the stack of cleared slots.

One of the two may be a call in which an enclave can end, but not both: two entries are recorded in
their order, and two enclaves that go leave their slots on the stack in theirs. An allocation is no
independent call at all, since it takes what others leave.

Each call finds the records it names as they were before the other one, but for the links to an
enclave that has gone; so it makes the same stroke (`Alike.mirrors`), and the two strokes can be
made in either order (`strike_write`). The mappings are taken from the links at the end, which is
where it is needed that the monitor can be reached.
-/

namespace Enclaves

@[simp] theorem Stroke.without_none (stroke : Stroke) : stroke.without none = stroke := by
  cases stroke with
  | write records =>
    show write (records.map fun record => record) = _
    rw [List.map_id']
  | enter id e entry => rfl
  | remove id entry => rfl

namespace Monitor

variable {m : Monitor} {f g : Call}

/-- Two calls that can be made in either order. -/
structure Commutes (m : Monitor) (f g : Call) : Prop where
  first_answer : ((m.step g).2.step f).1 = (m.step f).1
  second_answer : ((m.step f).2.step g).1 = (m.step g).1
  after : ((m.step f).2.step g).2 = ((m.step g).2.step f).2

/-- Of two calls that commute either may be the first. -/
theorem Commutes.symm (h : m.Commutes f g) : m.Commutes g f :=
  ⟨h.second_answer, h.first_answer, h.after.symm⟩

/-- A call that only writes records commutes with any other. -/
theorem Reachable.commutes_of_quiet (h : m.Reachable) (hf : f.allocates = false)
    (hg : g.allocates = false) (hquiet : g.mayEnd = false)
    (hapart : ∀ id ∈ f.names, id ∉ g.names) :
    m.Commutes f g := by
  obtain ⟨_, _, hfirst⟩ := m.exists_does hg
  -- after `g` the call `f` finds its records as they were
  have hlike := hfirst.alike hapart
  rw [hfirst.gone_eq_none hquiet] at hlike
  obtain ⟨_, strokeF, hF, hF'⟩ := hlike.mirrors hf
  rw [Stroke.without_none] at hF'
  -- after `f` the call `g` finds them without the links to the enclave that went
  obtain ⟨_, strokeG, hG, hG'⟩ := (hF.alike fun id hid hid' => hapart id hid' hid).mirrors hg
  obtain ⟨records, rfl⟩ := hG.quiet hquiet
  refine ⟨hF'.answer_eq.trans hF.answer_eq.symm, hG'.answer_eq.trans hG.answer_eq.symm, ?_⟩
  have hsoundF : ((m.step f).2.step g).2.Sound := ((h.act (.call f)).act (.call g)).sound
  have hsoundG : ((m.step g).2.step f).2.Sound := ((h.act (.call g)).act (.call f)).sound
  refine hsoundF.eq_of_unmapped hsoundG ?_
  have hmeet : ∀ id ∈ records.map Prod.fst, id ∉ strokeF.targets := fun id hid hid' =>
    hapart id (hF.named id hid') (hG.named id hid)
  calc ((m.step f).2.step g).2.unmapped
      = ((m.step f).2.strike ((Stroke.write records).without strokeF.gone)).unmapped := hG'.after_eq
    _ = ((m.strike strokeF).strike ((Stroke.write records).without strokeF.gone)).unmapped :=
        strike_congr hF.after_eq _
    _ = ((m.strike (.write records)).strike strokeF).unmapped :=
      strike_write hF.lands hG.lands hmeet
    _ = ((m.step g).2.strike strokeF).unmapped := (strike_congr hG.after_eq strokeF).symm
    _ = ((m.step g).2.step f).2.unmapped := hF'.after_eq.symm

/-- Two calls that name different enclaves commute, if an enclave can end in one of them at most. -/
theorem independent_calls_commute (h : m.Reachable) (hf : f.allocates = false)
    (hg : g.allocates = false) (hapart : ∀ id ∈ f.names, id ∉ g.names)
    (hquiet : f.mayEnd = false ∨ g.mayEnd = false) : m.Commutes f g := by
  rcases hquiet with hquiet | hquiet
  · exact (h.commutes_of_quiet hg hf hquiet fun id hid hid' => hapart id hid' hid).symm
  · exact h.commutes_of_quiet hf hg hquiet hapart

/-- Of three enclaves the first is destroyed while its peer is connected to the third. -/
theorem independent_calls_commute_default :
    ∃ m, Monitor.start {} .initial ⟨⟨⟨List.replicate 32 7, rfl⟩⟩, ⟨⟨List.replicate 64 9, rfl⟩⟩⟩ =
        .ok m ∧
      let before := m.perform [.call (.allocate 3), .call (.allocate 3), .call (.allocate 3),
        .call (.setReference ⟨0, 1⟩ "a"), .call (.setReference ⟨1, 1⟩ "b"),
        .call (.setReference ⟨2, 1⟩ "c"),
        .call (.finalize ⟨0, 1⟩ ⟨0x80000000, 0x80001000, 0x80002000, 0x80003000⟩),
        .call (.finalize ⟨1, 1⟩ ⟨0x80045000, 0x80046000, 0x80047000, 0x80048000⟩),
        .call (.finalize ⟨2, 1⟩ ⟨0x8008A000, 0x8008B000, 0x8008C000, 0x8008D000⟩),
        .call (.connect ⟨0, 1⟩ ⟨1, 1⟩)]
      (before.step (.destroy ⟨0, 1⟩)).1 = .ok (.gone .destroyed) ∧
      (before.step (.connect ⟨1, 1⟩ ⟨2, 1⟩)).1 = .ok .done ∧
      before.Commutes (.destroy ⟨0, 1⟩) (.connect ⟨1, 1⟩ ⟨2, 1⟩) := by
  obtain ⟨m, hstart⟩ : ∃ m, Monitor.start {} .initial
    ⟨⟨⟨List.replicate 32 7, rfl⟩⟩, ⟨⟨List.replicate 64 9, rfl⟩⟩⟩ = .ok m := ⟨_, rfl⟩
  have hreachable : m.Reachable := .start (fun _ => rfl) hstart
  have hapart : ∀ id ∈ (Call.destroy ⟨0, 1⟩).names, id ∉ (Call.connect ⟨1, 1⟩ ⟨2, 1⟩).names := by
    decide
  refine ⟨m, hstart, ?_, ?_,
    independent_calls_commute (hreachable.perform _) rfl rfl hapart (.inr rfl)⟩
  · cases hstart
    rfl
  · cases hstart
    rfl

end Monitor

end Enclaves
