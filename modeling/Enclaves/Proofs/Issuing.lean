import Enclaves.Proofs.Lifetime
import Enclaves.Proofs.Stale

/-!
# Handles that come and go

A handle comes to reach an enclave by the call that answers it, and in no other way
(`issues_of_arrival`); it stops reaching one by a call that ends the enclave, and in no other way
(`endsAt_of_departure`). So what a handle reaches at some moment is told by the calls before it.

Neither asks that a run stay inside the words of a handle: an enclave in a place that no handle
names comes and goes without any handle.
-/

namespace Enclaves

namespace Monitor

variable {m m' : Monitor} {act : Act} {id other : EnclaveId}

/-! ## One act -/

/-- Only the handle for the slot that was taken comes to reach anything. -/
theorem Takes.eq_of_arrival (h : m.Takes m' id) (hnone : m.enclave? other = none)
    (hlive : (m'.enclave? other).isSome = true) : other = id := by
  have hnot : m.register[other.index.toNat]? ≠ some (other.generation, true) := by
    intro hbefore
    have hsome := isSome_enclave?_iff.mpr hbefore
    rw [hnone] at hsome
    cases hsome
  rw [isSome_enclave?_iff] at hlive
  obtain ⟨index, generation⟩ := other
  cases h with
  | again rest _ hvacant hregister _ =>
    rw [hregister] at hlive
    by_cases hindex : id.index.toNat = index.toNat
    · rw [← hindex, List.getElem?_set_self (List.getElem?_eq_some_iff.mp hvacant).1] at hlive
      obtain ⟨index', generation'⟩ := id
      obtain rfl := UInt32.toNat_inj.mp hindex
      cases hlive
      rfl
    · rw [List.getElem?_set_ne hindex] at hlive
      exact absurd hlive hnot
  | first _ hid hregister _ =>
    rw [hregister] at hlive
    rcases getElem?_concat_cases hlive with ⟨-, hold⟩ | ⟨hindex, hsign⟩
    · exact absurd hold hnot
    · have hindex : index.toNat = m.register.length := hindex
      rw [hid] at hsign ⊢
      cases hsign
      rw [← hindex, UInt32.ofNat_toNat]
      rfl

/-- A handle comes to reach an enclave by the call that answers it. -/
theorem allocated_of_arrival (hstack : m.StackSound) (hnone : m.enclave? id = none)
    (hlive : ((m.act act).enclave? id).isSome = true) :
    ∃ minPages, act = .call (.allocate minPages) ∧
      (m.step (.allocate minPages)).1 = .ok (.allocated id) := by
  obtain ⟨e, he⟩ := Option.isSome_iff_exists.mp hlive
  rcases holds_act hstack ((holds_iff_enclave? ⟨rfl, rfl⟩).mpr he) with
    ⟨-, minPages, _, _, _, rfl, -⟩ | ⟨f, hbefore, -⟩
  · refine ⟨minPages, rfl, ?_⟩
    rcases allocate_cases m minPages with ⟨_, hcall⟩ | ⟨_, pages, -, hcall⟩ |
      ⟨exclusive, untrusted, connector, pages, -, hcall⟩
    · have hafter : m.act (.call (.allocate minPages)) = m := congrArg Prod.snd hcall
      rw [hafter, hnone] at hlive
      cases hlive
    · have hafter : m.act (.call (.allocate minPages)) = { m with pages } := congrArg Prod.snd hcall
      have hsame : (m.act (.call (.allocate minPages))).enclave? id = m.enclave? id := by
        rw [hafter]
        rfl
      rw [hsame, hnone] at hlive
      cases hlive
    · have hafter : m.act (.call (.allocate minPages)) =
          (m.enroll exclusive untrusted connector pages).2 := congrArg Prod.snd hcall
      rw [hafter] at hlive
      rw [(takes_enroll hstack exclusive untrusted connector pages).eq_of_arrival hnone hlive]
      show (answer _ (m.allocate minPages)).1 = _
      rw [hcall]
      rfl
  · rw [(holds_iff_enclave? ⟨rfl, rfl⟩).mp hbefore] at hnone
    cases hnone

/-- A handle stops reaching an enclave by a call that ends it. -/
theorem ends_of_departure (hstack : m.StackSound) (hlive : (m.enclave? id).isSome = true)
    (hgone : (m.act act).enclave? id = none) : m.Ends act id := by
  obtain ⟨e, he⟩ := Option.isSome_iff_exists.mp hlive
  have hfate := fate_act hstack act he
  rw [hgone] at hfate
  cases hfate with
  | ended hends => exact hends

/-! ## Whole runs -/

/-- The enclave of a handle ends at some moment of a run. -/
def EndsAt (m : Monitor) (acts : List Act) (moment : Nat) (id : EnclaveId) : Prop :=
  ∃ act, acts[moment]? = some act ∧ (m.upTo acts moment).Ends act id

/-- A handle was given out before some moment of a run. -/
def IssuedBy (m : Monitor) (acts : List Act) (moment : Nat) (id : EnclaveId) : Prop :=
  ∃ earlier, earlier < moment ∧ m.Issues acts earlier id

/-- A handle that was given out stays one that was. -/
theorem IssuedBy.succ {acts : List Act} {moment : Nat} (h : m.IssuedBy acts moment id) :
    m.IssuedBy acts (moment + 1) id := by
  obtain ⟨earlier, hlt, hissues⟩ := h
  exact ⟨earlier, Nat.lt_succ_of_lt hlt, hissues⟩

section Run

variable {config : Config} {platform : Platform} {identity : Identity} {acts : List Act}
  {moment first last : Nat}

/-- A handle that reaches an enclave all at once was given out just then. -/
theorem issues_of_arrival (hstart : Monitor.start config platform identity = .ok m)
    (hnone : (m.upTo acts moment).enclave? id = none)
    (hlive : ((m.upTo acts (moment + 1)).enclave? id).isSome = true) :
    m.Issues acts moment id := by
  rcases m.upTo_succ_cases acts moment with ⟨act, hact, hsucc⟩ | hover
  · rw [hsucc] at hlive
    obtain ⟨minPages, rfl, hanswer⟩ :=
      allocated_of_arrival (stackSound_upTo hstart acts moment) hnone hlive
    exact ⟨minPages, hact, hanswer⟩
  · rw [hover, hnone] at hlive
    cases hlive

/-- An enclave that is gone all at once was ended just then. -/
theorem endsAt_of_departure (hstart : Monitor.start config platform identity = .ok m)
    (hlive : ((m.upTo acts moment).enclave? id).isSome = true)
    (hgone : (m.upTo acts (moment + 1)).enclave? id = none) : m.EndsAt acts moment id := by
  rcases m.upTo_succ_cases acts moment with ⟨act, hact, hsucc⟩ | hover
  · rw [hsucc] at hgone
    exact ⟨act, hact, ends_of_departure (stackSound_upTo hstart acts moment) hlive hgone⟩
  · rw [← hover, hgone] at hlive
    cases hlive

/-- What a handle reaches, it was given out for. -/
theorem issuedBy_of_live (hstart : Monitor.start config platform identity = .ok m)
    (hlive : ((m.upTo acts moment).enclave? id).isSome = true) : m.IssuedBy acts moment id := by
  induction moment with
  | zero =>
    have hnone : (m.upTo acts 0).enclave? id = none := enclave?_start hstart id
    rw [hnone] at hlive
    cases hlive
  | succ moment ih =>
    by_cases hbefore : ((m.upTo acts moment).enclave? id).isSome = true
    · exact (ih hbefore).succ
    · rw [Option.not_isSome_iff_eq_none] at hbefore
      exact ⟨moment, Nat.lt_succ_self moment, issues_of_arrival hstart hbefore hlive⟩

/-- What a handle has stopped reaching has ended in between. -/
theorem exists_endsAt_of_gone (hstart : Monitor.start config platform identity = .ok m)
    (hle : first ≤ last) (hlive : ((m.upTo acts first).enclave? id).isSome = true)
    (hgone : (m.upTo acts last).enclave? id = none) :
    ∃ moment, first ≤ moment ∧ moment < last ∧ m.EndsAt acts moment id := by
  induction hle with
  | refl =>
    rw [hgone] at hlive
    cases hlive
  | @step last hle ih =>
    cases hbefore : (m.upTo acts last).enclave? id with
    | none =>
      obtain ⟨moment, hfrom, hto, hends⟩ := ih hbefore
      exact ⟨moment, hfrom, Nat.lt_succ_of_lt hto, hends⟩
    | some e =>
      have hsome : ((m.upTo acts last).enclave? id).isSome = true := by rw [hbefore]; rfl
      exact ⟨last, hle, Nat.lt_succ_self last, endsAt_of_departure hstart hsome hgone⟩

/-- An enclave is there until it ends. -/
theorem EndsAt.live (h : m.EndsAt acts moment id) :
    ((m.upTo acts moment).enclave? id).isSome = true ∧
      (m.upTo acts (moment + 1)).enclave? id = none := by
  obtain ⟨act, hact, hends⟩ := h
  obtain ⟨⟨e, hlive⟩, hgone⟩ := hends.live
  rw [upTo_succ hact]
  exact ⟨by rw [hlive]; rfl, hgone⟩

end Run

end Monitor

end Enclaves
