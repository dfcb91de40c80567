import Enclaves.Proofs.Accord
import Enclaves.Proofs.Arithmetic

/-!
# Both records or neither

`commit` lets two records absorb an event. It trusts none of the checks that ran before it: the
handles may be stale by now or lie behind the end of the table, and either log may have filled up.
So what is proved here is about every state of a monitor, reached or not, and about any two sides:
an event that is refused leaves the monitor as it was, and an event that is done landed on both
records (`Atomic`).

The records are changed where they stand. To hold two of them at once the table is cut in front of
the higher slot, and what is found in the two parts is handed back in the order of the call;
`commitAt` writes this out, change by change, and no place of it lies outside the table. The entry
that is taken back when the second log is full is the one that was just pushed, whichever of the two
slots is the higher one.
-/

namespace Enclaves

/-! ## Change by change -/

/-- Check that a slot holds the enclave of a handle. -/
def Slot.checkLive (slot : Slot) (id : EnclaveId) : Ranged MonitorError Unit :=
  if slot.occupant.isSome ∧ slot.generation = id.generation then return ()
  else throw (.invalidHandle id)

namespace Monitor

/-- The table in front of a place and behind it. The place may not lie behind the end. -/
def cutAt (m : Monitor) (place : Nat) : Option (List Slot × List Slot) :=
  if place ≤ m.slots.length then some (m.slots.take place, m.slots.drop place) else none

/-- The places of the enclaves of two handles, the first in the lower slot: one lies in the part in
front of the higher slot, the other is the first of the part behind. -/
def locateAt (m : Monitor) (low high : EnclaveId) : Ranged MonitorError (Nat × Nat) :=
  if m.slots.length ≤ high.index.toNat then throw (.invalidHandle high)
  else do
    let (front, behind) ← m.cutAt high.index.toNat
    let slot ← (front[low.index.toNat]? : Option Slot)
    slot.checkLive low
    let slot ← (behind[0]? : Option Slot)
    slot.checkLive high
    return (low.index.toNat, front.length)

/-- The places of the enclaves of two handles, in the order of the handles. -/
def placesAt (m : Monitor) (a b : EnclaveId) : Ranged MonitorError (Nat × Nat) :=
  if a.index = b.index then throw (.invalidArgument (.sharedSlot a b))
  else
    let (low, high) := if a.index < b.index then (a, b) else (b, a)
    do
      let (placeLow, placeHigh) ← m.locateAt low high
      return if a.index < b.index then (placeLow, placeHigh) else (placeHigh, placeLow)

/-- Change the enclave at a place. -/
def editAt (m : Monitor) (place : Nat) (change : Enclave → Enclave) : Option Monitor := do
  let slot ← m.slots[place]?
  let e ← slot.occupant
  return { m with slots := m.slots.set place { slot with occupant := some (change e) } }

/-- Push an entry to the log of the enclave at a place. A log that is full answers its capacity. -/
def pushAt (m : Monitor) (place : Nat) (entry : PeerDescriptor) : Option (Except Nat Monitor) := do
  let slot ← m.slots[place]?
  let e ← slot.occupant
  match e.log.push entry with
  | .error _ => return .error e.log.capacity
  | .ok log => .ok <$> m.editAt place ({ · with log })

/-- Let the enclaves at two places absorb an event. -/
def absorbAt (m : Monitor) (placeA placeB : Nat) (sideA sideB : Side) (event : Event) :
    Option (Except MonitorError Unit × Monitor) := do
  match ← m.pushAt placeA sideA.entry with
  | .error capacity => return (.error (.logFull sideA.id capacity), m)
  | .ok first =>
    match ← first.pushAt placeB sideB.entry with
    | .error capacity =>
      let undone ← first.editAt placeA fun e => { e with log := e.log.dropLast }
      return (.error (.logFull sideB.id capacity), undone)
    | .ok both =>
      let half ← both.editAt placeA (·.absorb sideA.digest sideB event)
      let all ← half.editAt placeB (·.absorb sideB.digest sideA event)
      return (.ok (), all)

def commitAt (m : Monitor) (sideA sideB : Side) (event : Event) :
    Option (Except MonitorError Unit × Monitor) := do
  match ← (m.placesAt sideA.id sideB.id).run with
  | .error error => return (.error error, m)
  | .ok (placeA, placeB) => m.absorbAt placeA placeB sideA sideB event

end Monitor

/-! ## Both records or none -/

/-- An enclave before and after an event: one more entry at the end of the log, the link to the peer
made or dropped, the history extended by the measurement of the peer, and nothing else. -/
structure Enclave.Absorbs (e : Enclave) (event : Event) (side peer : Side) (e' : Enclave) : Prop
    where
  entries_eq : e'.log.entries = e.log.entries ++ [side.entry]
  links_eq : e'.links =
    match event with
    | .connect => e.links ++ [⟨peer.id, peer.connector.region, peer.connector.mailbox⟩]
    | .disconnect => e.links.filter (·.peer ≠ peer.id)
  history_eq : e'.history = some (extendHistory (e.history.getD side.digest) peer.digest event)
  rest_eq : e' = { e with
    log := { e.log with entries := e'.log.entries }
    history := e'.history
    links := e'.links }

namespace Monitor

/-- What stands in the way of an event, and how it is told. -/
inductive Hinders (m : Monitor) (sideA sideB : Side) : MonitorError → Prop where
  | sharedSlot (h : sideA.id.index = sideB.id.index) :
      Hinders m sideA sideB (.invalidArgument (.sharedSlot sideA.id sideB.id))
  | gone {side : Side} (hside : side = sideA ∨ side = sideB) (h : m.enclave? side.id = none) :
      Hinders m sideA sideB (.invalidHandle side.id)
  | full {side : Side} {e : Enclave} (hside : side = sideA ∨ side = sideB)
      (hlive : m.enclave? side.id = some e) (h : e.log.capacity ≤ e.log.length) :
      Hinders m sideA sideB (.logFull side.id e.log.capacity)

/-- An event that landed on both sides, and on nothing else. -/
structure Landed (m : Monitor) (sideA sideB : Side) (event : Event) (m' : Monitor) : Prop where
  left : ∃ e e', m.enclave? sideA.id = some e ∧ m'.enclave? sideA.id = some e' ∧
    e.Absorbs event sideA sideB e'
  right : ∃ e e', m.enclave? sideB.id = some e ∧ m'.enclave? sideB.id = some e' ∧
    e.Absorbs event sideB sideA e'
  others_eq : ∀ place, place ≠ sideA.id.index.toNat → place ≠ sideB.id.index.toNat →
    m'.slots[place]? = m.slots[place]?
  rest_eq : m' = { m with slots := m'.slots }

/-- Two records absorb an event together or not at all. -/
structure Atomic (m : Monitor) (sideA sideB : Side) (event : Event) : Prop where
  /-- Every change is made inside the table. -/
  commitAt_eq : m.commitAt sideA sideB event = some (m.commit sideA sideB event)
  /-- It is refused for what stands in the way, -/
  hinders : ∀ error, (m.commit sideA sideB event).1 = .error error → m.Hinders sideA sideB error
  /-- and never otherwise. -/
  done_iff : (m.commit sideA sideB event).1 = .ok () ↔ ∀ error, ¬ m.Hinders sideA sideB error
  refused : ∀ error, (m.commit sideA sideB event).1 = .error error →
    (m.commit sideA sideB event).2 = m
  done : (m.commit sideA sideB event).1 = .ok () →
    m.Landed sideA sideB event (m.commit sideA sideB event).2
  /-- Which side comes first makes no difference to what becomes of the monitor. -/
  comm : (m.commit sideB sideA event).2 = (m.commit sideA sideB event).2

variable {m : Monitor} {sideA sideB : Side} {event : Event} {id a b : EnclaveId} {e eA eB : Enclave}

/-! ## The places of two handles -/

/-- The check of a slot is the lookup of the handle. -/
theorem checkLive_eq {slot : Slot} (hslot : m.slots[id.index.toNat]? = some slot) :
    slot.checkLive id = .mk (some ((m.lookup id).map fun _ => ())) := by
  unfold Slot.checkLive lookup enclave?
  rw [hslot]
  obtain ⟨generation, occupant⟩ := slot
  by_cases hgen : generation = id.generation
  · cases occupant <;> simp [hgen] <;> rfl
  · simp [hgen]
    rfl

/-- Cut in front of the higher slot, the table gives the two enclaves that the lookups find. -/
theorem locateAt_eq (hlt : a.index < b.index) :
    m.locateAt a b = .mk (some ((m.lookupPair a b).map fun _ =>
      (a.index.toNat, b.index.toNat))) := by
  have hplaces : a.index.toNat < b.index.toNat := hlt
  unfold locateAt lookupPair
  rw [if_neg (UInt32.ne_of_lt hlt), if_pos hlt]
  dsimp only
  by_cases hbehind : m.slots.length ≤ b.index.toNat
  · rw [if_pos hbehind, if_pos hbehind]
    rfl
  have hltB : b.index.toNat < m.slots.length := Nat.not_le.mp hbehind
  obtain ⟨slotB, hslotB⟩ : ∃ slot, m.slots[b.index.toNat]? = some slot :=
    ⟨_, List.getElem?_eq_getElem hltB⟩
  obtain ⟨slotA, hslotA⟩ : ∃ slot, m.slots[a.index.toNat]? = some slot :=
    ⟨_, List.getElem?_eq_getElem (Nat.lt_trans hplaces hltB)⟩
  have hfront : (m.slots.take b.index.toNat)[a.index.toNat]? = m.slots[a.index.toNat]? :=
    List.getElem?_take_of_lt hplaces
  have hfirst : (m.slots.drop b.index.toNat)[0]? = m.slots[b.index.toNat]? := by
    rw [List.getElem?_drop, Nat.add_zero]
  rw [if_neg hbehind, if_neg hbehind, cutAt, if_pos (by omega), Ranged.some_bind]
  simp only [hfront, hfirst, hslotA, hslotB, Ranged.some_bind, checkLive_eq hslotA,
    checkLive_eq hslotB, List.length_take_of_le (Nat.le_of_not_le hbehind)]
  cases m.lookup a with
  | error error => rfl
  | ok e =>
    cases m.lookup b with
    | error error => rfl
    | ok f => rfl

/-- Handles are looked up by slot, whatever their order. -/
theorem lookupPair_of_gt (h : b.index < a.index) :
    m.lookupPair a b = (m.lookupPair b a).map Prod.swap := by
  have hnot : ¬ a.index < b.index := UInt32.lt_asymm h
  unfold lookupPair
  rw [if_neg (UInt32.ne_of_lt h), if_neg (UInt32.ne_of_lt h).symm, if_pos h, if_neg hnot]
  dsimp only
  by_cases hbehind : m.slots.length ≤ a.index.toNat
  · rw [if_pos hbehind, if_pos hbehind]
    rfl
  rw [if_neg hbehind, if_neg hbehind]
  cases m.lookup b with
  | error error => rfl
  | ok f =>
    cases m.lookup a with
    | error error => rfl
    | ok e => simp only [if_neg hnot, if_pos h, Except.map, Prod.swap_prod_mk]

/-- The places that are found are those of the handles, in the order of the handles. -/
theorem placesAt_eq (m : Monitor) (a b : EnclaveId) :
    m.placesAt a b = .mk (some ((m.lookupPair a b).map fun _ =>
      (a.index.toNat, b.index.toNat))) := by
  unfold placesAt
  by_cases hindex : a.index = b.index
  · rw [if_pos hindex, lookupPair, if_pos hindex]
    rfl
  rw [if_neg hindex]
  by_cases hlt : a.index < b.index
  · simp only [if_pos hlt, locateAt_eq hlt]
    cases m.lookupPair a b <;> rfl
  · have hgt : b.index < a.index := UInt32.lt_of_le_of_ne (UInt32.not_lt.mp hlt) (Ne.symm hindex)
    simp only [if_neg hlt, locateAt_eq hgt, lookupPair_of_gt hgt]
    cases m.lookupPair b a <;> rfl

/-! ## Who is found -/

/-- Behind the end of the table there is nobody. -/
theorem enclave?_of_behind (h : m.slots.length ≤ id.index.toNat) : m.enclave? id = none := by
  rw [enclave?, List.getElem?_eq_none h]

/-- The lower handle is looked at first, unless the higher one lies behind the end of the table. -/
theorem lookupPair_cases_of_lt (m : Monitor) (hlt : a.index < b.index) :
    (∃ id, (id = a ∨ id = b) ∧ m.enclave? id = none ∧
      m.lookupPair a b = .error (.invalidHandle id)) ∨
    ∃ eA eB, m.enclave? a = some eA ∧ m.enclave? b = some eB ∧ m.lookupPair a b = .ok (eA, eB) := by
  have hne : a.index ≠ b.index := UInt32.ne_of_lt hlt
  by_cases hbehind : m.slots.length ≤ b.index.toNat
  · refine .inl ⟨b, .inr rfl, enclave?_of_behind hbehind, ?_⟩
    simp only [lookupPair, if_neg hne, if_pos hlt, if_pos hbehind]
  cases hA : m.enclave? a with
  | none =>
    refine .inl ⟨a, .inl rfl, hA, ?_⟩
    simp only [lookupPair, if_neg hne, if_pos hlt, if_neg hbehind, lookup_of_gone hA]
  | some eA =>
    cases hB : m.enclave? b with
    | none =>
      refine .inl ⟨b, .inr rfl, hB, ?_⟩
      simp only [lookupPair, if_neg hne, if_pos hlt, if_neg hbehind, lookup_of_gone hB,
        lookup_eq_ok_iff.mpr hA]
    | some eB =>
      exact .inr ⟨eA, eB, rfl, rfl,
        lookupPair_of_live (fun h => hne (congrArg EnclaveId.index h)) hA hB⟩

/-- Two handles on different slots: one of them reaches nothing, or both enclaves are found. -/
theorem lookupPair_cases (m : Monitor) (hindex : a.index ≠ b.index) :
    (∃ id, (id = a ∨ id = b) ∧ m.enclave? id = none ∧
      m.lookupPair a b = .error (.invalidHandle id)) ∨
    ∃ eA eB, m.enclave? a = some eA ∧ m.enclave? b = some eB ∧ m.lookupPair a b = .ok (eA, eB) := by
  by_cases hlt : a.index < b.index
  · exact lookupPair_cases_of_lt m hlt
  have hgt : b.index < a.index := UInt32.lt_of_le_of_ne (UInt32.not_lt.mp hlt) hindex.symm
  rw [lookupPair_of_gt hgt]
  rcases lookupPair_cases_of_lt m hgt with ⟨id, hid, hgone, hpair⟩ | ⟨eB, eA, hB, hA, hpair⟩
  · exact .inl ⟨id, hid.symm, hgone, by rw [hpair]; rfl⟩
  · exact .inr ⟨eA, eB, hA, hB, by rw [hpair]; rfl⟩

/-! ## What becomes of an event -/

/-- A full log hands the entry back. -/
theorem push_of_full {log : ConnectionLog} (h : log.isFull = true) (entry : PeerDescriptor) :
    log.push entry = .error entry := by
  rw [ConnectionLog.push, if_pos h]

/-- An entry that was pushed is taken back without a trace. -/
theorem commit_of_full (hindex : sideA.id.index ≠ sideB.id.index)
    (hA : m.enclave? sideA.id = some eA) (hB : m.enclave? sideB.id = some eB)
    (hroom : eA.log.isFull = false) (hfull : eB.log.isFull = true) :
    m.commit sideA sideB event = (.error (.logFull sideB.id eB.log.capacity), m) := by
  have hpush := push_of_room hroom sideA.entry
  unfold commit
  rw [lookupPair_of_live (fun h => hindex (congrArg EnclaveId.index h)) hA hB]
  simp only [hpush, push_of_full hfull]
  rw [ConnectionLog.dropLast_of_push hpush, put_eq_self hA]

/-- An event is refused without a trace, or both enclaves have room for it and absorb it. -/
theorem commit_cases (m : Monitor) (sideA sideB : Side) (event : Event) :
    (∃ error, m.Hinders sideA sideB error ∧ m.commit sideA sideB event = (.error error, m)) ∨
    ∃ eA eB, sideA.id.index ≠ sideB.id.index ∧ m.enclave? sideA.id = some eA ∧
      m.enclave? sideB.id = some eB ∧ eA.log.isFull = false ∧ eB.log.isFull = false ∧
      m.commit sideA sideB event =
        (.ok (), (m.put sideA.id (eA.meet event sideA sideB)).put sideB.id
          (eB.meet event sideB sideA)) := by
  by_cases hindex : sideA.id.index = sideB.id.index
  · exact .inl ⟨_, .sharedSlot hindex, by rw [commit, lookupPair, if_pos hindex]⟩
  rcases lookupPair_cases m hindex with ⟨id, hid, hgone, hpair⟩ | ⟨eA, eB, hA, hB, hpair⟩
  · refine .inl ⟨.invalidHandle id, ?_, by rw [commit, hpair]⟩
    rcases hid with rfl | rfl
    · exact .gone (.inl rfl) hgone
    · exact .gone (.inr rfl) hgone
  cases hfullA : eA.log.isFull with
  | true =>
    refine .inl ⟨_, .full (.inl rfl) hA (of_decide_eq_true hfullA), ?_⟩
    rw [commit, hpair]
    simp only [push_of_full hfullA]
  | false =>
    cases hfullB : eB.log.isFull with
    | true =>
      exact .inl ⟨_, .full (.inr rfl) hB (of_decide_eq_true hfullB),
        commit_of_full hindex hA hB hfullA hfullB⟩
    | false =>
      exact .inr ⟨eA, eB, hindex, hA, hB, hfullA, hfullB, commit_of_room hindex hA hB hfullA hfullB⟩

/-! ## The changes where they are made -/

/-- A record that is changed where it stands is written back. -/
theorem editAt_eq (hlive : m.enclave? id = some e) (change : Enclave → Enclave) :
    m.editAt id.index.toNat change = some (m.put id (change e)) := by
  rw [editAt, enclave?_eq_some_iff.mp hlive]
  rfl

/-- So is one whose log takes an entry. -/
theorem pushAt_of_room (hlive : m.enclave? id = some e) (hroom : e.log.isFull = false)
    (entry : PeerDescriptor) :
    m.pushAt id.index.toNat entry = some (.ok (m.put id
      { e with log := { e.log with entries := e.log.entries ++ [entry] } })) := by
  have hedit := editAt_eq hlive
    fun e' => { e' with log := { e.log with entries := e.log.entries ++ [entry] } }
  simp only [pushAt, enclave?_eq_some_iff.mp hlive, push_of_room hroom, Option.bind_eq_bind,
    Option.bind_some, hedit]
  rfl

/-- A log that is full tells its capacity. -/
theorem pushAt_of_full (hlive : m.enclave? id = some e) (hfull : e.log.isFull = true)
    (entry : PeerDescriptor) :
    m.pushAt id.index.toNat entry = some (.error e.log.capacity) := by
  simp only [pushAt, enclave?_eq_some_iff.mp hlive, push_of_full hfull, Option.bind_eq_bind,
    Option.bind_some]
  rfl

/-- At the places of two enclaves that are found, the changes come to what is made of both. -/
theorem absorbAt_eq (hindex : sideA.id.index ≠ sideB.id.index)
    (hA : m.enclave? sideA.id = some eA) (hB : m.enclave? sideB.id = some eB) (event : Event) :
    m.absorbAt sideA.id.index.toNat sideB.id.index.toNat sideA sideB event =
      some (m.commit sideA sideB event) := by
  have hne : sideA.id ≠ sideB.id := fun h => hindex (congrArg EnclaveId.index h)
  have hA' (e : Enclave) : (m.put sideA.id e).enclave? sideA.id = some e := enclave?_put_self hA e
  have hB' (e : Enclave) : (m.put sideA.id e).enclave? sideB.id = some eB := by
    rw [enclave?_put_of_ne hA e hne.symm, hB]
  unfold absorbAt
  cases hfullA : eA.log.isFull with
  | true =>
    rw [pushAt_of_full hA hfullA, commit, lookupPair_of_live hne hA hB]
    simp only [push_of_full hfullA]
    rfl
  | false =>
    simp only [pushAt_of_room hA hfullA, Option.bind_eq_bind, Option.bind_some]
    cases hfullB : eB.log.isFull with
    | true =>
      rw [commit_of_full hindex hA hB hfullA hfullB]
      simp only [pushAt_of_full (hB' _) hfullB, Option.bind_some, editAt_eq (hA' _), put_put,
        ConnectionLog.dropLast_of_push (push_of_room hfullA sideA.entry), put_eq_self hA]
      rfl
    | false =>
      have hbothA (e f : Enclave) :
          ((m.put sideA.id e).put sideB.id f).enclave? sideA.id = some e := by
        rw [enclave?_put_of_ne (hB' e) f hne, hA' e]
      have hhalfB (e e' f : Enclave) :
          (((m.put sideA.id e).put sideB.id f).put sideA.id e').enclave? sideB.id = some f := by
        rw [enclave?_put_of_ne (hbothA e f) e' hne.symm, enclave?_put_self (hB' e) f]
      rw [commit_of_room hindex hA hB hfullA hfullB]
      simp only [pushAt_of_room (hB' _) hfullB, Option.bind_some, editAt_eq (hbothA _ _),
        editAt_eq (hhalfB _ _ _)]
      -- what was put on one side first does not outlast the second change of that side
      rw [put_comm hindex.symm, put_put, put_put]
      rfl

/-- No change is made outside the table, and the changes come to what is made of both records. -/
theorem commitAt_eq_commit (m : Monitor) (sideA sideB : Side) (event : Event) :
    m.commitAt sideA sideB event = some (m.commit sideA sideB event) := by
  unfold commitAt
  rw [placesAt_eq]
  by_cases hindex : sideA.id.index = sideB.id.index
  · rw [commit, lookupPair, if_pos hindex]
    rfl
  rcases lookupPair_cases m hindex with ⟨id, hid, hgone, hpair⟩ | ⟨eA, eB, hA, hB, hpair⟩
  · rw [commit, hpair]
    rfl
  · rw [hpair]
    exact absorbAt_eq hindex hA hB event

/-! ## Together or not at all -/

/-- An enclave that takes part in an event absorbs it. -/
theorem absorbs_meet (e : Enclave) (event : Event) (side peer : Side) :
    e.Absorbs event side peer (e.meet event side peer) :=
  ⟨rfl, rfl, rfl, rfl⟩

/-- Written back on both sides, an event has landed, and every other slot is as it was. -/
theorem landed_meet (hindex : sideA.id.index ≠ sideB.id.index)
    (hA : m.enclave? sideA.id = some eA) (hB : m.enclave? sideB.id = some eB) (event : Event) :
    m.Landed sideA sideB event
      ((m.put sideA.id (eA.meet event sideA sideB)).put sideB.id (eB.meet event sideB sideA)) := by
  have hne : sideA.id ≠ sideB.id := fun h => hindex (congrArg EnclaveId.index h)
  have hB' : (m.put sideA.id (eA.meet event sideA sideB)).enclave? sideB.id = some eB := by
    rw [enclave?_put_of_ne hA _ hne.symm, hB]
  refine ⟨⟨eA, eA.meet event sideA sideB, hA, ?_, absorbs_meet ..⟩,
    ⟨eB, eB.meet event sideB sideA, hB, enclave?_put_self hB' _, absorbs_meet ..⟩, ?_, rfl⟩
  · rw [enclave?_put_of_ne hB' _ hne, enclave?_put_self hA]
  · intro place hplaceA hplaceB
    simp only [put, List.getElem?_set_ne hplaceA.symm, List.getElem?_set_ne hplaceB.symm]

/-- Where both enclaves are found and have room, nothing stands in the way. -/
theorem not_hinders (hindex : sideA.id.index ≠ sideB.id.index)
    (hA : m.enclave? sideA.id = some eA) (hB : m.enclave? sideB.id = some eB)
    (hroomA : eA.log.isFull = false) (hroomB : eB.log.isFull = false) (error : MonitorError) :
    ¬ m.Hinders sideA sideB error := by
  intro h
  cases h with
  | sharedSlot h => exact hindex h
  | gone hside h =>
    rcases hside with rfl | rfl
    · rw [hA] at h; cases h
    · rw [hB] at h; cases h
  | full hside hlive h =>
    rcases hside with rfl | rfl
    · rw [hA] at hlive
      cases hlive
      exact of_decide_eq_false hroomA h
    · rw [hB] at hlive
      cases hlive
      exact of_decide_eq_false hroomB h

/-- What stands in the way does so from either side, if not under the same name. -/
theorem Hinders.symm {error : MonitorError} (h : m.Hinders sideA sideB error) :
    ∃ error, m.Hinders sideB sideA error := by
  cases h with
  | sharedSlot h => exact ⟨_, .sharedSlot h.symm⟩
  | gone hside h => exact ⟨_, .gone hside.symm h⟩
  | full hside hlive h => exact ⟨_, .full hside.symm hlive h⟩

/-- The sides may come in either order. -/
theorem commit_comm (m : Monitor) (sideA sideB : Side) (event : Event) :
    (m.commit sideB sideA event).2 = (m.commit sideA sideB event).2 := by
  rcases commit_cases m sideA sideB event with
    ⟨error, hhinders, hcommit⟩ | ⟨eA, eB, hindex, hA, hB, hroomA, hroomB, hcommit⟩
  · rw [hcommit]
    rcases commit_cases m sideB sideA event with
      ⟨_, -, hother⟩ | ⟨_, _, hindex, hB, hA, hroomB, hroomA, -⟩
    · rw [hother]
    · obtain ⟨error, hhinders⟩ := hhinders.symm
      exact absurd hhinders (not_hinders hindex hB hA hroomB hroomA error)
  · rw [hcommit, commit_of_room hindex.symm hB hA hroomB hroomA, put_comm hindex.symm]

/-- Whatever the state of the monitor and whatever the sides bring, an event lands on both records
or on neither. -/
theorem events_land_together (m : Monitor) (sideA sideB : Side) (event : Event) :
    m.Atomic sideA sideB event := by
  have hplaces := commitAt_eq_commit m sideA sideB event
  have hcomm := commit_comm m sideA sideB event
  rcases commit_cases m sideA sideB event with
    ⟨error, hhinders, hcommit⟩ | ⟨eA, eB, hindex, hA, hB, hroomA, hroomB, hcommit⟩
  · refine ⟨hplaces, ?_, ?_, fun _ _ => by rw [hcommit], ?_, hcomm⟩
    · rintro _ herror
      rw [hcommit] at herror
      cases herror
      exact hhinders
    · rw [hcommit]
      exact ⟨fun hdone => (by cases hdone), fun hnone => absurd hhinders (hnone error)⟩
    · rw [hcommit]
      intro hdone
      cases hdone
  · have hnone := not_hinders hindex hA hB hroomA hroomB
    refine ⟨hplaces, ?_, ⟨fun _ => hnone, fun _ => by rw [hcommit]⟩, ?_, fun _ => ?_, hcomm⟩
    · rw [hcommit]
      intro error herror
      cases herror
    · rw [hcommit]
      intro error herror
      cases herror
    · rw [hcommit]
      exact landed_meet hindex hA hB event

end Monitor

end Enclaves
