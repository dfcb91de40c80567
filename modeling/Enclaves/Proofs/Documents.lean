import Enclaves.Proofs.Buffers
import Enclaves.Proofs.Transcript

/-!
# What documents promise

Three types have a checked way to build their values: a region is aligned, not empty and ends below
2⁶⁴, a log is made with room that can be held and pushed to as long as there is room, and the
reference of a log entry fits its field. Values of all three are also read from documents, and only
the entries are checked there: an entry that is read is one that could have been built
(`Transcript.refines_entry` and its converse).

Regions and logs are taken as they stand. Which of them documents give is known exactly: all whose
numbers have 64 bits, aligned or not, overfull or not (`Region.parse_toJson`,
`ConnectionLog.parse_toJson`). So a region from a document is one that could have been built exactly
if it is valid, and a log if it keeps within its capacity and room for that many entries can be held
(`ConnectionLog.built_iff`). Of the others nothing is promised: where such a region ends need not be
a number of 64 bits at all.
-/

namespace Enclaves

open Json

/-! ## Checked ways to build a value -/

namespace ConnectionLog

variable {entrySize capacity : Nat} {log : ConnectionLog}

/-- A log that was made empty, with room for entries of some size, and pushed to as long as there
was room. -/
inductive Built (entrySize : Nat) : ConnectionLog → Prop
  | empty {capacity : Nat} {log : ConnectionLog} :
    ConnectionLog.empty? entrySize capacity = some log → Built entrySize log
  | push {log log' : ConnectionLog} {entry : PeerDescriptor} :
    Built entrySize log → log.push entry = .ok log' → Built entrySize log'

/-- A log is made if its room can be held, and it is empty. -/
theorem empty?_eq_some_iff : ConnectionLog.empty? entrySize capacity = some log ↔
    capacity * entrySize ≤ longestBytes ∧ .empty capacity = log := by
  rw [ConnectionLog.empty?, Option.ite_none_right_eq_some, Option.some.injEq]

/-- A push takes up room and makes none. -/
theorem Built.bounds (h : log.Built entrySize) :
    log.entries.length ≤ log.capacity ∧ log.capacity * entrySize ≤ longestBytes := by
  induction h with
  | empty hempty =>
    obtain ⟨hheld, rfl⟩ := empty?_eq_some_iff.mp hempty
    exact ⟨Nat.zero_le _, hheld⟩
  | @push log log' entry _ hpush ih =>
    unfold ConnectionLog.push at hpush
    split at hpush
    · cases hpush
    rename_i hroom
    cases hpush
    simp only [isFull, decide_eq_true_eq] at hroom
    rw [List.length_append, List.length_singleton]
    exact ⟨Nat.lt_of_not_le hroom, ih.2⟩

/-- Any entries can be pushed that there is room for. -/
theorem built_of_length_le {entries : List PeerDescriptor} (h : entries.length ≤ capacity)
    (hheld : capacity * entrySize ≤ longestBytes) : Built entrySize ⟨capacity, entries⟩ := by
  induction entries using List.reverseRecOn with
  | nil => exact .empty (empty?_eq_some_iff.mpr ⟨hheld, rfl⟩)
  | append_singleton entries entry ih =>
    rw [List.length_append, List.length_singleton] at h
    have hroom : (⟨capacity, entries⟩ : ConnectionLog).isFull = false :=
      decide_eq_false (Nat.not_le.mpr h)
    exact .push (ih (Nat.le_of_succ_le h)) (Monitor.push_of_room hroom entry)

/-- The logs that can be built are those within their capacity, where that can be held. -/
theorem built_iff : log.Built entrySize ↔
    log.entries.length ≤ log.capacity ∧ log.capacity * entrySize ≤ longestBytes :=
  ⟨Built.bounds, fun h => built_of_length_le h.1 h.2⟩

end ConnectionLog

namespace Region

/-- Whether an address lies in a region, with the sum that may not fit 64 bits. -/
def contains? (r : Region) (address : Nat) : Option Bool :=
  if r.base ≤ address then r.stop?.map (address < ·) else some false

/-- Where a region ends below the limit, asking it for an address is safe. -/
theorem contains?_eq {r : Region} (h : r.stop < addressLimit) (address : Nat) :
    r.contains? address = some (r.contains address) := by
  rw [contains?, contains, stop?_eq h]
  split
  · rename_i hle
    simp [hle]
  · rename_i hlt
    simp [hlt]

end Region

/-! ## What is written is read -/

/-- A number of 64 bits. -/
theorem numberJson_takes {n : Nat} (h : n < UInt64.size) : numberJson.Takes [.natural n] n :=
  .natural h

/-- A permission is written as its name. -/
theorem Permission.json_takes (p : Permission) : Permission.json.Takes p.toJson p := by
  cases p with
  | readWriteExecute => exact .choice rfl
  | readWrite => exact .choice rfl

/-- The kind of a region is written as its name. -/
theorem RegionKind.json_takes (k : RegionKind) : RegionKind.json.Takes k.toJson k := by
  cases k with
  | exclusive => exact .choice rfl
  | untrusted => exact .choice rfl
  | connector => exact .choice rfl

/-- Any region is read back, valid or not. -/
theorem Region.parse_toJson {r : Region} (hbase : r.base < UInt64.size)
    (hsize : r.size < UInt64.size) : parse Region.json (pretty r.toJson) = .ok r := by
  have hkeys : ["base", "len", "perm", "kind"].Nodup := by decide
  have htakes : Region.json.Takes r.toJson r :=
    (Fields.Writes.takes (.required "base" (numberJson_takes hbase)
      (.required "len" (numberJson_takes hsize)
        (.required "perm" r.permission.json_takes
          (.required "kind" r.kind.json_takes .nil)))) hkeys).map
  refine parse_pretty htakes (.object ?_)
  simp only [List.forall_mem_cons]
  exact ⟨.natural hbase, .natural hsize, .text _, .text _, by simp⟩

/-- Any log is read back, overfull or not. -/
theorem ConnectionLog.parse_toJson {log : ConnectionLog} (hcapacity : log.capacity < UInt64.size) :
    parse ConnectionLog.json (pretty log.toJson) = .ok log := by
  have hkeys : ["capacity", "entries"].Nodup := by decide
  have hentries : (Reader.list PeerDescriptor.json).Takes
      (array (log.entries.map PeerDescriptor.toJson)) log.entries :=
    .list (fun d _ => d.json_takes) fun d _ => ⟨.objectOpen, _, rfl, by decide⟩
  have htakes : ConnectionLog.json.Takes log.toJson log :=
    (Fields.Writes.takes (.required "capacity" (numberJson_takes hcapacity)
      (.required "entries" hentries .nil)) hkeys).map
  refine parse_pretty htakes (.object ?_)
  simp only [List.forall_mem_cons]
  refine ⟨.natural hcapacity, .array fun doc hdoc => ?_, by simp⟩
  obtain ⟨d, -, rfl⟩ := List.mem_map.mp hdoc
  exact d.document_toJson

/-! ## What is read was checked, or was not -/

section

variable {α β : Type} {read : Reader α} {text : String} {b : β}

/-- A text is read as the image of what it is read as underneath. -/
theorem parse_map_iff {f : α → β} :
    parse (Reader.map f read) text = .ok b ↔ ∃ a, parse read text = .ok a ∧ f a = b := by
  unfold parse Reader.map
  cases read (lex text.toList) with
  | error fault => simp
  | ok value =>
    obtain ⟨a, rest⟩ := value
    cases rest <;> simp

/-- A text is read with a check if it is read without, and the value passes. -/
theorem parse_refine_iff {accept : α → Except String β} :
    parse (Reader.refine accept read) text = .ok b ↔
      ∃ a, parse read text = .ok a ∧ accept a = .ok b := by
  unfold parse Reader.refine
  cases read (lex text.toList) with
  | error fault => simp
  | ok value =>
    obtain ⟨a, rest⟩ := value
    cases rest <;> cases haccept : accept a <;> simp [haccept]

end

namespace Transcript

/-- A log with any references. -/
structure Log where
  capacity : Nat
  entries : List Entry

def Log.json : Reader Log :=
  Reader.map (fun (capacity, entries, ()) => ⟨capacity, entries⟩)
    (Fields.cons (required "capacity" numberJson)
      (.cons (required "entries" (Reader.list Entry.json)) .nil)).record

/-- A log in a text, and what is read of it. -/
structure Log.Spells (t : Log) (log : ConnectionLog) : Prop where
  capacity_eq : t.capacity = log.capacity
  capacity_lt : log.capacity < UInt64.size
  entries : List.Forall₂ Entry.Spells t.entries log.entries

/-- Every number that is read has 64 bits. -/
theorem refines_number :
    Reader.Refines (fun a b => a = b ∧ b < UInt64.size) numberJson numberJson := by
  intro tokens n rest h
  refine ⟨n, h, rfl, ?_⟩
  unfold numberJson Reader.natural at h
  split at h
  · split at h
    · rename_i hlt
      cases h
      exact hlt
    · cases h
  · cases h

/-- Of a log that is read, the capacity has 64 bits and the references passed their check. -/
theorem refines_log : Reader.Refines Log.Spells Log.json ConnectionLog.json := by
  refine (Fields.Refines.record (.cons "capacity" refines_number
    (.cons "entries" refines_entry.list .nil))).map ?_
  rintro ⟨capacity, entries, ⟨⟩⟩ ⟨capacity', entries', ⟨⟩⟩ ⟨⟨hcapacity, hlt⟩, hentries, -⟩
  exact ⟨hcapacity, hlt, hentries⟩

/-- Of a region that is read, the two numbers have 64 bits. -/
theorem refines_region :
    Reader.Refines (fun _ r => r.base < UInt64.size ∧ r.size < UInt64.size) Region.json
      Region.json := by
  refine (Fields.Refines.record (.cons "base" refines_number (.cons "len" refines_number
    (.cons "perm" (.refl _) (.cons "kind" (.refl _) .nil))))).map ?_
  rintro _ ⟨base, size, permission, kind, ⟨⟩⟩ ⟨⟨-, hbase⟩, ⟨-, hsize⟩, -⟩
  exact ⟨hbase, hsize⟩

/-- An entry is read exactly if its reference passes the check. -/
theorem Entry.parse_iff {text : String} {d : PeerDescriptor} :
    parse PeerDescriptor.json text = .ok d ↔
      ∃ e, parse Entry.json text = .ok e ∧ e.Spells d := by
  constructor
  · exact refines_entry.parse
  rintro ⟨e, hparse, hpeer, hevent, hreference⟩
  obtain ⟨⟨peer, event, reference, ⟨⟩⟩, hread, rfl⟩ := parse_map_iff.mp hparse
  refine parse_refine_iff.mpr ⟨_, hread, ?_⟩
  dsimp only at hpeer hevent hreference ⊢
  rw [hreference, hpeer, hevent]

end Transcript

/-- What is known of the values that a document gives. -/
structure DocumentPromises (text : String) : Prop where
  /-- An entry is one that could have been built of the parts that the text spells. -/
  entry_iff : ∀ d, parse PeerDescriptor.json text = .ok d ↔
    ∃ e, parse Transcript.Entry.json text = .ok e ∧ e.peer = d.peer ∧ e.event = d.event ∧
      Reference.ofString e.reference = .ok d.reference
  /-- The references in a log are checked as well, -/
  log_read : ∀ log, parse ConnectionLog.json text = .ok log →
    log.capacity < UInt64.size ∧
      ∃ t, parse Transcript.Log.json text = .ok t ∧ t.capacity = log.capacity ∧
        List.Forall₂ Transcript.Entry.Spells t.entries log.entries
  /-- but not their number: what was written of a log gives it, overfull or not. -/
  log_written : ∀ log, log.capacity < UInt64.size → text = pretty log.toJson →
    parse ConnectionLog.json text = .ok log
  /-- It could have been built if it is not overfull and its room can be held. -/
  log_built_iff : ∀ log, parse ConnectionLog.json text = .ok log → ∀ entrySize,
    (log.Built entrySize ↔
      log.entries.length ≤ log.capacity ∧ log.capacity * entrySize ≤ longestBytes)
  /-- Of a region nothing is checked but that its two numbers have 64 bits, -/
  region_read : ∀ r, parse Region.json text = .ok r → r.base < UInt64.size ∧ r.size < UInt64.size
  region_written : ∀ r, r.base < UInt64.size → r.size < UInt64.size → text = pretty r.toJson →
    parse Region.json text = .ok r
  region_built_iff : ∀ r, parse Region.json text = .ok r →
    ((∃ base size permission kind, Region.make base size permission kind = .ok r) ↔ r.Valid)
  /-- and calculating with one is safe if it could have been built. -/
  region_safe : ∀ r, parse Region.json text = .ok r → r.Valid → r.stop? = some r.stop ∧
    (∀ address, r.contains? address = some (r.contains address)) ∧
    ∀ other : Region, other.Valid → r.overlaps? other = some (r.overlaps other)

/-- Of what is read from documents, references alone are checked. -/
theorem documents_check_references (text : String) : DocumentPromises text where
  entry_iff d := by
    rw [Transcript.Entry.parse_iff]
    constructor
    · rintro ⟨e, hparse, hspells⟩
      exact ⟨e, hparse, hspells.peer, hspells.event, hspells.reference⟩
    · rintro ⟨e, hparse, hpeer, hevent, hreference⟩
      exact ⟨e, hparse, hpeer, hevent, hreference⟩
  log_read log h := by
    obtain ⟨t, hparse, hspells⟩ := Transcript.refines_log.parse h
    exact ⟨hspells.capacity_lt, t, hparse, hspells.capacity_eq, hspells.entries⟩
  log_written log hcapacity htext := by
    rw [htext]
    exact ConnectionLog.parse_toJson hcapacity
  log_built_iff _ _ _ := ConnectionLog.built_iff
  region_read r h := by
    obtain ⟨-, -, hnumbers⟩ := Transcript.refines_region.parse h
    exact hnumbers
  region_written r hbase hsize htext := by
    rw [htext]
    exact Region.parse_toJson hbase hsize
  region_built_iff r _ := by
    constructor
    · rintro ⟨base, size, permission, kind, h⟩
      exact (Region.make_eq_ok_iff.mp h).2
    · intro h
      exact ⟨r.base, r.size, r.permission, r.kind, Region.make_eq_ok_iff.mpr ⟨rfl, h⟩⟩
  region_safe r _ h :=
    ⟨Region.stop?_eq h.stop_lt, Region.contains?_eq h.stop_lt, fun _ hother =>
      Region.overlaps?_eq h.stop_lt hother.stop_lt⟩

/-- A region that is not aligned and ends beyond 64 bits, an empty one, and a log with an entry but
no room for any. -/
theorem unchecked_values_are_read :
    (∃ r, parse Region.json ("\x7b\"base\":18446744073709551615,\"len\":2," ++
        "\"perm\":\"ReadWrite\",\"kind\":\"Untrusted\"\x7d") = .ok r ∧
      ¬ r.Valid ∧ r.stop? = none) ∧
    (∃ r, parse Region.json ("\x7b\"base\":1,\"len\":0," ++
        "\"perm\":\"ReadWrite\",\"kind\":\"Untrusted\"\x7d") = .ok r ∧ ¬ r.Valid) ∧
    ∃ log, parse ConnectionLog.json ("\x7b\"capacity\":0,\"entries\":[\x7b" ++
        "\"peer\":\x7b\"index\":0,\"generation\":1\x7d,\"event\":\"Connect\"," ++
        "\"reference\":\"a\"\x7d]\x7d") = .ok log ∧ ¬ log.entries.length ≤ log.capacity := by
  refine ⟨⟨⟨18446744073709551615, 2, .readWrite, .untrusted⟩, by decide +kernel, ?_, rfl⟩,
    ⟨⟨1, 0, .readWrite, .untrusted⟩, by decide +kernel, ?_⟩,
    ⟨⟨0, [⟨⟨0, 1⟩, .connect, ⟨"a", by decide, by decide⟩⟩]⟩, by decide +kernel, by decide⟩⟩
  · intro h
    exact absurd h.base_aligned (by decide)
  · intro h
    exact absurd h.size_pos (by decide)

end Enclaves
