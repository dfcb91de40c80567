import Enclaves.Proofs.Wire

/-!
# Reading with a cursor

The readers of reports take a field off the front of what is left. A program that keeps the whole
byte string and a position in it has more that can go wrong: it subtracts to learn how much is left,
multiplies to learn how long a log is, and cuts slices and picks bytes by number. Here the reader is
written that way, and each such step is partial: a number out of range answers `none`, and `none`
passes through whatever comes after it.

The two readers agree on every byte string (`Report.decodeAt_eq`). So the checks that stand in front
of the steps suffice: no byte string leads to a step out of range. The lemmas go reader by reader:
a position in range is led to the same refusal, or to the same value and a position in range where
the same bytes are left (`Agrees`, `Cursor.Stands`).
-/

namespace Enclaves

/-- A computation that refuses some inputs, and in which a step can be out of range. -/
abbrev Ranged (ε α : Type) : Type := ExceptT ε Option α

/-- The bytes between two offsets, if both are in range. -/
def Bytes.slice? (start stop : Nat) (b : Bytes) : Option Bytes :=
  if start ≤ stop ∧ stop ≤ b.length then some (b.slice start stop) else none

/-- The byte at an offset, if it is in range. -/
def Bytes.byte? (i : Nat) (b : Bytes) : Option UInt8 := b[i]?

/-- The number in the four bytes from an offset on. -/
def Bytes.word? (start : Nat) (b : Bytes) : Option UInt32 := do
  let b₀ ← b.byte? start
  let b₁ ← b.byte? (start + 1)
  let b₂ ← b.byte? (start + 2)
  let b₃ ← b.byte? (start + 3)
  return .ofNat (Bytes.ofLittleEndian [b₀, b₁, b₂, b₃])

/-- A product that fits 64 bits. -/
def checkedMul (a b : Nat) : Option Nat := if a * b < UInt64.size then some (a * b) else none

/-! ## The reader of entries -/

namespace PeerDescriptor

/-- The reference in a field: its bytes up to where the first zero is. -/
def decodeFieldAt (field : Bytes) : Ranged DescriptorFault Reference :=
  let stop := field.findIdx (· = 0)
  if referenceMax < stop then throw .unterminated
  else do
    let text ← field.slice? 0 stop
    match Utf8.decode text with
    | .error fault => throw (.encoding fault)
    | .ok text =>
      match Reference.ofString text with
      | .error fault => throw (.reference fault)
      | .ok reference => return reference

def decodeAt (bytes : Bytes) : Ranged DescriptorFault PeerDescriptor :=
  if bytes.length ≠ wireLength then throw (.length bytes.length)
  else do
    let index ← bytes.word? 0
    let generation ← bytes.word? 4
    let code ← bytes.byte? 8
    match Event.ofCode? code with
    | none => throw (.event code)
    | some event =>
      let field ← bytes.slice? (8 + 1 + reserved) bytes.length
      let reference ← decodeFieldAt field
      return ⟨⟨index, generation⟩, event, reference⟩

end PeerDescriptor

/-! ## The reader of reports -/

/-- A byte string and a position in it. -/
structure Cursor where
  bytes : Bytes
  position : Nat

namespace Cursor

/-- How many bytes are left; the position may not be behind the end. -/
def remaining (c : Cursor) : Option Nat :=
  if c.position ≤ c.bytes.length then some (c.bytes.length - c.position) else none

def take (n : Nat) (name : String) (c : Cursor) : Ranged WireFault (Bytes × Cursor) := do
  let remaining ← c.remaining
  if remaining < n then throw (.field name n remaining)
  else
    let field ← c.bytes.slice? c.position (c.position + n)
    return (field, { c with position := c.position + n })

/-- A field that is copied to where there is room for `n` bytes, no more and no less. -/
def block (n : Nat) (name : String) (c : Cursor) : Ranged WireFault (Block n × Cursor) := do
  let (field, c) ← c.take n name
  let block ← (Block.ofBytes? field : Option (Block n))
  return (block, c)

def digest (name : String) (c : Cursor) : Ranged WireFault (Digest × Cursor) := do
  let (block, c) ← c.block 64 name
  return (⟨block⟩, c)

def number (name : String) (c : Cursor) : Ranged WireFault (Nat × Cursor) := do
  let (field, c) ← c.take 4 name
  let word ← field.word? 0
  return (word.toNat, c)

/-- The entries in `count` pieces of 272 bytes, from an offset on. -/
def entries (field : Bytes) (start : Nat) :
    (count : Nat) → Ranged WireFault (List PeerDescriptor)
  | 0 => return []
  | count + 1 => do
    let piece ← field.slice? start (start + PeerDescriptor.wireLength)
    let entry ← (PeerDescriptor.decodeAt piece).adapt .entry
    let rest ← entries field (start + PeerDescriptor.wireLength) count
    return entry :: rest

def log (c : Cursor) : Ranged WireFault (List PeerDescriptor × Cursor) := do
  let (count, c) ← c.number "connection log count"
  let remaining ← c.remaining
  match (checkedMul count PeerDescriptor.wireLength).filter (· ≤ remaining) with
  | none => throw (.logBeyond count remaining)
  | some length =>
    let (field, c) ← c.take length "connection log"
    let log ← entries field 0 (field.length / PeerDescriptor.wireLength)
    return (log, c)

def data (c : Cursor) : Ranged WireFault (Bytes × Cursor) := do
  let (length, c) ← c.number "data length"
  c.take length "data section"

end Cursor

/-- The report that bytes stand for, by position. -/
def Report.decodeAt (bytes : Bytes) : Ranged WireFault Report :=
  if bytes.length < minLength then throw (.tooShort bytes.length)
  else do
    let c : Cursor := ⟨bytes, 0⟩
    let (digest, c) ← c.digest "digest"
    let (history, c) ← c.digest "hash history"
    let (log, c) ← c.log
    let (platform, c) ← c.digest "platform digest"
    let (signature, c) ← c.block 64 "signature"
    let (data, c) ← c.data
    let remaining ← c.remaining
    if remaining ≠ 0 then throw (.trailing remaining)
    else return ⟨digest, history, log, platform, signature, data⟩

/-! ## Steps in range -/

namespace Bytes

variable {b : Bytes} {start stop i : Nat}

/-- A slice between bounds in order and in range is found. -/
theorem slice?_of_le (hstart : start ≤ stop) (hstop : stop ≤ b.length) :
    b.slice? start stop = some (b.slice start stop) :=
  if_pos ⟨hstart, hstop⟩

/-- A byte in range is found. -/
theorem byte?_of_lt (h : i < b.length) : b.byte? i = some (b.getD i 0) := by
  rw [byte?, List.getD_eq_getElem?_getD, List.getElem?_eq_getElem h, Option.getD_some]

/-- Four bytes in range spell a word, the lowest first. -/
theorem word?_of_le (h : start + 4 ≤ b.length) :
    b.word? start = some (.ofNat (ofLittleEndian (b.slice start (start + 4)))) := by
  have hslice : b.slice start (start + 4) =
      [b.getD start 0, b.getD (start + 1) 0, b.getD (start + 2) 0, b.getD (start + 3) 0] := by
    rw [slice, Nat.add_sub_cancel_left, drop_eq_cons (by omega), drop_eq_cons (by omega),
      drop_eq_cons (by omega), drop_eq_cons (by omega)]
    rfl
  rw [word?, byte?_of_lt (by omega), byte?_of_lt (by omega), byte?_of_lt (by omega),
    byte?_of_lt (by omega), hslice]
  rfl

/-- What stands in front of the first zero is as long as the place of that zero. -/
theorem length_takeWhile_eq (b : Bytes) :
    (b.takeWhile (· ≠ 0)).length = b.findIdx (· = 0) := by
  rw [List.takeWhile_eq_take_findIdx_not, List.length_take]
  simp [List.findIdx_le_length]

/-- Cutting at the first zero takes what stands in front of it. -/
theorem slice?_findIdx (b : Bytes) :
    b.slice? 0 (b.findIdx (· = 0)) = some (b.takeWhile (· ≠ 0)) := by
  rw [slice?_of_le (Nat.zero_le _) List.findIdx_le_length, slice, List.drop_zero, Nat.sub_zero,
    List.takeWhile_eq_take_findIdx_not]
  simp

/-- A slice up to the end. -/
theorem slice?_length {b : Bytes} {start : Nat} (h : start ≤ b.length) :
    b.slice? start b.length = some (b.drop start) := by
  rw [slice?_of_le h (Nat.le_refl _), slice, List.take_of_length_le (Nat.le_of_eq List.length_drop)]

end Bytes

/-- A step in range is no step at all. -/
theorem Ranged.some_bind {ε α β : Type} (a : α) (f : α → Ranged ε β) :
    (liftM (some a) >>= f) = f a := rfl

/-! ## The readers agree -/

namespace PeerDescriptor

/-- The reference of an entry is read by position as it is off the front. -/
theorem decodeFieldAt_eq (field : Bytes) :
    decodeFieldAt field = .mk (some (decodeField field)) := by
  unfold decodeFieldAt decodeField
  dsimp only
  rw [Bytes.length_takeWhile_eq]
  split
  · rfl
  rw [Bytes.slice?_findIdx, Ranged.some_bind]
  cases Utf8.decode (field.takeWhile (· ≠ 0)) with
  | error fault => rfl
  | ok text =>
    dsimp only
    cases Reference.ofString text with
    | error fault => rfl
    | ok reference => rfl

/-- So is an entry. -/
theorem decodeAt_eq (bytes : Bytes) : decodeAt bytes = .mk (some (decode bytes)) := by
  unfold decodeAt decode
  by_cases hlength : bytes.length = wireLength
  · rw [if_neg (not_not_intro hlength), if_neg (not_not_intro hlength)]
    -- every offset of the reader is below this number
    have hlength : bytes.length = 272 := hlength
    rw [Bytes.word?_of_le (by omega), Bytes.word?_of_le (by omega), Bytes.byte?_of_lt (by omega),
      Bytes.slice?_length (by rw [reserved]; omega)]
    simp only [Ranged.some_bind, decodeFieldAt_eq]
    cases Event.ofCode? (bytes.getD 8 0) with
    | none => rfl
    | some event =>
      dsimp only
      cases decodeField (bytes.drop (8 + 1 + reserved)) with
      | error fault => rfl
      | ok reference => rfl
  · rw [if_pos hlength, if_pos hlength]
    rfl

end PeerDescriptor

namespace Cursor

/-- A position in range, and the bytes that are left there. -/
structure Stands (c : Cursor) (rest : Bytes) : Prop where
  le : c.position ≤ c.bytes.length
  drop_eq : c.bytes.drop c.position = rest

/-- A reading by position against one off the front: the same refusal, or the same value and a
position in range where the same bytes are left. A step out of range is neither. -/
inductive Agrees {α β : Type} (view : β → α) (x : Ranged WireFault (α × Cursor))
    (y : Except WireFault (β × Bytes)) : Prop
  | refused (fault : WireFault) (hx : x = throw fault) (hy : y = .error fault)
  | read (b : β) (c : Cursor) (rest : Bytes) (hx : x = pure (view b, c)) (hy : y = .ok (b, rest))
      (hrest : c.Stands rest)

/-- What is read next agrees as well if it does wherever the same bytes are left. -/
theorem Agrees.run_bind {α β γ : Type} {view : β → α} {x : Ranged WireFault (α × Cursor)}
    {y : Except WireFault (β × Bytes)} {f : α × Cursor → Ranged WireFault γ}
    {g : β × Bytes → Except WireFault γ} (h : Agrees view x y)
    (hnext : ∀ b c rest, c.Stands rest → (f (view b, c)).run = some (g (b, rest))) :
    (x >>= f).run = some (y >>= g) := by
  cases h with
  | refused fault hx hy =>
    rw [hx, hy]
    rfl
  | read b c rest hx hy hrest =>
    rw [hx, hy]
    exact hnext b c rest hrest

variable {c : Cursor} {rest : Bytes}

/-- What is left is what lies behind the position. -/
theorem Stands.length_eq (h : c.Stands rest) : rest.length = c.bytes.length - c.position := by
  rw [← h.drop_eq, List.length_drop]

/-- How much is left is found without going below zero. -/
theorem Stands.remaining_eq (h : c.Stands rest) : c.remaining = some rest.length := by
  rw [remaining, if_pos h.le, h.length_eq]

/-- A slice from the position on is the front of what is left. -/
theorem Stands.slice_eq (h : c.Stands rest) {n : Nat} (hn : n ≤ rest.length) :
    c.bytes.slice? c.position (c.position + n) = some (rest.take n) := by
  have hlength := h.length_eq
  have hle := h.le
  rw [Bytes.slice?_of_le (by omega) (by omega), Bytes.slice, h.drop_eq, Nat.add_sub_cancel_left]

/-- Moving on within what is left stays in range. -/
theorem Stands.advance (h : c.Stands rest) {n : Nat} (hn : n ≤ rest.length) :
    Stands { c with position := c.position + n } (rest.drop n) where
  le := by
    have hlength := h.length_eq
    have hle := h.le
    dsimp only
    omega
  drop_eq := by rw [← h.drop_eq, List.drop_drop]

/-- As much as is left can be taken. -/
theorem Stands.take_eq (h : c.Stands rest) {n : Nat} (hn : n ≤ rest.length) (name : String) :
    c.take n name = pure (rest.take n, { c with position := c.position + n }) := by
  rw [take, h.remaining_eq, Ranged.some_bind, if_neg (Nat.not_lt.mpr hn), h.slice_eq hn]
  rfl

/-- Some bytes are taken by position as they are off the front. -/
theorem Stands.agrees_take (h : c.Stands rest) (n : Nat) (name : String) :
    Agrees Block.toBytes (c.take n name) (Report.takeBlock n name rest) := by
  rw [Report.takeBlock, Block.read?]
  by_cases hn : n ≤ rest.length
  · rw [dif_pos hn, h.take_eq hn]
    exact .read _ _ _ rfl rfl (h.advance hn)
  · rw [dif_neg hn, take, h.remaining_eq, Ranged.some_bind, if_pos (Nat.not_le.mp hn)]
    exact .refused _ rfl rfl

/-- A block is taken by position as it is off the front. -/
theorem Stands.agrees_block (h : c.Stands rest) (n : Nat) (name : String) :
    Agrees id (c.block n name) (Report.takeBlock n name rest) := by
  rw [block]
  cases h.agrees_take n name with
  | refused fault hx hy =>
    rw [hx, hy]
    exact .refused fault rfl rfl
  | read field c rest hx hy hrest =>
    have hroom : Block.ofBytes? field.toBytes = some field := dif_pos field.length_toBytes
    rw [hx, hy]
    exact .read field c rest (by rw [pure_bind]; dsimp only; rw [hroom]; rfl) rfl hrest

/-- A digest is taken by position as it is off the front. -/
theorem Stands.agrees_digest (h : c.Stands rest) (name : String) :
    Agrees id (c.digest name) (Report.takeDigest name rest) := by
  rw [digest, Report.takeDigest]
  cases h.agrees_block 64 name with
  | refused fault hx hy =>
    rw [hx, hy]
    exact .refused fault rfl rfl
  | read field c rest hx hy hrest =>
    rw [hx, hy]
    exact .read ⟨field⟩ c rest rfl rfl hrest

/-- A number is taken by position as it is off the front. -/
theorem Stands.agrees_number (h : c.Stands rest) (name : String) :
    Agrees id (c.number name) (Report.takeNumber name rest) := by
  rw [number, Report.takeNumber]
  cases h.agrees_take 4 name with
  | refused fault hx hy =>
    rw [hx, hy]
    exact .refused fault rfl rfl
  | read field c rest hx hy hrest =>
    have hlt := Bytes.ofLittleEndian_lt field.toBytes
    rw [field.length_toBytes] at hlt
    have hword : field.toBytes.word? 0 = some (.ofNat (Bytes.ofLittleEndian field.toBytes)) := by
      rw [Bytes.word?_of_le (Nat.le_of_eq field.length_toBytes.symm), Bytes.slice, List.drop_zero,
        List.take_of_length_le (Nat.le_of_eq field.length_toBytes)]
    rw [hx, hy]
    refine .read (Bytes.ofLittleEndian field.toBytes) c rest ?_ rfl hrest
    rw [pure_bind]
    dsimp only
    rw [hword, Ranged.some_bind, UInt32.toNat_ofNat_of_lt' hlt]
    rfl

/-- Pieces cut out of a field against entries off the front of what starts with it. -/
theorem entries_eq {field tail : Bytes} {start count : Nat}
    (hlength : start + count * PeerDescriptor.wireLength = field.length) :
    (∃ fault, entries field start count = throw fault ∧
      Report.takeEntries count (field.drop start ++ tail) = .error fault) ∨
    (∃ log, entries field start count = pure log ∧
      Report.takeEntries count (field.drop start ++ tail) = .ok (log, tail)) := by
  induction count generalizing start with
  | zero =>
    refine .inr ⟨[], rfl, ?_⟩
    rw [Report.takeEntries, List.drop_of_length_le (by omega), List.nil_append]
  | succ count ih =>
    have hstart : start + PeerDescriptor.wireLength + count * PeerDescriptor.wireLength =
        field.length := by
      rw [← hlength, Nat.add_mul]
      omega
    have hroom : PeerDescriptor.wireLength ≤ (field.drop start).length := by
      rw [List.length_drop]
      omega
    have hpiece : field.slice? start (start + PeerDescriptor.wireLength) =
        some ((field.drop start).take PeerDescriptor.wireLength) := by
      rw [Bytes.slice?_of_le (by omega) (by omega), Bytes.slice, Nat.add_sub_cancel_left]
    rw [entries, hpiece, Ranged.some_bind, PeerDescriptor.decodeAt_eq, Report.takeEntries,
      List.take_append_of_le_length hroom, List.drop_append_of_le_length hroom, List.drop_drop]
    cases PeerDescriptor.decode ((field.drop start).take PeerDescriptor.wireLength) with
    | error fault => exact .inl ⟨.entry fault, rfl, rfl⟩
    | ok entry =>
      obtain ⟨fault, hentries, htake⟩ | ⟨log, hentries, htake⟩ := ih hstart
      · refine .inl ⟨fault, ?_, by rw [htake]⟩
        rw [hentries]
        rfl
      · refine .inr ⟨entry :: log, ?_, by rw [htake]⟩
        rw [hentries]
        rfl

/-- A log is taken by position as it is off the front, entry by entry. -/
theorem Stands.agrees_log (h : c.Stands rest) : Agrees id c.log (Report.takeLog rest) := by
  rw [log, Report.takeLog]
  have hnumber := h.agrees_number "connection log count"
  cases hnumber with
  | refused fault hx hy =>
    rw [hx, hy]
    exact .refused fault rfl rfl
  | read count c rest hx hy hrest =>
    have hlt := (Report.eq_append_of_takeNumber hy).2
    have hmul : checkedMul count PeerDescriptor.wireLength =
        some (count * PeerDescriptor.wireLength) := by
      apply if_pos
      have hwire : PeerDescriptor.wireLength = 272 := rfl
      rw [hwire]
      simp only [UInt32.size, UInt64.size] at hlt ⊢
      omega
    rw [hx, hy, pure_bind]
    dsimp only [id_eq]
    rw [hrest.remaining_eq, Ranged.some_bind, hmul, Option.filter_some]
    by_cases hroom : rest.length < count * PeerDescriptor.wireLength
    · rw [if_pos hroom, if_neg (by simpa using hroom)]
      exact .refused _ rfl rfl
    have hroom' := Nat.not_lt.mp hroom
    have hcount : (rest.take (count * PeerDescriptor.wireLength)).length /
        PeerDescriptor.wireLength = count := by
      rw [List.length_take_of_le hroom', Nat.mul_div_cancel _ (by decide)]
    have hentries := @entries_eq (rest.take (count * PeerDescriptor.wireLength))
      (rest.drop (count * PeerDescriptor.wireLength)) 0 count
      (by rw [List.length_take_of_le hroom', Nat.zero_add])
    rw [List.drop_zero, List.take_append_drop] at hentries
    rw [if_neg hroom, if_pos (by simpa using hroom')]
    dsimp only
    rw [hrest.take_eq hroom', pure_bind]
    dsimp only
    rw [hcount]
    obtain ⟨fault, hentries, htake⟩ | ⟨log, hentries, htake⟩ := hentries
    · rw [hentries, htake]
      exact .refused fault rfl rfl
    · rw [hentries, htake]
      exact .read log _ _ rfl rfl (hrest.advance hroom')

/-- The data section is taken by position as it is off the front. -/
theorem Stands.agrees_data (h : c.Stands rest) : Agrees id c.data (Report.takeData rest) := by
  rw [data, Report.takeData]
  cases h.agrees_number "data length" with
  | refused fault hx hy =>
    rw [hx, hy]
    exact .refused fault rfl rfl
  | read length c rest hx hy hrest =>
    rw [hx, hy, pure_bind]
    dsimp only [id_eq]
    cases hrest.agrees_take length "data section" with
    | refused fault hx hy =>
      rw [hx, hy]
      exact .refused fault rfl rfl
    | read field c rest hx hy hrest =>
      rw [hx, hy]
      exact .read field.toBytes c rest rfl rfl hrest

end Cursor

/-- Both readers of reports answer the same, and no step of the reading by position is out of
range. -/
theorem Report.decodeAt_eq (bytes : Bytes) : (decodeAt bytes).run = some (decode bytes) := by
  unfold decodeAt decode
  dsimp only
  split
  · rfl
  have hstart : Cursor.Stands ⟨bytes, 0⟩ bytes := ⟨Nat.zero_le _, rfl⟩
  refine (hstart.agrees_digest "digest").run_bind fun digest _ _ h => ?_
  refine (h.agrees_digest "hash history").run_bind fun history _ _ h => ?_
  refine h.agrees_log.run_bind fun log _ _ h => ?_
  refine (h.agrees_digest "platform digest").run_bind fun platform _ _ h => ?_
  refine (h.agrees_block 64 "signature").run_bind fun signature _ _ h => ?_
  refine h.agrees_data.run_bind fun data c rest h => ?_
  dsimp only [id_eq]
  rw [h.remaining_eq, Ranged.some_bind]
  cases rest with
  | nil => rfl
  | cons byte rest => rfl

end Enclaves
