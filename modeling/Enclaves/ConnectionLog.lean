import Enclaves.EnclaveId
import Enclaves.History
import Enclaves.Reference
/-!
# Connection logs

One entry for each connection event, as seen from the enclave that keeps the log: the peer's handle,
the event, and the reference of the peer's image. A log has a capacity and refuses entries beyond
it; it never drops or overwrites one.

An entry has a wire form of 272 bytes: index and generation as four bytes each, the event's code,
seven reserved bytes, and the reference in a field of 256 bytes, zero filled. The reader looks at
neither the reserved bytes nor what follows the first zero of the field.
-/

namespace Enclaves

/-- An entry of a connection log. -/
structure PeerDescriptor where
  peer : EnclaveId
  event : Event
  reference : Reference
  deriving DecidableEq

/-- Why bytes are no entry. -/
inductive DescriptorFault where
  | length (bytes : Nat)
  | event (code : UInt8)
  | unterminated
  | encoding (fault : Utf8.Fault)
  | reference (fault : ReferenceFault)
  deriving DecidableEq, Repr

namespace PeerDescriptor

/-- Bytes of the reference field, the zero that ends it included. -/
def fieldLength : Nat := referenceMax + 1

/-- Bytes that mean nothing. -/
def reserved : Nat := 7

/-- Bytes of an entry. -/
def wireLength : Nat := 4 + 4 + 1 + reserved + fieldLength

end PeerDescriptor

def DescriptorFault.message : DescriptorFault → String
  | .length bytes =>
    s!"peer descriptor must be {PeerDescriptor.wireLength} bytes, got {bytes}"
  | .event code => s!"unknown connection event code {code}"
  | .unterminated => "image reference is not NUL terminated"
  | .encoding fault => "image reference is not UTF-8: " ++ fault.message
  | .reference fault => fault.message

namespace PeerDescriptor

/-- The wire form of an entry. -/
def encode (d : PeerDescriptor) : Bytes :=
  Bytes.littleEndian 4 d.peer.index.toNat ++ Bytes.littleEndian 4 d.peer.generation.toNat ++
    d.event.code :: Bytes.zeros reserved ++ d.reference.bytes.padTo fieldLength

/-- An entry takes its fixed number of bytes, however long its reference is. -/
theorem length_encode (d : PeerDescriptor) : d.encode.length = wireLength := by
  have := d.reference.length_le
  simp only [encode, Reference.bytes, List.length_append, List.length_cons, Bytes.length_zeros,
    Bytes.length_littleEndian, Bytes.length_padTo, wireLength, fieldLength, reserved,
    referenceMax] at *
  omega

/-- The reference in a field: its bytes up to the first zero. -/
def decodeField (field : Bytes) : Except DescriptorFault Reference :=
  let text := field.takeWhile (· ≠ 0)
  if referenceMax < text.length then .error .unterminated
  else
    match Utf8.decode text with
    | .error fault => .error (.encoding fault)
    | .ok text =>
      match Reference.ofString text with
      | .error fault => .error (.reference fault)
      | .ok reference => .ok reference

/-- The entry that 272 bytes stand for. -/
def decode (bytes : Bytes) : Except DescriptorFault PeerDescriptor :=
  if bytes.length ≠ wireLength then .error (.length bytes.length)
  else
    let word (start : Nat) : UInt32 :=
      .ofNat (Bytes.ofLittleEndian (bytes.slice start (start + 4)))
    let code := bytes.getD 8 0
    match Event.ofCode? code with
    | none => .error (.event code)
    | some event =>
      match decodeField (bytes.drop (8 + 1 + reserved)) with
      | .error fault => .error fault
      | .ok reference => .ok ⟨⟨word 0, word 4⟩, event, reference⟩

/-- Nothing but 272 bytes is an entry. -/
theorem length_of_decode {bytes : Bytes} {d : PeerDescriptor} (h : decode bytes = .ok d) :
    bytes.length = wireLength := by
  unfold decode at h
  split at h
  · cases h
  · exact Decidable.not_not.mp ‹_›

/-- A field holds the reference in front of its first zero. -/
theorem decodeField_append (reference : Reference) {rest : Bytes}
    (hrest : rest.takeWhile (· ≠ 0) = []) :
    decodeField (reference.bytes ++ rest) = .ok reference := by
  have hnonzero : ∀ byte ∈ reference.bytes, decide (byte ≠ 0) = true := by
    intro byte hmem
    refine decide_eq_true fun hzero => reference.no_zero ?_
    rw [← hzero]
    exact hmem
  have htext : (reference.bytes ++ rest).takeWhile (· ≠ 0) = reference.bytes := by
    rw [List.takeWhile_append_of_pos hnonzero, hrest, List.append_nil]
  have hlength : ¬ referenceMax < reference.bytes.length := Nat.not_lt.mpr reference.length_le
  simp only [decodeField, htext, if_neg hlength]
  simp [Reference.bytes]

/-- A reference is read back from its field, whatever the size of the field. -/
theorem decodeField_padTo (reference : Reference) (n : Nat) :
    decodeField (reference.bytes.padTo n) = .ok reference :=
  decodeField_append reference (by simp [Bytes.zeros])

/-- An entry is read back from its wire form. -/
theorem decode_encode (d : PeerDescriptor) : decode d.encode = .ok d := by
  have hword (word : UInt32) :
      UInt32.ofNat (Bytes.ofLittleEndian (Bytes.littleEndian 4 word.toNat)) = word := by
    rw [Bytes.ofLittleEndian_littleEndian]
    apply UInt32.toNat_inj.mp
    simp
  have hindex : d.encode.slice 0 4 = Bytes.littleEndian 4 d.peer.index.toNat := by
    simp [encode, Bytes.slice]
  have hgeneration : d.encode.slice 4 8 = Bytes.littleEndian 4 d.peer.generation.toNat := by
    simp [encode, Bytes.slice]
  have hcode : d.encode.getD 8 0 = d.event.code := by
    simp [encode, List.getElem?_append]
  have hfield : d.encode.drop (8 + 1 + reserved) = d.reference.bytes.padTo fieldLength := by
    simp [encode, List.drop_append, List.drop_of_length_le, reserved]
  simp only [decode, length_encode, ne_eq, not_true_eq_false, if_false, Nat.zero_add, hindex,
    hgeneration, hcode, hfield, hword, Event.ofCode?_eq_some_iff.mpr rfl, decodeField_padTo]

end PeerDescriptor

/-- A bounded sequence of entries, the oldest first. Logs that come out of a document are not
checked against their capacity. -/
structure ConnectionLog where
  capacity : Nat
  entries : List PeerDescriptor
  deriving DecidableEq

namespace ConnectionLog

def empty (capacity : Nat) : ConnectionLog := ⟨capacity, []⟩

def length (log : ConnectionLog) : Nat := log.entries.length

def isEmpty (log : ConnectionLog) : Bool := log.entries.isEmpty

def isFull (log : ConnectionLog) : Bool := log.capacity ≤ log.entries.length

/-- The log with one more entry, or the entry back if there is no room for it. -/
def push (log : ConnectionLog) (entry : PeerDescriptor) : Except PeerDescriptor ConnectionLog :=
  if log.isFull then .error entry else .ok { log with entries := log.entries ++ [entry] }

/-- The log without its newest entry. -/
def dropLast (log : ConnectionLog) : ConnectionLog := { log with entries := log.entries.dropLast }

/-- Taking back what was just pushed. -/
theorem dropLast_of_push {log log' : ConnectionLog} {entry : PeerDescriptor}
    (h : log.push entry = .ok log') : log'.dropLast = log := by
  unfold push at h
  split at h
  · simp at h
  · simp only [Except.ok.injEq] at h
    subst h
    simp [dropLast]

end ConnectionLog

end Enclaves
