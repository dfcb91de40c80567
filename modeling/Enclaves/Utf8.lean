import Enclaves.Bytes
/-!
# UTF-8

Text goes out as its UTF-8 bytes and comes in through `decode`. Whether bytes are text at all is
decided by the standard library's own reader. What this module adds is the place and kind of the
first fault, from the table of well-formed byte sequences of the Unicode standard: a lead byte fixes
which ranges the bytes after it must lie in.

A fault is reported at the start of its sequence. If a following byte lies outside its range the
sequence is invalid, and its length counts the bytes before that one; if the input ends while
bytes are still due, the sequence is incomplete.
-/

namespace Enclaves.Utf8

/-- The UTF-8 bytes of a text. -/
def encode (text : String) : Bytes := text.toUTF8.data.toList

/-- Why bytes are no text. -/
inductive Fault where
  | invalid (length start : Nat)
  | incomplete (start : Nat)
  deriving DecidableEq, Repr

def Fault.message : Fault → String
  | .invalid length start => s!"invalid utf-8 sequence of {length} bytes from index {start}"
  | .incomplete start => s!"incomplete utf-8 byte sequence from index {start}"

/-- The ranges that the bytes after a lead byte must lie in; none if no sequence starts so. -/
def followers (lead : UInt8) : Option (List (UInt8 × UInt8)) :=
  if lead ≤ 0x7f then some []
  else if lead < 0xc2 then none
  else if lead ≤ 0xdf then some [(0x80, 0xbf)]
  else if lead = 0xe0 then some [(0xa0, 0xbf), (0x80, 0xbf)]
  else if lead = 0xed then some [(0x80, 0x9f), (0x80, 0xbf)]
  else if lead ≤ 0xef then some [(0x80, 0xbf), (0x80, 0xbf)]
  else if lead = 0xf0 then some [(0x90, 0xbf), (0x80, 0xbf), (0x80, 0xbf)]
  else if lead ≤ 0xf3 then some [(0x80, 0xbf), (0x80, 0xbf), (0x80, 0xbf)]
  else if lead = 0xf4 then some [(0x80, 0x8f), (0x80, 0xbf), (0x80, 0xbf)]
  else none

/-- The first fault from here on. `start` is where the current sequence starts, `seen` how many of
its bytes are read, and `due` holds the ranges of those still to come.

It is asked only of bytes that are no text, so the input ends inside a sequence or never here. -/
def firstFault (start seen : Nat) : (due : List (UInt8 × UInt8)) → Bytes → Fault
  | _, [] => .incomplete start
  | [], lead :: rest =>
    match followers lead with
    | none => .invalid 1 (start + seen)
    | some due => firstFault (start + seen) 1 due rest
  | (low, high) :: due, byte :: rest =>
    if low ≤ byte ∧ byte ≤ high then firstFault start (seen + 1) due rest
    else .invalid seen start

/-- The text that bytes stand for, or the first fault in them. -/
def decode (bytes : Bytes) : Except Fault String :=
  match String.fromUTF8? ⟨bytes.toArray⟩ with
  | some text => .ok text
  | none => .error (firstFault 0 0 [] bytes)

/-- A text is read back from its bytes. -/
@[simp] theorem decode_encode (text : String) : decode (encode text) = .ok text := by
  have hread : String.fromUTF8? text.toUTF8 = some text := by
    unfold String.fromUTF8?
    rw [String.toUTF8_eq_toByteArray, dif_pos text.isValidUTF8]
    rfl
  simp only [decode, encode, Array.toArray_toList, hread]

/-- A text is read from its own bytes only. -/
theorem encode_of_decode {text : String} {bytes : Bytes} (h : decode bytes = .ok text) :
    encode text = bytes := by
  unfold decode at h
  split at h
  · rename_i hread
    cases h
    unfold String.fromUTF8? at hread
    split at hread
    · cases hread
      simp [encode, String.fromUTF8]
    · cases hread
  · cases h

end Enclaves.Utf8
