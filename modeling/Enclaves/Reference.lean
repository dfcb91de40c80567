import Enclaves.Utf8
/-!
# Image references

The name under which a verifier looks up an enclave's application. It travels in a field of 256
bytes that a zero byte ends, so it has at most 255 bytes of UTF-8 and none of them is zero. The type
promises both, and `Reference.ofString` is the only way in.
-/

namespace Enclaves

/-- The longest reference, in bytes. -/
def referenceMax : Nat := 255

/-- A text that fits a reference field. -/
structure Reference where
  text : String
  length_le : (Utf8.encode text).length ≤ referenceMax
  no_zero : (0 : UInt8) ∉ Utf8.encode text
  deriving DecidableEq

/-- Why a text is no reference. -/
inductive ReferenceFault where
  | tooLong (bytes : Nat)
  | zeroByte
  deriving DecidableEq, Repr

def ReferenceFault.message : ReferenceFault → String
  | .tooLong bytes => s!"image reference is {bytes} bytes, limit is {referenceMax}"
  | .zeroByte => "image reference contains a NUL byte"

namespace Reference

/-- The UTF-8 bytes of a reference. -/
def bytes (r : Reference) : Bytes := Utf8.encode r.text

/-- References with the same text are the same. -/
theorem ext_text {a b : Reference} (h : a.text = b.text) : a = b := by
  cases a; cases b; simp_all

/-- A text as a reference; its length is looked at first. -/
def ofString (text : String) : Except ReferenceFault Reference :=
  let bytes := Utf8.encode text
  if hlength : bytes.length ≤ referenceMax then
    if hzero : (0 : UInt8) ∈ bytes then .error .zeroByte
    else .ok ⟨text, hlength, hzero⟩
  else .error (.tooLong bytes.length)

/-- Every reference is accepted again. -/
@[simp] theorem ofString_text (r : Reference) : ofString r.text = .ok r := by
  obtain ⟨text, hlength, hzero⟩ := r
  simp [ofString, hlength, hzero]

/-- A reference is accepted as it stands. -/
theorem text_of_ofString {text : String} {r : Reference} (h : ofString text = .ok r) :
    r.text = text := by
  simp only [ofString] at h
  split at h
  · split at h
    · simp at h
    · simp only [Except.ok.injEq] at h; rw [← h]
  · simp at h

end Reference

end Enclaves
