/-!
# Byte strings

The carrier of everything that is hashed, stored or sent. `Bytes` is a list, so that a codec law
is an induction on its data.

Three things are fixed here once for the whole library: zero padding (`padTo`), numbers written
least byte first (`littleEndian`), and byte strings whose length is part of the type (`Block`).
A reader of a byte string answers the value and the rest; `Block.read?` is the only primitive one,
and its two laws say that it takes off exactly what `++` put in front.
-/

namespace Enclaves

/-- A byte string. -/
abbrev Bytes := List UInt8

namespace Bytes

/-- A run of zero bytes. -/
def zeros (n : Nat) : Bytes := List.replicate n 0

@[simp] theorem length_zeros (n : Nat) : (zeros n).length = n := by simp [zeros]

/-- Zero bytes after the end, up to length `n`; a longer byte string is left as it is. -/
def padTo (n : Nat) (b : Bytes) : Bytes := b ++ zeros (n - b.length)

/-- Padding only ever lengthens. -/
theorem length_padTo (n : Nat) (b : Bytes) : (padTo n b).length = max n b.length := by
  simp only [padTo, List.length_append, length_zeros]; omega

/-- The padding of two strings in a row is that of the second, in the room the first leaves. -/
theorem padTo_append (n : Nat) (a b : Bytes) :
    padTo n (a ++ b) = a ++ padTo (n - a.length) b := by
  simp only [padTo, List.length_append, List.append_assoc, Nat.sub_sub]

/-- The front of a padded string is its own front, padded. -/
theorem take_padTo {n k : Nat} (h : k ≤ n) (b : Bytes) :
    (padTo n b).take k = padTo k (b.take k) := by
  have hcount : min (k - b.length) (n - b.length) = k - min k b.length := by omega
  simp only [padTo, zeros, List.take_append, List.take_replicate, List.length_take, hcount]

/-- The rest of a padded string is its own rest, padded to the room that is left. -/
theorem drop_padTo (n k : Nat) (b : Bytes) :
    (padTo n b).drop k = padTo (n - k) (b.drop k) := by
  have hcount : n - b.length - (k - b.length) = n - k - (b.length - k) := by omega
  simp only [padTo, zeros, List.drop_append, List.drop_replicate, List.length_drop, hcount]

/-- The bytes from offset `start` up to offset `stop`. -/
def slice (start stop : Nat) (b : Bytes) : Bytes := (b.drop start).take (stop - start)

/-- A slice from the start to the end of the first string is that string. -/
theorem slice_append_left {stop : Nat} {b after : Bytes} (hstop : b.length = stop) :
    slice 0 stop (b ++ after) = b := by
  rw [slice, List.drop_zero, Nat.sub_zero, List.take_left' hstop]

/-- What stands between two byte strings, by where it stands. -/
theorem slice_append_middle {start stop : Nat} {before b after : Bytes}
    (hstart : before.length = start) (hstop : start + b.length = stop) :
    slice start stop (before ++ (b ++ after)) = b := by
  rw [slice, List.drop_left' hstart, List.take_left' (by omega)]

/-- A slice that ends in range is as long as its bounds say. -/
theorem length_slice {start stop : Nat} {b : Bytes} (hstop : stop ≤ b.length) :
    (b.slice start stop).length = stop - start := by
  rw [slice, List.length_take, List.length_drop]
  omega

/-- What is left from an offset on starts with the byte there. -/
theorem drop_eq_cons {i : Nat} {b : Bytes} (h : i < b.length) :
    b.drop i = b.getD i 0 :: b.drop (i + 1) := by
  rw [List.getD_eq_getElem?_getD, List.getElem?_eq_getElem h, Option.getD_some]
  exact List.drop_eq_getElem_cons h

/-- A byte string from an offset on, cut at a later one. -/
theorem slice_append_drop {start stop : Nat} (h : start ≤ stop) (b : Bytes) :
    b.slice start stop ++ b.drop stop = b.drop start := by
  have hstop : b.drop stop = (b.drop start).drop (stop - start) := by
    rw [List.drop_drop, Nat.add_sub_cancel' h]
  rw [slice, hstop, List.take_append_drop]

/-- `width` bytes of a number, the lowest first. What does not fit in them is cut off. -/
def littleEndian : (width : Nat) → Nat → Bytes
  | 0, _ => []
  | width + 1, n => UInt8.ofNat n :: littleEndian width (n / 256)

/-- The number that bytes stand for, the first byte the lowest. -/
def ofLittleEndian : Bytes → Nat
  | [] => 0
  | b :: rest => b.toNat + 256 * ofLittleEndian rest

/-- A number is written in the width that was asked for, whether it fits or not. -/
@[simp] theorem length_littleEndian (width n : Nat) : (littleEndian width n).length = width := by
  induction width generalizing n with
  | zero => rfl
  | succ width ih => simp [littleEndian, ih]

/-- Reading back gives the number modulo what the width can hold. -/
theorem ofLittleEndian_littleEndian (width n : Nat) :
    ofLittleEndian (littleEndian width n) = n % Nat.pow 256 width := by
  induction width generalizing n with
  | zero => simp [littleEndian, ofLittleEndian, Nat.mod_one]
  | succ width ih =>
    simp only [littleEndian, ofLittleEndian, ih, UInt8.toNat_ofNat', Nat.pow_eq, Nat.pow_succ']
    exact (Nat.mod_mul ..).symm

/-- Numbers that fit are told apart by their bytes. -/
theorem littleEndian_inj {width n n' : Nat} (hfit : n < Nat.pow 256 width)
    (hfit' : n' < Nat.pow 256 width) (h : littleEndian width n = littleEndian width n') :
    n = n' := by
  have hread := congrArg ofLittleEndian h
  rwa [ofLittleEndian_littleEndian, ofLittleEndian_littleEndian, Nat.mod_eq_of_lt hfit,
    Nat.mod_eq_of_lt hfit'] at hread

/-- The other direction: bytes are the digits of their number. -/
theorem littleEndian_ofLittleEndian (b : Bytes) :
    littleEndian b.length (ofLittleEndian b) = b := by
  induction b with
  | nil => rfl
  | cons a rest ih =>
    have hdiv : (a.toNat + 256 * ofLittleEndian rest) / 256 = ofLittleEndian rest := by
      have := a.toNat_lt
      omega
    have hmod : UInt8.ofNat (a.toNat + 256 * ofLittleEndian rest) = a := by
      apply UInt8.toNat_inj.mp
      have := a.toNat_lt
      rw [UInt8.toNat_ofNat']
      omega
    simp only [List.length_cons, littleEndian, ofLittleEndian, hdiv, hmod, ih]

/-- Bytes spell a number that fits their width. -/
theorem ofLittleEndian_lt (b : Bytes) : ofLittleEndian b < Nat.pow 256 b.length := by
  induction b with
  | nil => simp [ofLittleEndian]
  | cons a rest ih =>
    rw [Nat.pow_eq] at ih
    simp only [ofLittleEndian, List.length_cons, Nat.pow_eq, Nat.pow_succ]
    have := a.toNat_lt
    omega

end Bytes

/-! ## Byte strings of a fixed length -/

/-- A byte string of length `n`. -/
structure Block (n : Nat) where
  toBytes : Bytes
  length_eq : toBytes.length = n
  deriving DecidableEq

namespace Block

variable {n : Nat}

@[simp] theorem length_toBytes (b : Block n) : b.toBytes.length = n := b.length_eq

/-- Blocks with the same bytes are the same. -/
theorem ext_toBytes {a b : Block n} (h : a.toBytes = b.toBytes) : a = b := by
  cases a; cases b; simp_all

/-- A byte string as a block, if its length is right. -/
def ofBytes? (b : Bytes) : Option (Block n) :=
  if h : b.length = n then some ⟨b, h⟩ else none

/-- The bytes of a block are a block again. -/
theorem ofBytes?_toBytes (a : Block n) : ofBytes? a.toBytes = some a := dif_pos a.length_eq

/-- A block that was made of bytes has those bytes. -/
theorem toBytes_of_ofBytes? {b : Bytes} {a : Block n} (h : ofBytes? b = some a) :
    a.toBytes = b := by
  unfold ofBytes? at h
  split at h
  · cases h
    rfl
  · cases h

/-- The first `n` bytes and the rest. -/
def read? (b : Bytes) : Option (Block n × Bytes) :=
  if h : n ≤ b.length then some (⟨b.take n, by simp [h]⟩, b.drop n) else none

/-- Forward: a block in front is read back, and nothing after it is touched. -/
theorem read?_append (a : Block n) (rest : Bytes) : read? (a.toBytes ++ rest) = some (a, rest) := by
  obtain ⟨bytes, rfl⟩ := a
  simp [read?]

/-- Exactness: what was read stood in front. -/
theorem eq_append_of_read? {b rest : Bytes} {a : Block n} (h : read? b = some (a, rest)) :
    b = a.toBytes ++ rest := by
  unfold read? at h
  split at h
  · simp only [Option.some.injEq, Prod.mk.injEq] at h
    obtain ⟨rfl, rfl⟩ := h
    simp
  · simp at h

end Block

end Enclaves
