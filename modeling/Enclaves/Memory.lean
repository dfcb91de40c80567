import Enclaves.Bytes
/-!
# Memory contents

The contents of a region. A region starts out as zeros and most of it stays so; only the part up to
the last byte ever written is kept, and `toBytes` is the view that every operation is about.
-/

namespace Enclaves

/-- `size` bytes, zero behind those that are listed. -/
structure Memory where
  size : Nat
  written : Bytes
  written_le : written.length ≤ size

namespace Memory

/-- The contents, byte by byte. -/
def toBytes (m : Memory) : Bytes := m.written.padTo m.size

/-- A memory has as many bytes as its size says. -/
@[simp] theorem length_toBytes (m : Memory) : m.toBytes.length = m.size := by
  have := m.written_le
  simp only [toBytes, Bytes.length_padTo]
  omega

def zeroed (size : Nat) : Memory := ⟨size, [], by simp⟩

def ofBytes (bytes : Bytes) : Memory := ⟨bytes.length, bytes, Nat.le_refl _⟩

/-- The bytes from offset `start` up to offset `stop`, as far as the memory goes. -/
def read (m : Memory) (start stop : Nat) : Bytes :=
  (m.written.slice start stop).padTo (min stop m.size - start)

/-- The memory with bytes put at an offset; what does not fit behind it is left out. -/
def write (m : Memory) (start : Nat) (bytes : Bytes) : Memory where
  size := m.size
  written :=
    let before : Bytes := m.written.take start
    (before.padTo start ++ bytes ++ m.written.drop (start + bytes.length)).take m.size
  written_le := by simp only [List.length_take]; omega

@[simp] theorem toBytes_zeroed (size : Nat) : (zeroed size).toBytes = Bytes.zeros size := by
  simp [zeroed, toBytes, Bytes.padTo]

@[simp] theorem toBytes_ofBytes (bytes : Bytes) : (ofBytes bytes).toBytes = bytes := by
  simp [ofBytes, toBytes, Bytes.padTo, Bytes.zeros]

/-- What fits replaces what was there, and nothing else changes. -/
theorem toBytes_write (m : Memory) {start : Nat} {bytes : Bytes}
    (h : start + bytes.length ≤ m.size) :
    (m.write start bytes).toBytes =
      m.toBytes.take start ++ (bytes ++ m.toBytes.drop (start + bytes.length)) := by
  have hle := m.written_le
  have hstart : (Bytes.padTo start (m.written.take start)).length = start := by
    rw [Bytes.length_padTo, List.length_take]
    omega
  have hfits : (Bytes.padTo start (m.written.take start) ++
      (bytes ++ m.written.drop (start + bytes.length))).length ≤ m.size := by
    rw [List.length_append, List.length_append, hstart, List.length_drop]
    omega
  simp only [toBytes, write, List.append_assoc]
  rw [List.take_of_length_le hfits, Bytes.padTo_append, Bytes.padTo_append, hstart, Nat.sub_sub,
    Bytes.take_padTo (by omega), Bytes.drop_padTo]

/-- What is read is a slice of the bytes. -/
theorem read_eq_slice (m : Memory) {start stop : Nat} (h : stop ≤ m.size) :
    m.read start stop = m.toBytes.slice start stop := by
  rw [read, Nat.min_eq_left h, toBytes, Bytes.slice, Bytes.slice, Bytes.drop_padTo,
    Bytes.take_padTo (by omega)]

end Memory

end Enclaves
