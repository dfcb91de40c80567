import Enclaves.ConnectionLog
import Enclaves.Json.Printer
import Enclaves.Json.Record
import Enclaves.Layout
/-!
# Documents of single values

The JSON forms of the values that larger documents are made of. Each type has a writer, `toJson`,
and a reader, `json`; writers give the fields of a record in their declared order, readers accept
them in any.

A digest is a string and is checked when it is read. A log entry is read as a record and checked at
its end. Regions, layouts and logs are taken as they stand: only the checked constructors promise
more about them.
-/

namespace Enclaves

open Json

/-- A required field. -/
def required {α : Type} (name : String) (read : Reader α) : Json.Field α :=
  { name, read }

/-- A 32-bit word. -/
def wordJson : Reader UInt32 := Reader.map UInt32.ofNat (Reader.natural UInt32.size)

/-- A 64-bit number. -/
def numberJson : Reader Nat := Reader.natural UInt64.size

/-- A string token. -/
def textToken (s : String) : Token := .text (some s)

/-! ## Names -/

def Event.toJson (e : Event) : List Token := [textToken e.name]
def Event.json : Reader Event := Reader.choice Event.names

def EnclaveState.toJson (s : EnclaveState) : List Token := [textToken s.name]
def EnclaveState.json : Reader EnclaveState := Reader.choice EnclaveState.names

def Permission.toJson (p : Permission) : List Token := [textToken p.name]
def Permission.json : Reader Permission := Reader.choice Permission.names

def RegionKind.toJson (k : RegionKind) : List Token := [textToken k.name]
def RegionKind.json : Reader RegionKind := Reader.choice RegionKind.names

/-! ## Byte strings -/

def Digest.toJson (d : Digest) : List Token := [textToken d.toHex]

def Digest.json : Reader Digest :=
  Reader.refine (fun text => (Digest.ofHex text).mapError DigestFault.message) Reader.text

/-! ## Records -/

def EnclaveId.toJson (id : EnclaveId) : List Token :=
  object [("index", [.natural id.index.toNat]), ("generation", [.natural id.generation.toNat])]

def EnclaveId.json : Reader EnclaveId :=
  Reader.map (fun (index, generation, ()) => ⟨index, generation⟩)
    (Fields.cons (required "index" wordJson)
      (.cons (required "generation" wordJson) .nil)).record

def PeerDescriptor.toJson (d : PeerDescriptor) : List Token :=
  object [("peer", d.peer.toJson), ("event", d.event.toJson),
    ("reference", [textToken d.reference.text])]

def PeerDescriptor.json : Reader PeerDescriptor :=
  Reader.refine
    (fun (peer, event, text, ()) =>
      match Reference.ofString text with
      | .ok reference => .ok ⟨peer, event, reference⟩
      | .error fault => .error fault.message)
    (Fields.cons (required "peer" EnclaveId.json)
      (.cons (required "event" Event.json)
        (.cons (required "reference" Reader.text) .nil))).record

def ConnectionLog.toJson (log : ConnectionLog) : List Token :=
  object [("capacity", [.natural log.capacity]),
    ("entries", array (log.entries.map PeerDescriptor.toJson))]

def ConnectionLog.json : Reader ConnectionLog :=
  Reader.map (fun (capacity, entries, ()) => ⟨capacity, entries⟩)
    (Fields.cons (required "capacity" numberJson)
      (.cons (required "entries" (Reader.list PeerDescriptor.json)) .nil)).record

def Region.toJson (r : Region) : List Token :=
  object [("base", [.natural r.base]), ("len", [.natural r.size]),
    ("perm", r.permission.toJson), ("kind", r.kind.toJson)]

def Region.json : Reader Region :=
  Reader.map (fun (base, size, permission, kind, ()) => ⟨base, size, permission, kind⟩)
    (Fields.cons (required "base" numberJson)
      (.cons (required "len" numberJson)
        (.cons (required "perm" Permission.json)
          (.cons (required "kind" RegionKind.json) .nil)))).record

def Layout.toJson (l : Layout) : List Token :=
  object [("loader_base", [.natural l.loader]), ("runtime_base", [.natural l.runtime]),
    ("app_base", [.natural l.app]), ("free_base", [.natural l.free])]

def Layout.json : Reader Layout :=
  Reader.map (fun (loader, runtime, app, free, ()) => ⟨loader, runtime, app, free⟩)
    (Fields.cons (required "loader_base" numberJson)
      (.cons (required "runtime_base" numberJson)
        (.cons (required "app_base" numberJson)
          (.cons (required "free_base" numberJson) .nil)))).record

end Enclaves
