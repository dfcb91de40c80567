import Enclaves.Json.Reader
import Enclaves.Json.Lexer
/-!
# Records in JSON

A record is written as an object, its fields by name in any order, or as an array, its fields in
their declared order. In an object unknown keys are skipped, a repeated key is a fault as soon as it
is read, and a missing field is noticed at the closing brace; an array that ends early is noticed at
the bracket, and one that goes on is no JSON value of this shape and ends `syntactic`.

`Fields σ α` lists the fields of a record whose values are the nested pair `α`; while an object is
being read, the nested pair `σ` of options holds what has been seen of it.
-/

namespace Enclaves.Json

/-- A field: what stands in for it if an object lacks it, or if an array ends before it. -/
structure Field (α : Type) where
  name : String
  read : Reader α
  absent : Option α := none
  beyond : Option α := none

/-- The fields of a record, in order. Their values form a nested pair, and so do the slots that hold
them while they come in. -/
inductive Fields : (σ α : Type) → Type 1 where
  | nil : Fields Unit Unit
  | cons {σ α β : Type} (field : Field α) (rest : Fields σ β) : Fields (Option α × σ) (α × β)

namespace Fields

/-- Nothing read yet. -/
def unread : {σ α : Type} → Fields σ α → σ
  | _, _, .nil => ()
  | _, _, .cons _ rest => (none, rest.unread)

/-- What a key says: nothing if it is unknown, else a reader of the member's value, which fills the
field; a field that is already filled is a fault at once. -/
def offer : {σ α : Type} → Fields σ α → (key : String) → σ → Option (Except Fault (Reader σ))
  | _, _, .nil, _, _ => none
  | _, _, .cons field rest, key, (slot, slots) =>
    if key = field.name then
      match slot with
      | some _ => some (.error .shape)
      | none => some (.ok (Reader.map (fun a => (some a, slots)) field.read))
    else
      match rest.offer key slots with
      | none => none
      | some (.error fault) => some (.error fault)
      | some (.ok read) => some (.ok (Reader.map (fun slots => (slot, slots)) read))

/-- The record at the end of an object. -/
def close : {σ α : Type} → Fields σ α → σ → Except Fault α
  | _, _, .nil, _ => .ok ()
  | _, _, .cons field rest, (slot, slots) =>
    match slot.or field.absent with
    | none => .error .shape
    | some a =>
      match rest.close slots with
      | .ok b => .ok (a, b)
      | .error fault => .error fault

/-- The members of an object from a key on; `fuel` bounds their number. -/
def members {σ α : Type} (fields : Fields σ α) : (fuel : Nat) → σ → Reader α
  | 0, _, _ => .error .syntactic
  | fuel + 1, slots, .text (some key) :: rest =>
    let value : Except Fault (Reader σ) :=
      match fields.offer key slots with
      | none => .ok (Reader.map (fun _ => slots) Reader.skip)
      | some read => read
    match value with
    | .error fault => .error fault
    | .ok read =>
      match Reader.mark .colon rest with
      | .error fault => .error fault
      | .ok ((), rest) =>
        match read rest with
        | .error fault => .error fault
        | .ok (slots, .comma :: rest) => members fields fuel slots rest
        | .ok (slots, .objectClose :: rest) =>
          match fields.close slots with
          | .ok a => .ok (a, rest)
          | .error fault => .error fault
        | .ok _ => .error .syntactic
  | _ + 1, _, _ => .error .syntactic

/-- The elements of an array, after its bracket or after an element. -/
def items : {σ α : Type} → Fields σ α → (first : Bool) → Reader α
  | _, _, .nil, _, tokens => Reader.mark .arrayClose tokens
  | _, _, .cons field rest, _, .arrayClose :: tokens =>
    match field.beyond with
    | none => .error .shape
    | some a => Reader.map (fun b => (a, b)) (rest.items false) (.arrayClose :: tokens)
  | _, _, .cons field rest, first, tokens =>
    match if first then .ok ((), tokens) else Reader.mark .comma tokens with
    | .error fault => .error fault
    | .ok ((), tokens) =>
      match field.read tokens with
      | .error fault => .error fault
      | .ok (a, tokens) => Reader.map (fun b => (a, b)) (rest.items false) tokens

/-- A record, in either form. -/
def record {σ α : Type} (fields : Fields σ α) : Reader α
  | .objectOpen :: .objectClose :: rest =>
    match fields.close fields.unread with
    | .ok a => .ok (a, rest)
    | .error fault => .error fault
  | .objectOpen :: rest => fields.members rest.length fields.unread rest
  | .arrayOpen :: rest => fields.items true rest
  | tokens => .error (Reader.wrongKind tokens)

end Fields

/-- A text that holds one value and nothing after it. -/
def parse {α : Type} (read : Reader α) (text : String) : Except Fault α :=
  match read (lex text.toList) with
  | .error fault => .error fault
  | .ok (a, []) => .ok a
  | .ok (_, _ :: _) => .error .syntactic

end Enclaves.Json
