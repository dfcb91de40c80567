import Enclaves.Json.Token
/-!
# Typed readers of JSON

A reader takes a value of a known shape off the front of a token list. Reading is streaming: tokens
are looked at in order and the first fault decides, so a text with two faults is refused for the
earlier one.

There are three kinds of fault, and telling them apart is the point of this module. `syntactic`: the
text is no JSON, or ends too early. `shape`: it is JSON so far, but not what was wanted here.
`refused`: the shape was right and the value was not accepted, for a reason its type gives.

A value of the wrong kind is a `shape` fault only once its own token made sense: a number beyond
the doubles or a string that is no text is `syntactic` even where something else was wanted
(`wrongKind`).
-/

namespace Enclaves.Json

inductive Fault where
  | syntactic
  | shape
  | refused (reason : String)
  deriving DecidableEq, Repr

/-- Takes a value off the front. -/
abbrev Reader (α : Type) := List Token → Except Fault (α × List Token)

namespace Reader

variable {α β : Type}

/-- The fault of a value that is not of the wanted kind: of no value at all, if none starts here. -/
def wrongKind : List Token → Fault
  | .objectOpen :: _ | .arrayOpen :: _ | .null :: _ | .bool _ :: _ | .text (some _) :: _
  | .natural _ :: _ => .shape
  | .real n :: _ => if n.isOutOfRange then .syntactic else .shape
  | _ => .syntactic

/-! ## Scalars -/

/-- A natural number below a bound, spelled without point and exponent. -/
def natural (bound : Nat) : Reader Nat
  | .natural n :: rest =>
    if n < bound then .ok (n, rest) else .error (wrongKind (.natural n :: rest))
  | tokens => .error (wrongKind tokens)

def bool : Reader Bool
  | .bool b :: rest => .ok (b, rest)
  | tokens => .error (wrongKind tokens)

def text : Reader String
  | .text (some s) :: rest => .ok (s, rest)
  | tokens => .error (wrongKind tokens)

def null : Reader Unit
  | .null :: rest => .ok ((), rest)
  | tokens => .error (wrongKind tokens)

/-- A punctuation mark that must stand here. -/
def mark (token : Token) : Reader Unit
  | [] => .error .syntactic
  | first :: rest => if first = token then .ok ((), rest) else .error .syntactic

/-! ## Combinators -/

def map (f : α → β) (read : Reader α) : Reader β := fun tokens =>
  match read tokens with
  | .ok (a, rest) => .ok (f a, rest)
  | .error fault => .error fault

/-- A value that its type may still refuse, after it was read to its end. -/
def refine (accept : α → Except String β) (read : Reader α) : Reader β := fun tokens =>
  match read tokens with
  | .ok (a, rest) =>
    match accept a with
    | .ok b => .ok (b, rest)
    | .error reason => .error (.refused reason)
  | .error fault => .error fault

/-- `null` for nothing. -/
def option (read : Reader α) : Reader (Option α)
  | .null :: rest => .ok (none, rest)
  | tokens => map some read tokens

/-- The elements of an array from an element on; `fuel` bounds their number. -/
def elements (read : Reader α) : (fuel : Nat) → Reader (List α)
  | 0, _ => .error .syntactic
  | fuel + 1, tokens =>
    match read tokens with
    | .error fault => .error fault
    | .ok (a, .comma :: rest) => map (a :: ·) (elements read fuel) rest
    | .ok (a, .arrayClose :: rest) => .ok ([a], rest)
    | .ok _ => .error .syntactic

/-- An array. It has fewer elements than the text has tokens. -/
def list (read : Reader α) : Reader (List α)
  | .arrayOpen :: .arrayClose :: rest => .ok ([], rest)
  | .arrayOpen :: rest => elements read rest.length rest
  | tokens => .error (wrongKind tokens)

/-- One of some names: as a string, or as the key of an object whose one member is `null`. What
starts with neither is not even a malformed choice. Nor is an object that starts with no key: keys
are strings, so whatever else stands there, even a value that makes sense, the text is no JSON. -/
def choice (names : List (String × α)) : Reader α
  | .text name :: rest =>
    match name with
    | none => .error .syntactic
    | some name =>
      match names.lookup name with
      | some a => .ok (a, rest)
      | none => .error .shape
  | .objectOpen :: rest =>
    match text rest with
    -- `text` takes a value of another kind for a `shape`; as a key it is no JSON
    | .error _ => .error .syntactic
    | .ok (name, rest) =>
      match names.lookup name with
      | none => .error .shape
      | some a =>
        match mark .colon rest with
        | .error fault => .error fault
        | .ok ((), rest) =>
          match null rest with
          | .error fault => .error fault
          | .ok ((), rest) => map (fun _ => a) (mark .objectClose) rest
  | _ => .error .syntactic

/-! ## Values nobody asked for -/

/-- A container that is being skipped. -/
inductive Frame where
  | array
  | object
  deriving DecidableEq

/-- What may stand next while a value is skipped. -/
inductive Due where
  | value
  | elementOrEnd
  | keyOrEnd
  | key
  | colon
  | commaOrEnd
  deriving DecidableEq

/-- Skip to the end of the value that started; `frames` are its open containers, innermost first.
The value need only be well-formed: its numbers may be of any size and its strings no text. -/
def skipTo : Due → (frames : List Frame) → List Token → Except Fault (List Token)
  | _, _, [] => .error .syntactic
  | due, frames, token :: rest =>
    let ended (frames : List Frame) : Except Fault (List Token) :=
      match frames with
      | [] => .ok rest
      | _ :: _ => skipTo .commaOrEnd frames rest
    match due, token with
    | .elementOrEnd, .arrayClose | .commaOrEnd, .arrayClose =>
      match frames with
      | .array :: outer => ended outer
      | _ => .error .syntactic
    | .keyOrEnd, .objectClose | .commaOrEnd, .objectClose =>
      match frames with
      | .object :: outer => ended outer
      | _ => .error .syntactic
    | .commaOrEnd, .comma =>
      match frames with
      | .object :: _ => skipTo .key frames rest
      | _ => skipTo .value frames rest
    | .key, .text _ | .keyOrEnd, .text _ => skipTo .colon frames rest
    | .colon, .colon => skipTo .value frames rest
    | .value, .arrayOpen | .elementOrEnd, .arrayOpen =>
      skipTo .elementOrEnd (.array :: frames) rest
    | .value, .objectOpen | .elementOrEnd, .objectOpen =>
      skipTo .keyOrEnd (.object :: frames) rest
    | .value, .null | .value, .bool _ | .value, .natural _ | .value, .real _ | .value, .text _
    | .elementOrEnd, .null | .elementOrEnd, .bool _ | .elementOrEnd, .natural _
    | .elementOrEnd, .real _ | .elementOrEnd, .text _ => ended frames
    | _, _ => .error .syntactic

/-- Skip one value. -/
def skip : Reader Unit := fun tokens =>
  match skipTo .value [] tokens with
  | .ok rest => .ok ((), rest)
  | .error fault => .error fault

end Reader

end Enclaves.Json
