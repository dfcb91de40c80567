import Enclaves.Json.Number
/-!
# JSON tokens

A JSON document is handled in its flat form, the list of its tokens: the lexer makes it from text,
readers consume it from the front, and printers lay it out again. Nothing here builds a tree.

A number without sign, point and exponent that fits 64 bits is `natural`, every other `real`.

Two tokens exist only on the way in. `text none` is a string whose escapes pair up to no text
(a lone surrogate); it may be skipped but not read. `stray` stands for the first place where the
text is no token at all, and ends the list.
-/

namespace Enclaves.Json

inductive Token where
  | objectOpen
  | objectClose
  | arrayOpen
  | arrayClose
  | colon
  | comma
  | null
  | bool (value : Bool)
  | natural (value : Nat)
  | real (value : Number)
  | text (value : Option String)
  | stray
  deriving DecidableEq, Repr

end Enclaves.Json
