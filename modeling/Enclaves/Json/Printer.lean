import Enclaves.Json.Token
/-!
# From tokens to JSON text

Two layouts of a token list: `compact` adds no blank, `pretty` puts every element and member on a
line of its own, indented by two blanks for each bracket that is open, and keeps an empty container
on one line.

In a string the quote, the backslash and the controls are escaped, five of the controls by a letter
and the others by number in lower case; everything else stands for itself.
-/

namespace Enclaves.Json

/-- A character as it is written in a string. -/
def escape (c : Char) : List Char :=
  match c with
  | '"' => ['\\', '"']
  | '\\' => ['\\', '\\']
  | '\x08' => ['\\', 'b']
  | '\x0c' => ['\\', 'f']
  | '\n' => ['\\', 'n']
  | '\r' => ['\\', 'r']
  | '\t' => ['\\', 't']
  | c =>
    if c.toNat < 0x20 then
      ['\\', 'u', '0', '0', Nat.digitChar (c.toNat / 16), Nat.digitChar (c.toNat % 16)]
    else [c]

def quote (s : String) : List Char := '"' :: s.toList.flatMap escape ++ ['"']

/-- A number by its significand and power of ten. -/
def Number.spelling (n : Number) : List Char :=
  (if n.negative then ['-'] else []) ++ Nat.toDigits 10 n.significand ++
    'e' :: (toString n.power).toList

/-- A token as text. The tokens that only a lexer makes are written as what they stand for: a
string that is no text, and nothing. -/
def Token.spelling : Token → List Char
  | .objectOpen => ['{']
  | .objectClose => ['}']
  | .arrayOpen => ['[']
  | .arrayClose => [']']
  | .colon => [':']
  | .comma => [',']
  | .null => ['n', 'u', 'l', 'l']
  | .bool true => ['t', 'r', 'u', 'e']
  | .bool false => ['f', 'a', 'l', 's', 'e']
  | .natural n => Nat.toDigits 10 n
  | .real n => n.spelling
  | .text (some s) => quote s
  | .text none => ['"', '\\', 'u', 'd', '8', '0', '0', '"']
  | .stray => []

/-- No blanks at all. -/
def compact (tokens : List Token) : String := String.ofList (tokens.flatMap Token.spelling)

/-- A new line at a depth of brackets. -/
def newline (depth : Nat) : List Char := '\n' :: List.replicate (2 * depth) ' '

/-- The pretty layout inside `depth` open brackets. -/
def prettyFrom : (depth : Nat) → List Token → List Char
  | _, [] => []
  | depth, .objectOpen :: .objectClose :: rest => '{' :: '}' :: prettyFrom depth rest
  | depth, .arrayOpen :: .arrayClose :: rest => '[' :: ']' :: prettyFrom depth rest
  | depth, .objectOpen :: rest => '{' :: newline (depth + 1) ++ prettyFrom (depth + 1) rest
  | depth, .arrayOpen :: rest => '[' :: newline (depth + 1) ++ prettyFrom (depth + 1) rest
  | depth, .objectClose :: rest => newline (depth - 1) ++ '}' :: prettyFrom (depth - 1) rest
  | depth, .arrayClose :: rest => newline (depth - 1) ++ ']' :: prettyFrom (depth - 1) rest
  | depth, .comma :: rest => ',' :: newline depth ++ prettyFrom depth rest
  | depth, .colon :: rest => ':' :: ' ' :: prettyFrom depth rest
  | depth, token :: rest => token.spelling ++ prettyFrom depth rest

/-- One element or member to a line. -/
def pretty (tokens : List Token) : String := String.ofList (prettyFrom 0 tokens)

/-! ## Composite documents -/

/-- Documents with commas between them. -/
def separated : List (List Token) → List Token
  | [] => []
  | [last] => last
  | first :: rest => first ++ .comma :: separated rest

/-- An array of documents. -/
def array (elements : List (List Token)) : List Token :=
  .arrayOpen :: separated elements ++ [.arrayClose]

/-- An object; its members keep their order. -/
def object (members : List (String × List Token)) : List Token :=
  .objectOpen ::
    separated (members.map fun m => .text (some m.1) :: .colon :: m.2) ++ [.objectClose]

end Enclaves.Json
