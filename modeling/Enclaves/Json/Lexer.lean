import Enclaves.Json.Token
/-!
# From JSON text to tokens

An automaton that takes one character at a time, so that `lex` is a fold and needs no measure. Its
mode says which token is half read.

Strings are collected as pieces, since an escape `\uXXXX` names half a character when it is a
surrogate; at the closing quote the pieces are put together. Numbers follow the JSON grammar: no
leading zeros, digits on both sides of the point, digits after the exponent's sign.
-/

namespace Enclaves.Json

/-! ## Strings -/

/-- A piece of a string: a character that stands for itself, or an escaped UTF-16 unit. -/
inductive Piece where
  | char (c : Char)
  | unit (n : Nat)
  deriving DecidableEq, Repr

def isHighSurrogate (n : Nat) : Bool := 0xd800 ≤ n && n ≤ 0xdbff
def isLowSurrogate (n : Nat) : Bool := 0xdc00 ≤ n && n ≤ 0xdfff

/-- Pieces as characters, if every surrogate is one of a pair. -/
def assemble : List Piece → Option (List Char)
  | [] => some []
  | .char c :: rest => (assemble rest).map (c :: ·)
  | .unit high :: .unit low :: rest =>
    if isHighSurrogate high then
      if isLowSurrogate low then
        (assemble rest).map
          (Char.ofNat (0x10000 + (high - 0xd800) * 0x400 + (low - 0xdc00)) :: ·)
      else none
    else if isLowSurrogate high then none
    else (assemble (.unit low :: rest)).map (Char.ofNat high :: ·)
  | .unit n :: rest =>
    if isHighSurrogate n || isLowSurrogate n then none
    else (assemble rest).map (Char.ofNat n :: ·)

/-- The character of a short escape. -/
def shortEscape? : Char → Option Char
  | '"' => some '"'
  | '\\' => some '\\'
  | '/' => some '/'
  | 'b' => some '\x08'
  | 'f' => some '\x0c'
  | 'n' => some '\n'
  | 'r' => some '\r'
  | 't' => some '\t'
  | _ => none

/-- The value of a hexadecimal digit, in either case. -/
def hexValue? (c : Char) : Option Nat :=
  if '0' ≤ c ∧ c ≤ '9' then some (c.toNat - '0'.toNat)
  else if 'a' ≤ c ∧ c ≤ 'f' then some (c.toNat - 'a'.toNat + 10)
  else if 'A' ≤ c ∧ c ≤ 'F' then some (c.toNat - 'A'.toNat + 10)
  else none

/-! ## The automaton -/

/-- How far a number is read. A number may end after `zero`, `whole`, `fraction` and `power`. -/
inductive NumberPart where
  | minus
  | zero
  | whole
  | point
  | fraction
  | mark
  | sign
  | power
  deriving DecidableEq, Repr

/-- What is half read. Pieces are kept newest first. -/
inductive Mode where
  | between
  | word (due : List Char) (token : Token)
  | string (pieces : List Piece)
  | escape (pieces : List Piece)
  | unit (pieces : List Piece) (due : Nat) (value : Nat)
  | number (part : NumberPart) (value : Numeral)
  | broken

/-- The token of a finished number: without sign, point and exponent it is natural, if it fits. -/
def numberToken (part : NumberPart) (value : Numeral) : Token :=
  if value.negative ∨ value.isFull then .real value.toNumber
  else
    match part with
    | .zero | .whole => .natural value.significand
    | _ => .real value.toNumber

def NumberPart.isComplete : NumberPart → Bool
  | .zero | .whole | .fraction | .power => true
  | _ => false

/-- One character of a number, or nothing if the number does not go on with it. -/
def NumberPart.next (part : NumberPart) (value : Numeral) (c : Char) :
    Option (NumberPart × Numeral) :=
  let digit := c.toNat - '0'.toNat
  match part with
  | .minus =>
    if c = '0' then some (.zero, value)
    else if c.isDigit then some (.whole, value.whole digit) else none
  | .zero =>
    if c = '.' then some (.point, value.point)
    else if c = 'e' ∨ c = 'E' then some (.mark, value) else none
  | .whole =>
    if c.isDigit then some (.whole, value.whole digit)
    else if c = '.' then some (.point, value.point)
    else if c = 'e' ∨ c = 'E' then some (.mark, value) else none
  | .point => if c.isDigit then some (.fraction, value.fraction digit) else none
  | .fraction =>
    if c.isDigit then some (.fraction, value.fraction digit)
    else if c = 'e' ∨ c = 'E' then some (.mark, value) else none
  | .mark =>
    if c = '+' then some (.sign, value)
    else if c = '-' then some (.sign, { value with lowers := true })
    else if c.isDigit then some (.power, value.raise digit) else none
  | .sign | .power => if c.isDigit then some (.power, value.raise digit) else none

/-- A character between tokens. -/
def open? (c : Char) : Option (Option Token × Mode) :=
  let number (part : NumberPart) (value : Numeral) := some (none, Mode.number part value)
  if c = ' ' ∨ c = '\n' ∨ c = '\t' ∨ c = '\r' then some (none, .between)
  else if c = '{' then some (some .objectOpen, .between)
  else if c = '}' then some (some .objectClose, .between)
  else if c = '[' then some (some .arrayOpen, .between)
  else if c = ']' then some (some .arrayClose, .between)
  else if c = ':' then some (some .colon, .between)
  else if c = ',' then some (some .comma, .between)
  else if c = '"' then some (none, .string [])
  else if c = 'n' then some (none, .word ['u', 'l', 'l'] .null)
  else if c = 't' then some (none, .word ['r', 'u', 'e'] (.bool true))
  else if c = 'f' then some (none, .word ['a', 'l', 's', 'e'] (.bool false))
  else if c = '-' then number .minus (.start true)
  else if c = '0' then number .zero (.start false)
  else if c.isDigit then number .whole ((Numeral.start false).whole (c.toNat - '0'.toNat))
  else none

/-- The automaton's state: the mode and the tokens so far, newest first. -/
abbrev Lexing := Mode × List Token

/-- The text stops making sense here. -/
def giveUp (tokens : List Token) : Lexing := (.broken, .stray :: tokens)

/-- A character between tokens, after the given ones. -/
def begin? (tokens : List Token) (c : Char) : Lexing :=
  match open? c with
  | some (some token, mode) => (mode, token :: tokens)
  | some (none, mode) => (mode, tokens)
  | none => giveUp tokens

/-- One character. -/
def feed : Lexing → Char → Lexing
  | (.between, tokens), c => begin? tokens c
  | (.word due token, tokens), c =>
    match due with
    | [] => giveUp tokens
    | [last] => if c = last then (.between, token :: tokens) else giveUp tokens
    | next :: due => if c = next then (.word due token, tokens) else giveUp tokens
  | (.string pieces, tokens), c =>
    if c = '"' then
      (.between, .text ((assemble pieces.reverse).map String.ofList) :: tokens)
    else if c = '\\' then (.escape pieces, tokens)
    else if c.toNat < 0x20 then giveUp tokens
    else (.string (.char c :: pieces), tokens)
  | (.escape pieces, tokens), c =>
    if c = 'u' then (.unit pieces 4 0, tokens)
    else
      match shortEscape? c with
      | some plain => (.string (.char plain :: pieces), tokens)
      | none => giveUp tokens
  | (.unit pieces due value, tokens), c =>
    match hexValue? c with
    | none => giveUp tokens
    | some d =>
      let value := value * 16 + d
      if due ≤ 1 then (.string (.unit value :: pieces), tokens)
      else (.unit pieces (due - 1) value, tokens)
  | (.number part value, tokens), c =>
    match part.next value c with
    | some (part, value) => (.number part value, tokens)
    | none =>
      if part = .zero ∧ c.isDigit then giveUp tokens
      else if part.isComplete then begin? (numberToken part value :: tokens) c
      else giveUp tokens
  | (.broken, tokens), _ => (.broken, tokens)

/-- The end of the text: a number may end here, nothing else that is half read. -/
def finish : Lexing → List Token
  | (.between, tokens) | (.broken, tokens) => tokens.reverse
  | (.number part value, tokens) =>
    if part.isComplete then (numberToken part value :: tokens).reverse
    else (Token.stray :: tokens).reverse
  | (_, tokens) => (Token.stray :: tokens).reverse

/-- The tokens of a text. -/
def lex (text : List Char) : List Token := finish (text.foldl feed (.between, []))

end Enclaves.Json
