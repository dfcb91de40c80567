import Enclaves.Json.Lexer
import Enclaves.Json.Printer
import Mathlib.Data.List.Chain
import Mathlib.Data.List.Forall2
import Mathlib.Tactic.IntervalCases

/-!
# Text that was written is read

The pretty layout of a document gives its tokens back to the lexer (`lex_pretty`), whatever strings
are in it: each character is escaped to text that is read as one piece, and the pieces make up the
string again (`foldl_feed_quote`).

The lexer knows that a number has ended only from the character behind it. So what holds after each
token is that the lexer `Rests` there: it is between tokens, or in a number that is complete as it
stands. All that a document must give for this is that no two numbers are written side by side
(`Legible`), and a `Document` always has a mark between them.
-/

namespace Enclaves.Json

variable {done tokens : List Token} {token : Token} {s : Lexing} {c : Char} {depth d n : Nat}

/-! ## Strings -/

/-- A piece that is read as a character. -/
inductive Piece.Stands : Piece → Char → Prop
  | char (c : Char) : Stands (.char c) c
  | unit {c : Char} : c.toNat < 0xd800 → Stands (.unit c.toNat) c

/-- A number below the surrogates is a character by itself. -/
theorem assemble_unit (h : n < 0xd800) (pieces : List Piece) :
    assemble (.unit n :: pieces) = (assemble pieces).map (Char.ofNat n :: ·) := by
  have hhigh : isHighSurrogate n = false := by
    simp only [isHighSurrogate, Bool.and_eq_false_iff, decide_eq_false_iff_not]
    omega
  have hlow : isLowSurrogate n = false := by
    simp only [isLowSurrogate, Bool.and_eq_false_iff, decide_eq_false_iff_not]
    omega
  cases pieces with
  | nil => simp [assemble, hhigh, hlow]
  | cons piece pieces =>
    cases piece with
    | char c => simp [assemble, hhigh, hlow]
    | unit low => simp [assemble, hhigh, hlow]

/-- Pieces that stand for themselves are put together as they are. -/
theorem assemble_of_stands {pieces : List Piece} {text : List Char}
    (h : List.Forall₂ Piece.Stands pieces text) : assemble pieces = some text := by
  induction h with
  | nil => rfl
  | @cons piece c pieces text hpiece _ ih =>
    cases hpiece with
    | char => rw [assemble, ih, Option.map_some]
    | unit hc => rw [assemble_unit hc, ih, Option.map_some, Char.ofNat_toNat]

/-- A digit has the value that it was written for. -/
theorem hexValue?_digitChar : ∀ d < 16, hexValue? (Nat.digitChar d) = some d := by decide

/-- A character is escaped to what is read as one piece. -/
theorem foldl_feed_escape (pieces : List Piece) (done : List Token) (c : Char) :
    ∃ piece : Piece, piece.Stands c ∧
      (escape c).foldl feed (.string pieces, done) = (.string (piece :: pieces), done) := by
  by_cases hshort : ∃ letter, shortEscape? letter = some c ∧ escape c = ['\\', letter]
  · obtain ⟨letter, hletter, hescape⟩ := hshort
    have hne : letter ≠ 'u' := by
      rintro rfl
      cases hletter
    refine ⟨.char c, .char c, ?_⟩
    rw [hescape]
    show feed (.escape pieces, done) letter = _
    rw [feed, if_neg hne, hletter]
  unfold escape at hshort ⊢
  split at hshort
  · exact absurd ⟨'"', rfl, rfl⟩ hshort
  · exact absurd ⟨'\\', rfl, rfl⟩ hshort
  · exact absurd ⟨'b', rfl, rfl⟩ hshort
  · exact absurd ⟨'f', rfl, rfl⟩ hshort
  · exact absurd ⟨'n', rfl, rfl⟩ hshort
  · exact absurd ⟨'r', rfl, rfl⟩ hshort
  · exact absurd ⟨'t', rfl, rfl⟩ hshort
  rename_i hquote hbackslash _ _ _ _ _
  by_cases hcontrol : c.toNat < 0x20
  · refine ⟨.unit c.toNat, .unit (by omega), ?_⟩
    rw [if_pos hcontrol]
    have hhigh := hexValue?_digitChar (c.toNat / 16) (by omega)
    have hlow := hexValue?_digitChar (c.toNat % 16) (by omega)
    have hvalue : (0 * 16 + c.toNat / 16) * 16 + c.toNat % 16 = c.toNat := by omega
    show feed (feed (.unit pieces 2 0, done) _) _ = _
    have hfirst : feed (.unit pieces 2 0, done) (Nat.digitChar (c.toNat / 16)) =
        (.unit pieces 1 (0 * 16 + c.toNat / 16), done) := by
      rw [feed, hhigh]
      rfl
    rw [hfirst, feed, hlow]
    dsimp only
    rw [if_pos (Nat.le_refl 1), hvalue]
  · refine ⟨.char c, .char c, ?_⟩
    rw [if_neg hcontrol]
    show feed (.string pieces, done) c = _
    rw [feed, if_neg hquote, if_neg hbackslash, if_neg hcontrol]

/-- An escaped text is read as pieces that stand for it. -/
theorem foldl_feed_escapes (text : List Char) (pieces : List Piece) (done : List Token) :
    ∃ pieces', List.Forall₂ Piece.Stands pieces' text ∧
      (text.flatMap escape).foldl feed (.string pieces, done) =
        (.string (pieces'.reverse ++ pieces), done) := by
  induction text generalizing pieces with
  | nil => exact ⟨[], .nil, rfl⟩
  | cons c text ih =>
    obtain ⟨piece, hpiece, hfirst⟩ := foldl_feed_escape pieces done c
    obtain ⟨pieces', hpieces, hrest⟩ := ih (piece :: pieces)
    refine ⟨piece :: pieces', .cons hpiece hpieces, ?_⟩
    rw [List.flatMap_cons, List.foldl_append, hfirst, hrest, List.reverse_cons, List.append_assoc]
    rfl

/-- A quoted string is read as that string. -/
theorem foldl_feed_quote (text : String) :
    (quote text).foldl feed (.between, done) = (.between, .text (some text) :: done) := by
  obtain ⟨pieces, hpieces, hescapes⟩ := foldl_feed_escapes text.toList [] done
  have hopen : feed (.between, done) '"' = (.string [], done) := rfl
  rw [quote, List.cons_append, List.foldl_cons, hopen, List.foldl_append, hescapes,
    List.append_nil, List.foldl_cons, feed, if_pos rfl, List.reverse_reverse,
    assemble_of_stands hpieces, Option.map_some, String.ofList_toList]
  rfl

/-! ## Numbers -/

/-- A natural number, read to here. -/
def wholeNumeral (n : Nat) : Numeral := { Numeral.start false with significand := n }

/-- The first digit of a number opens it. -/
theorem begin?_digitChar (hpos : 0 < d) (hd : d < 10) :
    begin? done (Nat.digitChar d) = (.number .whole (wholeNumeral d), done) := by
  interval_cases d <;> rfl

/-- A further digit is appended as long as the number fits. -/
theorem feed_digitChar (hd : d < 10) (hfit : n * 10 + d < UInt64.size) :
    feed (.number .whole (wholeNumeral n), done) (Nat.digitChar d) =
      (.number .whole (wholeNumeral (n * 10 + d)), done) := by
  have hdigit : (Nat.digitChar d).isDigit = true := by
    rw [Nat.isDigit_digitChar]
    exact decide_eq_true hd
  have hvalue : (Nat.digitChar d).toNat - '0'.toNat = d := Nat.toNat_digitChar_sub_48_of_lt_ten hd
  have hwhole : (wholeNumeral n).whole d = wholeNumeral (n * 10 + d) := by
    rw [Numeral.whole, Numeral.append?, if_pos ⟨rfl, hfit⟩]
    rfl
  simp only [feed, NumberPart.next, hdigit, if_true, hvalue, hwhole]

/-- The digits of a number that fits are read as the number. -/
theorem foldl_feed_toDigits (hpos : 0 < n) (hfit : n < UInt64.size) :
    (Nat.toDigits 10 n).foldl feed (.between, done) =
      (.number .whole (wholeNumeral n), done) := by
  induction n using Nat.strongRecOn with
  | ind n ih =>
    by_cases hd : n < 10
    · rw [Nat.toDigits_of_lt_base hd]
      exact begin?_digitChar hpos hd
    · have hvalue : n / 10 * 10 + n % 10 = n := Nat.div_add_mod' n 10
      rw [Nat.toDigits_of_base_le (by decide) (Nat.le_of_not_lt hd), List.foldl_append,
        ih (n / 10) (by omega) (by omega) (by omega), List.foldl_cons,
        feed_digitChar (Nat.mod_lt _ (by decide)) (by omega), hvalue]
      rfl

/-! ## Where the lexer rests -/

/-- The tokens so far are complete, with a number that may still be open at the end. -/
inductive Rests : Lexing → List Token → Prop
  | between (tokens : List Token) : Rests (.between, tokens) tokens
  | number {part : NumberPart} (value : Numeral) (tokens : List Token) :
    part = .zero ∨ part = .whole →
    Rests (.number part value, tokens) (numberToken part value :: tokens)

/-- A character that cannot go on with a number. -/
def EndsNumber (c : Char) : Prop := c.isDigit = false ∧ c ≠ '.' ∧ c ≠ 'e' ∧ c ≠ 'E'

instance : Decidable (EndsNumber c) := inferInstanceAs (Decidable (_ ∧ _))

namespace Rests

/-- Where the lexer rests, the text may end. -/
theorem finish_eq (h : Rests s tokens) : finish s = tokens.reverse := by
  cases h with
  | between => rfl
  | number value tokens hpart =>
    rcases hpart with rfl | rfl
    · rfl
    · rfl

/-- A character that ends a number starts afresh. -/
theorem feed_eq (h : Rests s tokens) (hc : EndsNumber c) : feed s c = begin? tokens c := by
  cases h with
  | between => rfl
  | number value tokens hpart =>
    obtain ⟨hdigit, hpoint, hlower, hupper⟩ := hc
    rcases hpart with rfl | rfl
    · simp [feed, NumberPart.next, NumberPart.isComplete, hdigit, hpoint, hlower, hupper]
    · simp [feed, NumberPart.next, NumberPart.isComplete, hdigit, hpoint, hlower, hupper]

/-- A character that cannot go on with a number finds the lexer between tokens. -/
theorem foldl_cons (h : Rests s tokens) (hc : EndsNumber c) (text : List Char) :
    (c :: text).foldl feed s = (c :: text).foldl feed (.between, tokens) :=
  congrArg (text.foldl feed) (h.feed_eq hc)

/-- Behind a new line the lexer is between tokens. -/
theorem foldl_newline (h : Rests s tokens) :
    (newline depth).foldl feed s = (.between, tokens) := by
  rw [newline, h.foldl_cons (by decide), List.foldl_cons]
  show (List.replicate (2 * depth) ' ').foldl feed (.between, tokens) = _
  induction 2 * depth with
  | zero => rfl
  | succ count ih => exact ih

end Rests

/-! ## Tokens -/

namespace Token

def isNatural : Token → Bool
  | .natural _ => true
  | _ => false

/-- A token that a writer makes, with a number of 64 bits. -/
def Plain : Token → Prop
  | .natural n => n < UInt64.size
  | .real _ | .text none | .stray => False
  | _ => True

/-- Two tokens that are not both numbers. -/
def Apart (first next : Token) : Prop := first.isNatural = false ∨ next.isNatural = false

/-- All tokens but numbers start with a character that ends a number. -/
theorem exists_spelling_cons (h : token.Plain) (hmark : token.isNatural = false) :
    ∃ c text, token.spelling = c :: text ∧ EndsNumber c := by
  cases token with
  | natural n => cases hmark
  | real n => exact h.elim
  | stray => exact h.elim
  | text value =>
    cases value with
    | none => exact h.elim
    | some text => exact ⟨'"', _, rfl, by decide⟩
  | bool value =>
    cases value with
    | false => exact ⟨'f', _, rfl, by decide⟩
    | true => exact ⟨'t', _, rfl, by decide⟩
  | objectOpen => exact ⟨'\x7b', _, rfl, by decide⟩
  | objectClose => exact ⟨'\x7d', _, rfl, by decide⟩
  | arrayOpen => exact ⟨'[', _, rfl, by decide⟩
  | arrayClose => exact ⟨']', _, rfl, by decide⟩
  | colon => exact ⟨':', _, rfl, by decide⟩
  | comma => exact ⟨',', _, rfl, by decide⟩
  | null => exact ⟨'n', _, rfl, by decide⟩

/-- Between tokens a token is read as itself. -/
theorem foldl_feed_spelling (h : token.Plain) (hmark : token.isNatural = false) :
    token.spelling.foldl feed (.between, done) = (.between, token :: done) := by
  cases token with
  | natural n => cases hmark
  | real n => exact h.elim
  | stray => exact h.elim
  | text value =>
    cases value with
    | none => exact h.elim
    | some text => exact foldl_feed_quote text
  | bool value =>
    cases value with
    | false => rfl
    | true => rfl
  | _ => rfl

end Token

namespace Rests

/-- A number is read up to where it is complete. -/
theorem natural (hfit : n < UInt64.size) :
    Rests ((Nat.toDigits 10 n).foldl feed (.between, done)) (.natural n :: done) := by
  rcases Nat.eq_zero_or_pos n with rfl | hpos
  · exact .number (Numeral.start false) done (.inl rfl)
  · rw [foldl_feed_toDigits hpos hfit]
    exact .number (wholeNumeral n) done (.inr rfl)

/-- Any other token may follow a number. -/
theorem foldl_spelling (h : Rests s done) (hplain : token.Plain)
    (hmark : token.isNatural = false) :
    token.spelling.foldl feed s = (.between, token :: done) := by
  obtain ⟨c, text, hspelling, hc⟩ := token.exists_spelling_cons hplain hmark
  have hread : token.spelling.foldl feed (.between, done) = (.between, token :: done) :=
    token.foldl_feed_spelling hplain hmark
  rw [hspelling] at hread ⊢
  rw [h.foldl_cons hc, hread]

end Rests

/-! ## Documents -/

/-- Tokens that can be told apart when they are written. -/
structure Legible (tokens : List Token) : Prop where
  plain : ∀ t ∈ tokens, t.Plain
  apart : tokens.IsChain Token.Apart

namespace Legible

/-- A token in front of others must be plain, and be told apart from the next. -/
theorem cons_iff : Legible (token :: tokens) ↔
    token.Plain ∧ (∀ next ∈ tokens.head?, token.Apart next) ∧ Legible tokens := by
  constructor
  · rintro ⟨hplain, hapart⟩
    obtain ⟨hfirst, hrest⟩ := List.forall_mem_cons.mp hplain
    obtain ⟨hnext, hchain⟩ := List.isChain_cons.mp hapart
    exact ⟨hfirst, hnext, hrest, hchain⟩
  · rintro ⟨hfirst, hnext, hrest, hchain⟩
    exact ⟨List.forall_mem_cons.mpr ⟨hfirst, hrest⟩, List.isChain_cons.mpr ⟨hnext, hchain⟩⟩

theorem nil : Legible [] := ⟨by simp, .nil⟩

/-- The tokens behind the first are legible as well. -/
theorem of_cons (h : Legible (token :: tokens)) : Legible tokens := (cons_iff.mp h).2.2

/-- The pretty layout is read token by token. -/
theorem rests_prettyFrom (h : Legible tokens) (hrests : Rests s done)
    (hfirst : ∀ t ∈ tokens.head?, t.isNatural = true → s = (.between, done)) :
    Rests ((prettyFrom depth tokens).foldl feed s) (tokens.reverseAux done) := by
  fun_induction prettyFrom depth tokens generalizing s done with
  | case1 => exact hrests
  | case2 depth rest ih =>
    have hopen : feed s '\x7b' = (.between, .objectOpen :: done) := hrests.feed_eq (by decide)
    rw [List.foldl_cons, hopen]
    exact ih h.of_cons.of_cons (.between _) fun _ _ _ => rfl
  | case3 depth rest ih =>
    have hopen : feed s '[' = (.between, .arrayOpen :: done) := hrests.feed_eq (by decide)
    rw [List.foldl_cons, hopen]
    exact ih h.of_cons.of_cons (.between _) fun _ _ _ => rfl
  | case4 depth rest hne ih =>
    have hopen : feed s '\x7b' = (.between, .objectOpen :: done) := hrests.feed_eq (by decide)
    rw [List.foldl_append, List.foldl_cons, hopen, (Rests.between _).foldl_newline]
    exact ih h.of_cons (.between _) fun _ _ _ => rfl
  | case5 depth rest hne ih =>
    have hopen : feed s '[' = (.between, .arrayOpen :: done) := hrests.feed_eq (by decide)
    rw [List.foldl_append, List.foldl_cons, hopen, (Rests.between _).foldl_newline]
    exact ih h.of_cons (.between _) fun _ _ _ => rfl
  | case6 depth rest ih =>
    rw [List.foldl_append, hrests.foldl_newline]
    exact ih h.of_cons (.between _) fun _ _ _ => rfl
  | case7 depth rest ih =>
    rw [List.foldl_append, hrests.foldl_newline]
    exact ih h.of_cons (.between _) fun _ _ _ => rfl
  | case8 depth rest ih =>
    have hcomma : feed s ',' = (.between, .comma :: done) := hrests.feed_eq (by decide)
    rw [List.foldl_append, List.foldl_cons, hcomma, (Rests.between _).foldl_newline]
    exact ih h.of_cons (.between _) fun _ _ _ => rfl
  | case9 depth rest ih =>
    have hcolon : feed s ':' = (.between, .colon :: done) := hrests.feed_eq (by decide)
    rw [List.foldl_cons, hcolon]
    exact ih h.of_cons (.between _) fun _ _ _ => rfl
  | case10 depth token rest _ _ _ _ _ _ _ _ ih =>
    obtain ⟨hplain, hnext, hrest⟩ := cons_iff.mp h
    rw [List.foldl_append]
    cases hnatural : token.isNatural with
    | false =>
      rw [hrests.foldl_spelling hplain hnatural]
      exact ih hrest (.between _) fun _ _ _ => rfl
    | true =>
      -- a number starts between tokens, and no other follows it
      obtain rfl := hfirst token rfl hnatural
      cases token with
      | natural n =>
        refine ih hrest (.natural hplain) fun next hmem hnext' => ?_
        rcases hnext next hmem with hfalse | hfalse
        · cases hfalse
        · rw [hfalse] at hnext'
          cases hnext'
      | _ => cases hnatural

/-- Two documents with a mark between them. -/
theorem around {before after : List Token} (hbefore : Legible before) (hplain : token.Plain)
    (hmark : token.isNatural = false) (hafter : Legible after) :
    Legible (before ++ token :: after) where
  plain := List.forall_mem_append.mpr
    ⟨hbefore.plain, List.forall_mem_cons.mpr ⟨hplain, hafter.plain⟩⟩
  apart := by
    refine List.isChain_append.mpr ⟨hbefore.apart, List.isChain_cons.mpr
      ⟨fun _ _ => .inl hmark, hafter.apart⟩, fun last _ next hnext => ?_⟩
    cases hnext
    exact .inr hmark

/-- A mark can stand in front of anything that is legible. -/
theorem cons (hplain : token.Plain) (hmark : token.isNatural = false) (h : Legible tokens) :
    Legible (token :: tokens) :=
  nil.around hplain hmark h

/-- Documents with commas between them are legible if each of them is. -/
theorem separated {docs : List (List Token)} (h : ∀ doc ∈ docs, Legible doc) :
    Legible (Json.separated docs) := by
  fun_induction Json.separated docs with
  | case1 => exact nil
  | case2 last => exact h last List.mem_cons_self
  | case3 first rest hne ih =>
    obtain ⟨hfirst, hrest⟩ := List.forall_mem_cons.mp h
    exact hfirst.around trivial rfl (ih hrest)

end Legible

/-- The tokens of one value, as writers put them together. -/
inductive Document : List Token → Prop
  | null : Document [.null]
  | bool (value : Bool) : Document [.bool value]
  | natural {n : Nat} : n < UInt64.size → Document [.natural n]
  | text (s : String) : Document [.text (some s)]
  | array {docs : List (List Token)} : (∀ doc ∈ docs, Document doc) → Document (array docs)
  | object {members : List (String × List Token)} : (∀ m ∈ members, Document m.2) →
    Document (object members)

/-- Whatever writers put together is legible. -/
theorem Document.legible (h : Document tokens) : Legible tokens := by
  induction h with
  | null => exact .cons trivial rfl .nil
  | bool value => exact .cons trivial rfl .nil
  | natural hfit => exact ⟨by simpa [Token.Plain] using hfit, .singleton _⟩
  | text s => exact .cons trivial rfl .nil
  | array _ ih =>
    rw [Json.array, List.cons_append]
    exact .cons trivial rfl ((Legible.separated ih).around trivial rfl .nil)
  | object _ ih =>
    rw [Json.object, List.cons_append]
    refine .cons trivial rfl ((Legible.separated ?_).around trivial rfl .nil)
    intro doc hdoc
    obtain ⟨m, hm, rfl⟩ := List.mem_map.mp hdoc
    exact .cons trivial rfl (.cons trivial rfl (ih m hm))

/-- The tokens of a document are read back from its pretty layout. -/
theorem lex_pretty (h : Document tokens) : lex (pretty tokens).toList = tokens := by
  have hrests : Rests ((prettyFrom 0 tokens).foldl feed (.between, [])) (tokens.reverseAux []) :=
    h.legible.rests_prettyFrom (.between []) fun _ _ _ => rfl
  rw [lex, pretty, String.toList_ofList, hrests.finish_eq, List.reverseAux_eq, List.append_nil,
    List.reverse_reverse]

/-- Two numbers with nothing but a layout between them would be one. -/
example : lex (pretty [.natural 1, .natural 2]).toList = [.natural 12] := by decide

end Enclaves.Json
