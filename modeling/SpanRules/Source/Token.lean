import SpanRules.Source.Lexeme

/-! The tokens of a program with their places, and the division of token lists into segments. -/
namespace SpanRules

/-- A place in a source. Lines and columns count from one; column zero is the place before the
first byte of a line, where a source that ends in a line feed has its end. -/
structure Place where
  line : Nat
  column : Nat
  deriving DecidableEq, Inhabited

namespace Place

/-- The place after a byte. After the last byte of the source the column stays. -/
def next (p : Place) (b : UInt8) (isLast : Bool) : Place :=
  let step := if isLast then 0 else 1
  if b = byte '\n' then ⟨p.line + 1, step⟩ else ⟨p.line, p.column + step⟩

/-- The place after some bytes; `atEnd` says that the source ends with them. -/
def advance (p : Place) (atEnd : Bool) : Text → Place
  | [] => p
  | b :: t => (p.next b (atEnd && t.isEmpty)).advance atEnd t

def start (source : Text) : Place := ⟨1, if source.isEmpty then 0 else 1⟩

end Place

/-- A token of a program, with the place of its first byte and the place after it. -/
structure SourceToken where
  kind : LexemeKind
  text : Text
  start : Place
  after : Place
  deriving DecidableEq, Inhabited

namespace SourceToken

def isSymbol (t : SourceToken) (c : Char) : Bool := t.kind == .symbol && t.text == [byte c]

/-- The word `w`, not quoted. -/
def isWord (t : SourceToken) (w : String) : Bool := t.kind == .word && t.text == ascii w

/-- The tokens of a list of lexemes, the last of them the end. Blanks give none. -/
def place : Place → List Lexeme → List SourceToken
  | p, [] => [⟨.finish, [], p, p⟩]
  | p, l :: ls =>
    let q := p.advance ls.isEmpty l.text
    if l.kind = .blank then place q ls else ⟨l.kind, l.text, p, q⟩ :: place q ls

end SourceToken

/-- The tokens of a source, the last of them its end. -/
def Text.sourceTokens (source : Text) : List SourceToken :=
  SourceToken.place (.start source) source.lexemes

/-- Tokens up to, and without, the token that stops them. -/
structure Segment where
  tokens : List SourceToken
  stop : SourceToken
  deriving DecidableEq, Inhabited

namespace Segment

def pushFront (t : SourceToken) : List Segment → List Segment
  | [] => []
  | s :: ss => { s with tokens := t :: s.tokens } :: ss

/-- Divides tokens at those for which the test holds and at the end of the list, where `stop`
stands. -/
def split (isStop : SourceToken → Bool) (stop : SourceToken) : List SourceToken → List Segment
  | [] => [⟨[], stop⟩]
  | t :: ts =>
    if isStop t then ⟨[], t⟩ :: split isStop stop ts
    else pushFront t (split isStop stop ts)

/-- The token at which reading stands when `rest` is left of the segment. -/
def current (s : Segment) (rest : List SourceToken) : SourceToken := rest.headD s.stop

end Segment

/-- The segments of a source between semicolons. -/
def Text.segments (source : Text) : List Segment :=
  let tokens := source.sourceTokens
  Segment.split (·.isSymbol ';') (tokens.getLastD default) tokens.dropLast

end SpanRules
