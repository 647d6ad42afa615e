import SpanRules.Text.Utf8
import SpanRules.Unicode.Class

/-! The tokens of a text. A token is a run of letters, a run of digits or a single other character
that is no space. -/
namespace SpanRules

/-- What a character means for the division of a text into tokens. -/
inductive CharKind where
  | space
  | letter
  | digit
  | symbol
  deriving DecidableEq, Inhabited

/-- Bytes that stand alone are symbols. -/
def CharKind.ofGlyph (g : Utf8.Glyph) : CharKind :=
  match g.code? with
  | none => .symbol
  | some code =>
    if Unicode.isSpace code then .space
    else if Unicode.isDigit code then .digit
    else if Unicode.isLetter code then .letter
    else .symbol

def CharKind.isRun : CharKind → Bool
  | .letter | .digit => true
  | _ => false

structure Stretch where
  kind : CharKind
  bytes : Text
  deriving DecidableEq, Inhabited

namespace Stretch

/-- Puts a character in front, into the first stretch if both belong to one run. -/
def push (g : Utf8.Glyph) : List Stretch → List Stretch
  | [] => [⟨.ofGlyph g, g.bytes⟩]
  | s :: ss =>
    if s.kind = .ofGlyph g ∧ s.kind.isRun then ⟨s.kind, g.bytes ++ s.bytes⟩ :: ss
    else ⟨.ofGlyph g, g.bytes⟩ :: s :: ss

def ofText (t : Text) : List Stretch := (Utf8.glyphs t).foldr push []

end Stretch

/-- A token with its place in the text: the bytes from `start` up to `stop`. -/
structure Token where
  start : Nat
  stop : Nat
  word : Text
  deriving DecidableEq, Inhabited

namespace Token

/-- The tokens of a list of stretches that begins at a byte position. Spaces give none. -/
def ofStretches : Nat → List Stretch → List Token
  | _, [] => []
  | pos, s :: ss =>
    let next := pos + s.bytes.length
    if s.kind = .space then ofStretches next ss
    else ⟨pos, next, s.bytes⟩ :: ofStretches next ss

end Token

def Text.tokens (t : Text) : List Token := Token.ofStretches 0 (Stretch.ofText t)

def Text.words (t : Text) : List Text := t.tokens.map (·.word)

end SpanRules
