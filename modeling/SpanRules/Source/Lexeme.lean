import SpanRules.Text.Basic

/-! The lexemes of a program: words, quoted texts, marks and blanks. Every byte of a source
belongs to exactly one lexeme. -/
namespace SpanRules

/-- The kinds of lexemes. A quoted text whose closing quote is missing in its line is
`unterminated`. The kind `finish` stands for the end of the source. -/
inductive LexemeKind where
  | blank
  | word
  | quoted
  | ellipsis
  | bars
  | symbol
  | unterminated
  | finish
  deriving DecidableEq, Inhabited

structure Lexeme where
  kind : LexemeKind
  text : Text
  deriving DecidableEq, Inhabited

/-- Letters, digits and the underscore of ASCII, and every byte outside ASCII. -/
def isWordByte (b : UInt8) : Bool :=
  (97 ≤ b && b ≤ 122) || (65 ≤ b && b ≤ 90) || isDigit b || b == 95 || 0x80 ≤ b

namespace Lexeme

/-- The word at the start of a text. A period belongs to it when a word byte follows. -/
def wordPart : Text → Text
  | [] => []
  | b :: t =>
    if isWordByte b || (b == byte '.' && t.head?.any isWordByte) then b :: wordPart t else []

/-- The rest of a quoted text after its opening quote, and whether it is closed. A quote after a
backslash does not close it, the end of the line does not belong to it. -/
def quotedPart : (afterBackslash : Bool) → Text → Text × Bool
  | _, [] => ([], false)
  | afterBackslash, b :: t =>
    if b = byte '\n' then ([], false)
    else if b = byte '\'' ∧ !afterBackslash then ([b], true)
    else
      let (part, closed) := quotedPart (b == byte '\\') t
      (b :: part, closed)

def first (b : UInt8) (t : Text) : Lexeme :=
  if isBlank b then ⟨.blank, [b]⟩
  else if b = byte '\'' then
    match quotedPart false t with
    | (part, true) => ⟨.quoted, b :: part⟩
    | (part, false) => ⟨.unterminated, b :: part⟩
  else if (ascii "...").isPrefixOf (b :: t) then ⟨.ellipsis, ascii "..."⟩
  else if (ascii "||").isPrefixOf (b :: t) then ⟨.bars, ascii "||"⟩
  else if isWordByte b then ⟨.word, wordPart (b :: t)⟩
  else ⟨.symbol, [b]⟩

def listAfter : Nat → Text → List Lexeme
  | _, [] => []
  | skip + 1, _ :: t => listAfter skip t
  | 0, b :: t => let l := first b t; l :: listAfter (l.text.length - 1) t

end Lexeme

def Text.lexemes (t : Text) : List Lexeme := Lexeme.listAfter 0 t

end SpanRules
