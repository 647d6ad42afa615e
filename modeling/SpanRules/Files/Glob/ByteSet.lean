import SpanRules.Text.Basic

/-! Sets of bytes in patterns for file names, such as `[!a-z]`. A set is read for the byte that is
looked for: up to the member that holds all of it must be well formed, after that only its end is
looked for. -/
namespace SpanRules

inductive ByteClass where
  | letters
  | digits
  | alphanumerics
  | uppers
  | lowers
  | blanks
  | spaces
  | punctuation
  | printable
  | graphic
  | controls
  | hexDigits
  deriving DecidableEq, Inhabited

namespace ByteClass

private def isUpper (b : UInt8) : Bool := 65 ≤ b && b ≤ 90
private def isLower (b : UInt8) : Bool := 97 ≤ b && b ≤ 122
private def isGraphic (b : UInt8) : Bool := 33 ≤ b && b ≤ 126

def holds (b : UInt8) : ByteClass → Bool
  | letters => isUpper b || isLower b
  | digits => isDigit b
  | alphanumerics => isUpper b || isLower b || isDigit b
  | uppers => isUpper b
  | lowers => isLower b
  | blanks => b == 32 || b == 9
  | spaces => isBlank b
  | punctuation => isGraphic b && !(isUpper b || isLower b || isDigit b)
  | printable => isGraphic b || b == 32
  | graphic => isGraphic b
  | controls => b < 32 || b == 127
  | hexDigits => isDigit b || (65 ≤ b && b ≤ 70) || (97 ≤ b && b ≤ 102)

def ofName? (name : Text) : Option ByteClass :=
  if name = ascii "alpha" then some letters
  else if name = ascii "digit" then some digits
  else if name = ascii "alnum" then some alphanumerics
  else if name = ascii "upper" then some uppers
  else if name = ascii "lower" then some lowers
  else if name = ascii "blank" then some blanks
  else if name = ascii "space" then some spaces
  else if name = ascii "punct" then some punctuation
  else if name = ascii "print" then some printable
  else if name = ascii "graph" then some graphic
  else if name = ascii "cntrl" then some controls
  else if name = ascii "xdigit" then some hexDigits
  else none

end ByteClass

namespace ByteSet

/-- How many bytes a text begins with that may stand in the name of a class. -/
def nameLength (t : Text) : Nat := (t.takeWhile fun b => 97 ≤ b && b < 122).length

/-- Names of classes are shorter. -/
def nameLimit : Nat := 2048

/-- What a member says of a byte, with the number of bytes that it has after its first. -/
inductive MemberAnswer where
  | holds (length : Nat)
  | differs (length : Nat)
  | illFormed
  deriving DecidableEq, Inhabited

namespace MemberAnswer

def of (isHeld : Bool) (length : Nat) : MemberAnswer :=
  if isHeld then holds length else differs length

/-- The answer of a member that has more bytes at its start. -/
def after (n : Nat) : MemberAnswer → MemberAnswer
  | holds length => holds (n + length)
  | differs length => differs (n + length)
  | illFormed => illFormed

end MemberAnswer

/-- The answer of a range from `lo` to the byte that comes first in `e :: t`. That byte may follow a
backslash or be written as `[.a.]`. -/
def rangeAnswer (b lo e : UInt8) (t : Text) : MemberAnswer :=
  let within (hi : UInt8) : Bool := lo ≤ b && b ≤ hi
  if e = byte '[' ∧ t.head? = some (byte '.') then
    match Text.indexOf? (ascii ".]") t.tail, t.tail with
    | some 1, hi :: _ => .of (within hi) 4
    | _, _ => .illFormed
  else if e = byte '\\' then
    match t with
    | [] => .illFormed
    | hi :: _ => .of (within hi) 1
  else .of (within e) 0

/-- The answer of a byte `lo`, or of a range that it begins. A hyphen before the closing bracket
makes no range, but `[.a.]` is no member before it. -/
def byteAnswer (b lo : UInt8) (isSymbol : Bool) : Text → MemberAnswer
  | [] => .of (lo == b) 0
  | [h] => if h = byte '-' ∧ lo ≠ b then .illFormed else .of (lo == b) 0
  | h :: e :: t =>
    if h ≠ byte '-' then .of (lo == b) 0
    else if e = byte ']' then .of (lo == b && !isSymbol) 0
    else (rangeAnswer b lo e t).after 2

/-- The answer of the member that begins with `c`. Members are bytes, ranges, classes such as
`[:alpha:]` and bytes that are written as `[=a=]` or `[.a.]`. -/
def memberAnswer (b c : UInt8) (t : Text) : MemberAnswer :=
  let plain := byteAnswer b c false t
  if c = byte '\\' then
    match t with
    | [] => .illFormed
    | d :: t => (byteAnswer b d false t).after 1
  else if c = byte '[' then
    match t with
    | [] => plain
    | m :: t =>
      if m = byte ':' then
        let n := nameLength t
        if nameLimit ≤ n then .illFormed
        else if (ascii ":]").isPrefixOf (t.drop n) then
          match ByteClass.ofName? (t.take n) with
          | some k => .of (k.holds b) (n + 3)
          | none => .illFormed
        else plain
      else if m = byte '=' then
        match t with
        | x :: e :: k :: _ => if e = m ∧ k = byte ']' then .of (x == b) 4 else plain
        | _ => plain
      else if m = byte '.' then
        match Text.indexOf? (ascii ".]") t, t with
        | some 1, x :: _ => (byteAnswer b x true (t.drop 3)).after 4
        | _, _ => .illFormed
      else plain
  else plain

/-- How many bytes after its first the member has that begins with `c`, when only the end of the
set is looked for. -/
def memberLength? (c : UInt8) (t : Text) : Option Nat :=
  if c = byte '\\' then if t = [] then none else some 1
  else if c = byte '[' then
    match t with
    | [] => some 0
    | m :: t =>
      if m = byte ':' then
        let n := nameLength t
        if nameLimit ≤ n + 1 then none
        else if (ascii ":]").isPrefixOf (t.drop n) then some (n + 3)
        else some 0
      else if m = byte '=' then
        match t with
        | _ :: e :: k :: _ => if e = m ∧ k = byte ']' then some 4 else none
        | _ => none
      else if m = byte '.' then (Text.indexOf? (ascii ".]") t).map (· + 3)
      else some 0
  else some 0

/-- What a set says of a byte, with the text after the set. -/
inductive Answer where
  | holds (rest : Text)
  | differs (rest : Text)
  | unclosed
  | illFormed
  deriving DecidableEq, Inhabited

/-- Looks for the end of a set that holds the byte, after `skip` bytes. -/
def close : (skip : Nat) → Text → Answer
  | _, [] => .unclosed
  | skip + 1, _ :: t => close skip t
  | 0, c :: t =>
    if c = byte ']' then .holds t
    else
      match memberLength? c t with
      | some n => close n t
      | none => .illFormed

/-- Asks the members of a set one after another, after `skip` bytes. A closing bracket that comes
first is a member. -/
def answer (b : UInt8) (isFirst : Bool) : (skip : Nat) → Text → Answer
  | _, [] => .unclosed
  | skip + 1, _ :: t => answer b isFirst skip t
  | 0, c :: t =>
    if c = byte ']' ∧ !isFirst then .differs t
    else
      match memberAnswer b c t with
      | .holds n => close n t
      | .differs n => answer b false n t
      | .illFormed => .illFormed

/-- The pattern after a set that allows a byte; `t` begins after the opening bracket. The bracket of
a set that is not closed stands for itself. -/
def after? (t : Text) (b : UInt8) : Option Text :=
  let negated := t.head? == some (byte '!') || t.head? == some (byte '^')
  match answer b true 0 (if negated then t.tail else t) with
  | .holds rest => if negated then none else some rest
  | .differs rest => if negated then some rest else none
  | .unclosed => if b = byte '[' then some t else none
  | .illFormed => none

end ByteSet

end SpanRules
