import SpanRules.Order

/-! Texts as byte sequences: literals, splitting, stripping and searching. -/
namespace SpanRules

/-- A text is a sequence of bytes, valid UTF-8 or not. -/
abbrev Text := List UInt8

def byte (c : Char) : UInt8 := c.toNat.toUInt8

def ascii (s : String) : Text := s.toList.map byte

/-- Space, tab, line feed, carriage return, form feed and vertical tab. -/
def isBlank (b : UInt8) : Bool := b == 32 || (9 ≤ b && b ≤ 13)

def isDigit (b : UInt8) : Bool := 48 ≤ b && b ≤ 57

namespace Text

/-- The pieces between separators; there is one more of them than there are separators. -/
def splitOn (sep : UInt8) : Text → List Text
  | [] => [[]]
  | b :: t =>
    if b = sep then [] :: splitOn sep t
    else match splitOn sep t with
      | [] => [[b]]
      | p :: ps => (b :: p) :: ps

/-- The nonempty pieces between separators. -/
def fields (sep : UInt8) (t : Text) : List Text := (splitOn sep t).filter (! ·.isEmpty)

def dropTrailingBlanks (t : Text) : Text := (t.reverse.dropWhile isBlank).reverse

def strip (t : Text) : Text := dropTrailingBlanks (t.dropWhile isBlank)

/-- One carriage return at the end is no part of a line. -/
def dropReturn (t : Text) : Text := if t.getLast? = some 13 then t.dropLast else t

/-- The lines of a text. A line feed at the end starts no further line. -/
def lines (t : Text) : List Text :=
  let pieces := splitOn 10 t
  let pieces := if pieces.getLast? = some [] then pieces.dropLast else pieces
  pieces.map dropReturn

def beforeNul (t : Text) : Text := t.takeWhile (· != 0)

/-- Whether one text occurs in another, and how far from its start. -/
def indexOf? (needle : Text) : Text → Option Nat
  | [] => if needle = [] then some 0 else none
  | b :: t =>
    if needle.isPrefixOf (b :: t) then some 0 else (indexOf? needle t).map (· + 1)

def find? (t needle : Text) (pos : Int) : Option Nat :=
  if pos < 0 || pos + needle.length > t.length then none
  else (indexOf? needle (t.drop pos.toNat)).map (· + pos.toNat)

def findByte? (t : Text) (b : UInt8) (pos : Int) : Option Nat := find? t [b] pos

/-- At most `n` bytes from a position on; all of them if `n` is negative. -/
def slice (t : Text) (pos : Nat) (n : Int) : Text :=
  if n < 0 then t.drop pos else (t.drop pos).take n.toNat

def trimBy (t : Text) (a b : Nat) : Text := (t.drop a).take (t.length - a - b)

def between (t : Text) (start stop : Nat) : Text := (t.drop start).take (stop - start)

def join (sep : Text) : List Text → Text
  | [] => []
  | [t] => t
  | t :: u :: ts => t ++ sep ++ join sep (u :: ts)

end Text

end SpanRules
