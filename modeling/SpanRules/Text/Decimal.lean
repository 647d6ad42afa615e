import SpanRules.Text.Basic

/-! Decimal numerals, and the numerals of 32-bit integers. -/
namespace SpanRules.Text

def ofNat (n : Nat) : Text := (Nat.toDigits 10 n).map byte

def ofInt (n : Int) : Text := if n < 0 then byte '-' :: ofNat n.natAbs else ofNat n.natAbs

def digitsValue (t : Text) : Nat := t.foldl (fun n b => n * 10 + (b.toNat - 48)) 0

/-- Reads one or more digits and nothing else. -/
def natural? (t : Text) : Option Nat :=
  if t ≠ [] ∧ t.all isDigit then some (digitsValue t) else none

/-- Reads digits after an optional sign. -/
def integer? : Text → Option Int
  | [] => none
  | b :: t =>
    if b = byte '-' then (natural? t).map fun n => -(n : Int)
    else if b = byte '+' then (natural? t).map fun n => (n : Int)
    else (natural? (b :: t)).map fun n => (n : Int)

def IsInt32 (n : Int) : Prop := -2147483648 ≤ n ∧ n ≤ 2147483647

instance (n : Int) : Decidable (IsInt32 n) := inferInstanceAs (Decidable (_ ∧ _))

/-- Reads a 32-bit integer between blanks. -/
def int32? (t : Text) : Option Int := (integer? t.strip).filter fun n => IsInt32 n

/-- The 32-bit integer with the same lowest 32 bits. -/
def wrap32 (n : Int) : Int := n.bmod 4294967296

/-- The 64-bit integer that is nearest. -/
def clamp64 (n : Int) : Int := max (-9223372036854775808) (min n 9223372036854775807)

/-- Reads an integer after blanks. One that is out of the range of 64 bits counts as the end of that
range, and the lowest 32 bits are kept. -/
def wrappedInt32? (t : Text) : Option Int :=
  (integer? (t.dropWhile isBlank)).map fun n => wrap32 (clamp64 n)

end SpanRules.Text
