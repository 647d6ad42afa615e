import SpanRules.Unicode.Letter
import SpanRules.Unicode.Lower

/-! Letters, digits, spaces and lower case by character code. -/
namespace SpanRules.Unicode

/-- Digits outside ASCII are letters. -/
def isLetter (code : Nat) : Bool :=
  if code < 0x80 then (0x41 ≤ code && code ≤ 0x5A) || (0x61 ≤ code && code ≤ 0x7A)
  else letterRanges.any fun r => r.1 ≤ code && code ≤ r.2

/-- Only the digits of ASCII count as digits. -/
def isDigit (code : Nat) : Bool := 0x30 ≤ code && code ≤ 0x39

/-- The no-break space is a space; the figure space, the narrow no-break space and the next-line
control are none. -/
def isSpace (code : Nat) : Bool :=
  if code < 0x80 then code == 0x20 || (9 ≤ code && code ≤ 13)
  else code == 0xA0 || code == 0x1680 || (0x2000 ≤ code && code ≤ 0x2006)
    || (0x2008 ≤ code && code ≤ 0x200A) || code == 0x2028 || code == 0x2029
    || code == 0x205F || code == 0x3000

def tableLower (code : Nat) : Nat :=
  match caseRanges.find? (·.covers code) with
  | some r => (code + r.shift).toNat
  | none => code

/-- Lower case by a table. The letters of ASCII have their own rule and never ask it. -/
def toLowerBy (table : Nat → Nat) (code : Nat) : Nat :=
  if code < 0x80 then if 0x41 ≤ code ∧ code ≤ 0x5A then code + 32 else code
  else table code

def toLower (code : Nat) : Nat := toLowerBy tableLower code

/-- The classes of any integer; a negative one is no letter, digit or space. -/
def testInt (test : Nat → Bool) : Int → Bool
  | .ofNat code => test code
  | .negSucc _ => false

/-- The lower case of any integer; a negative one is its own. -/
def toLowerInt : Int → Int
  | .ofNat code => toLower code
  | .negSucc n => .negSucc n

end SpanRules.Unicode
