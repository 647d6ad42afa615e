import SpanRules.Files.Glob.ByteSet

/-! Whether a name fits a pattern. Names are compared byte by byte. A star stands for any bytes, a
question mark for any byte, and a backslash before a byte for that byte. -/
namespace SpanRules.Glob

/-- Whether a point is hidden from everything that does not name it. -/
def isHidden (atStart : Bool) (b : UInt8) : Bool := atStart && b == byte '.'

/-- The pattern after its first part, which begins with `c`, if that part allows a byte. -/
def after? (atStart : Bool) (c : UInt8) (t : Text) (b : UInt8) : Option Text :=
  if c = byte '?' then if isHidden atStart b then none else some t
  else if c = byte '[' then if isHidden atStart b then none else ByteSet.after? t b
  else if c = byte '\\' then
    match t with
    | [] => none
    | d :: t => if d = b then some t else none
  else if c = b then some t else none

/-- How far a name fits a pattern: to the end of both, or to a star, with what comes after the star
and what is left of the name. -/
inductive Progress where
  | finished
  | star (pattern name : Text) (atStart : Bool)
  deriving DecidableEq, Inhabited

/-- Compares a name with a pattern up to the next star. -/
def advance (atStart : Bool) (pattern : Text) : (name : Text) → Option Progress
  | [] =>
    match pattern with
    | [] => some .finished
    | c :: t => if c = byte '*' then some (.star t [] atStart) else none
  | b :: name =>
    match pattern with
    | [] => none
    | c :: t =>
      if c = byte '*' then some (.star t (b :: name) atStart)
      else
        match after? atStart c t b with
        | some t => advance false t name
        | none => none

/-- Takes stars and question marks from the start of a pattern, and a byte from the name for each
question mark. -/
def dropWildcards : (pattern name : Text) → Option (Text × Text)
  | [], name => some ([], name)
  | c :: t, name =>
    if c = byte '*' then dropWildcards t name
    else if c = byte '?' then
      match name with
      | [] => none
      | _ :: name => dropWildcards t name
    else some (c :: t, name)

/-- The first progress that is made from some place of a name on. -/
def firstProgress (atStart : Bool) (pattern : Text) : (name : Text) → Option Progress
  | [] => none
  | b :: name =>
    match advance atStart pattern (b :: name) with
    | some progress => some progress
    | none => firstProgress false pattern name

/-- Whether a name fits after some progress. After a star the first place is taken at which the name
fits up to the next star. -/
def fitsFrom : (fuel : Nat) → Option Progress → Bool
  | _, none => false
  | _, some .finished => true
  | 0, _ => false
  | fuel + 1, some (.star pattern name atStart) =>
    if name.head?.any (isHidden atStart) then false
    else
      match dropWildcards pattern name with
      | none => false
      | some ([], _) => true
      | some (pattern, name) => fitsFrom fuel (firstProgress atStart pattern name)

/-- Whether a name fits a pattern. A point at the start of the name must be written in the
pattern. -/
def fits (pattern name : Text) : Bool :=
  fitsFrom (pattern.length + 1) (advance true pattern name)

end SpanRules.Glob
