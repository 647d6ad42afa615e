import SpanRules.Text.Basic

/-! UTF-8 with up to four bytes for a character, and texts as sequences of characters. Surrogates
and codes up to 1FFFFF are characters here; overlong forms are not. -/
namespace SpanRules.Utf8

/-- The length that the first byte of a sequence announces; any other byte announces one. -/
def charLen (lead : UInt8) : Nat :=
  if lead < 0xC0 then 1 else if lead < 0xE0 then 2 else if lead < 0xF0 then 3 else 4

/-- The six bits of a continuation byte. -/
def continuation? (b : UInt8) : Option Nat :=
  if 0x80 ≤ b ∧ b < 0xC0 then some (b.toNat - 0x80) else none

/-- The code of the character at the start of a text, if the text starts with one. -/
def decode : Text → Option Nat
  | [] => none
  | a :: t =>
    if a < 0x80 then some a.toNat
    else if a < 0xC0 then none
    else if a < 0xE0 then
      match t with
      | b :: _ => do
        let code := (a.toNat - 0xC0) * 64 + (← continuation? b)
        if code < 0x80 then none else some code
      | _ => none
    else if a < 0xF0 then
      match t with
      | b :: c :: _ => do
        let code := ((a.toNat - 0xE0) * 64 + (← continuation? b)) * 64 + (← continuation? c)
        if code < 0x800 then none else some code
      | _ => none
    else if a < 0xF8 then
      match t with
      | b :: c :: d :: _ => do
        let high := ((a.toNat - 0xF0) * 64 + (← continuation? b)) * 64 + (← continuation? c)
        let code := high * 64 + (← continuation? d)
        if code < 0x10000 then none else some code
      | _ => none
    else none

/-- The sequence of a code. Of codes over 1FFFFF the bits that do not fit are lost. -/
def encode (code : Nat) : Text :=
  if code < 0x80 then [code.toUInt8]
  else if code < 0x800 then
    [(0xC0 + code / 64).toUInt8, (0x80 + code % 64).toUInt8]
  else if code < 0x10000 then
    [(0xE0 + code / 4096).toUInt8, (0x80 + code / 64 % 64).toUInt8, (0x80 + code % 64).toUInt8]
  else
    [(0xF0 + code / 262144 % 16).toUInt8, (0x80 + code / 4096 % 64).toUInt8,
      (0x80 + code / 64 % 64).toUInt8, (0x80 + code % 64).toUInt8]

/-- The sequence of the 32-bit word that holds an integer. -/
def encodeWord (code : Int) : Text := encode (code % 4294967296).toNat

/-- A character of a text: its bytes and its code. A byte that starts no sequence stands alone and
has no code. -/
structure Glyph where
  bytes : Text
  code? : Option Nat
  deriving DecidableEq, Inhabited

def firstGlyph (b : UInt8) (t : Text) : Glyph :=
  match decode (b :: t) with
  | some code => ⟨(b :: t).take (charLen b), some code⟩
  | none => ⟨[b], none⟩

def glyphsAfter : Nat → Text → List Glyph
  | _, [] => []
  | skip + 1, _ :: t => glyphsAfter skip t
  | 0, b :: t => let g := firstGlyph b t; g :: glyphsAfter (g.bytes.length - 1) t

def glyphs (t : Text) : List Glyph := glyphsAfter 0 t

/-- Applies a map of codes to each character and leaves other bytes as they are. -/
def mapCodes (f : Nat → Nat) (t : Text) : Text :=
  (glyphs t).flatMap fun g => match g.code? with
    | some code => encode (f code)
    | none => g.bytes

end SpanRules.Utf8
