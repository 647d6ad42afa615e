import SpanRules.Text.Utf8
import SpanRules.Unicode.Class

/-! Lower case of texts. -/
namespace SpanRules.Text

/-- Every character in lower case; bytes outside characters stay. The bytes before the first that is
outside ASCII are characters each, and are not decoded. -/
def lowerBy (table : Nat → Nat) : Text → Text
  | [] => []
  | b :: t =>
    if b < 0x80 then (Unicode.toLowerBy table b.toNat).toUInt8 :: lowerBy table t
    else Utf8.mapCodes (Unicode.toLowerBy table) (b :: t)

def lower (t : Text) : Text := lowerBy Unicode.tableLower t

end SpanRules.Text
