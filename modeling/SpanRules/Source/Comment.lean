import SpanRules.Text.Basic

/-! Comments begin with two slashes, also inside quotes, and end with their line. -/
namespace SpanRules.Text

def beforeComment : Text → Text
  | [] => []
  | b :: t => if (ascii "//").isPrefixOf (b :: t) then [] else b :: beforeComment t

/-- A source without comments; every line ends with a line feed. -/
def stripComments (source : Text) : Text :=
  source.lines.flatMap fun line => beforeComment line ++ [byte '\n']

end SpanRules.Text
