import SpanRules.Source.Lexeme

/-! Plain words and quoted texts. A quote inside a quoted text has a backslash before it; a
backslash has none. -/
namespace SpanRules.Text

def isPlainWord (t : Text) : Bool := t.lexemes.map (·.kind) == [.word]

def escapeQuotes : Text → Text
  | [] => []
  | b :: t => if b = byte '\'' then byte '\\' :: b :: escapeQuotes t else b :: escapeQuotes t

def unescapeQuotes : Text → Text
  | [] => []
  | b :: t =>
    if b = byte '\\' ∧ t.head? = some (byte '\'') then unescapeQuotes t
    else b :: unescapeQuotes t

def quote (t : Text) : Text := byte '\'' :: escapeQuotes t ++ [byte '\'']

def isQuoted (t : Text) : Bool :=
  2 ≤ t.length && t.head? == some (byte '\'') && t.getLast? == some (byte '\'')

/-- What a quoted text stands for; any other text stands for itself. -/
def unquote (t : Text) : Text :=
  if t.isQuoted then unescapeQuotes (t.tail.dropLast) else t

/-- The shortest form that can be read as a name. -/
def quoteIfNeeded (t : Text) : Text := if t.isPlainWord then t else t.quote

end SpanRules.Text
