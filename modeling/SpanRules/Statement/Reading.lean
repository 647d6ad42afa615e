import SpanRules.Pattern.Reading
import SpanRules.Statement.Basic
import SpanRules.Statement.Fault

/-! Reading statements from the tokens of a program. -/
namespace SpanRules

abbrev LineReader := Text → Except FileError (List Text)

namespace Statement

def expect (c : Char) (ts : Rest) : Reading StatementFault Rest :=
  if nextIs c ts then .ok ts.tail else stopAt ts (.symbolExpected c)

def expectEnd (ts : Rest) : Reading StatementFault Unit :=
  if ts.isEmpty then .ok () else stopAt ts (.symbolExpected ';')

/-- The texts of the tokens up to a double quote, and the tokens after it. -/
def quotedTokens? : Rest → Reading StatementFault (Text × Rest)
  | [] => stopAt [] .unterminatedFileName
  | t :: ts =>
    if t.isSymbol '"' then .ok ([], ts)
    else if t.kind = .unterminated then stopAt (t :: ts) .unterminatedFileName
    else do
      let (name, rest) ← quotedTokens? ts
      return (t.text ++ name, rest)

/-- Reads a name between double quotes, after the first of them. -/
def fileName? (ts : Rest) : Reading StatementFault (Text × Rest) := do
  let (name, rest) ← quotedTokens? ts
  if name = [] then stopAt rest .emptyFileName else return (name, rest)

/-- Reads a name: a word, a quoted text, or tokens between double quotes. -/
def name? (role : NameRole) (ts : Rest) : Reading StatementFault (Text × Rest) :=
  match ts with
  | [] => stopAt [] (.nameExpected role)
  | t :: rest =>
    if t.kind = .word then .ok (t.text, rest)
    else if t.kind = .quoted then .ok (t.text.unquote, rest)
    else if t.isSymbol '"' then fileName? rest
    else stopAt (t :: rest) (.nameExpected role)

def startsName (t : SourceToken) : Bool := t.isWordOrQuoted || t.isSymbol '"'

def lastName? (role : NameRole) (ts : Rest) : Reading StatementFault Text := do
  let (name, rest) ← name? role ts
  expectEnd rest
  return name

def readLines (lines : LineReader) (file : Text) (rest : Rest) :
    Reading StatementFault (List Text) :=
  match lines file with
  | .ok ls => .ok ls
  | .error e => stopAt rest (.unreadable file e)

def require? (ts : Rest) : Reading StatementFault Statement := do
  let (type, rest) ← name? .type ts
  if nextIs ',' rest then
    return .require type (← lastName? .file rest.tail)
  else
    expectEnd rest
    return .require type []

/-- The name of a level is read and ignored. -/
def offLevel? (ts : Rest) : Reading StatementFault Statement := do
  if ts.head?.any startsName then
    let _ ← lastName? .level ts
  else expectEnd ts
  return .offLevel

def import? (ts : Rest) : Reading StatementFault Statement := do
  let (level, rest) ← name? .level ts
  let (newType, rest) ← name? .type rest
  let rest ← expect '=' rest
  return .importFromLevel level newType (← lastName? .type rest)

def entry? (lines : LineReader) (ts : Rest) :
    Reading StatementFault (DictionaryEntry × Rest) :=
  match ts with
  | [] => stopAt [] .dictionaryWordExpected
  | t :: rest =>
    if t.isSymbol '"' then do
      let (file, rest) ← fileName? rest
      return (.file file (← readLines lines file rest), rest)
    else if t.isWordOrQuoted then .ok (.word t.text.unquote, rest)
    else stopAt (t :: rest) .dictionaryWordExpected

/-- Reads entries with commas between them to the end of the statement. Each takes at least one
token, so the number of tokens is fuel enough. -/
def entries? (lines : LineReader) : (fuel : Nat) → Rest →
    Reading StatementFault (List DictionaryEntry)
  | 0, ts => stopAt ts .dictionaryWordExpected
  | fuel + 1, ts => do
    let (e, rest) ← entry? lines ts
    if rest = [] then return [e]
    else if nextIs ',' rest then return e :: (← entries? lines fuel rest.tail)
    else stopAt rest .commaExpected

def dictionary? (lines : LineReader) (ts : Rest) : Reading StatementFault Statement := do
  let keepsCase := nextIs '+' ts
  let ts ←
    if keepsCase then
      if ts.tail.head?.any (·.isWord "case") then pure ts.tail.tail
      else stopAt ts.tail .caseExpected
    else pure ts
  let (name, rest) ← name? .dictionary ts
  let rest ← expect '=' rest
  return .defineDictionary ⟨name, !keepsCase, ← entries? lines (rest.length + 1) rest⟩

def level? (ts : Rest) : Reading StatementFault Statement := do
  let (name, rest) ← name? .level ts
  let rest ← expect '=' rest
  match rest with
  | [] => stopAt [] .strategyExpected
  | t :: rest =>
    match if t.kind = .word then Strategy.ofName? t.text else none with
    | none => stopAt (t :: rest) .strategyExpected
    | some strategy =>
      let (pattern, rest) ← name? .levelPattern rest
      if strategy ≠ .pseudotoken then stopAt rest .regexUnsupported
      expectEnd rest
      return .defineLevel name strategy pattern

def startsGenerator (ts : Rest) : Bool := nextIs ':' ts || nextIs '-' ts || nextIs '~' ts

/-- Reads a regular expression and the number of a group, as far as it can be read. -/
def regex? {α : Type} (stop : SourceToken) (ts : Rest) : Reading StatementFault α :=
  match ts with
  | [] => stopAt [] .regexExpected
  | t :: rest =>
    if t.kind ≠ .quoted then stopAt (t :: rest) .regexExpected
    else do
      let rest ← expect ',' rest
      match rest with
      | [] => stopAt [] (.groupExpected stop.text)
      | n :: rest =>
        if n.kind = .word ∧ n.text.int32?.isSome then stopAt rest .regexUnsupported
        else stopAt (n :: rest) (.groupExpected n.text)

def phraseTokens (ts : Rest) : List (List SourceToken) :=
  (Segment.split (·.isSymbol ',') default ts).map (·.tokens)

def areQuoted (ts : List SourceToken) : Bool :=
  2 < ts.length && nextIs '"' ts && ts.getLast?.any (·.isSymbol '"')

def quotedName (ts : List SourceToken) : Text := ts.tail.dropLast.flatMap (·.text)

/-- The entry of the phrase with a number. More than two tokens, of which the first and the last
are double quotes, name a file. -/
def phrase? (lines : LineReader) (number : Nat) (ts : List SourceToken) :
    Reading StatementFault PhraseEntry :=
  if areQuoted ts then do
    let file := quotedName ts
    return .file file (← readLines lines file [])
  else .ok (.words number (ts.map (·.text.unquote)))

def phrases? (lines : LineReader) (ts : Rest) : Reading StatementFault Generator :=
  let fromFault := ts.dropWhile (·.kind != .unterminated)
  if fromFault ≠ [] then stopAt fromFault .unterminatedText
  else do
    let parts := phraseTokens ts
    return .phrases (← (parts.zipIdx).mapM fun (part, i) => phrase? lines i part)

/-- Reads a generator, at whose mark the tokens begin, to the end of the statement that `stop`
ends. -/
def generator? (lines : LineReader) (stop : SourceToken) (ts : Rest) :
    Reading StatementFault Generator :=
  if nextIs '~' ts then
    if ts.tail.head?.any (·.isWord "re") then regex? stop ts.tail.tail
    else if ts.tail.head?.any (·.isWord "trie") then phrases? lines ts.tail.tail
    else stopAt ts.tail .searchKindExpected
  else
    match Pattern.ofSegment? ⟨ts.tail, stop⟩ with
    | .error (e, at') => stopAt [at'] (.inPattern e)
    | .ok p => .ok (if nextIs ':' ts then .extractions p else .rejections p)

/-- Reads an optional scope, an equals sign before it, and a generator. -/
def labeling? (lines : LineReader) (stop : SourceToken) (effect : Effect) (ts : Rest) :
    Reading StatementFault Statement := do
  let ts ← expect '=' ts
  if startsGenerator ts then return .label ⟨effect, [], ← generator? lines stop ts⟩
  else
    let (scope, ts) ← name? .scope ts
    if startsGenerator ts then return .label ⟨effect, scope, ← generator? lines stop ts⟩
    else stopAt ts .generatorExpected

def spanType? (lines : LineReader) (stop : SourceToken) (ts : Rest) :
    Reading StatementFault Statement := do
  let (type, ts) ← name? .type ts
  if nextIs ':' ts then stopAt ts .propertyRefused
  else labeling? lines stop (.spanType type) ts

def property? (lines : LineReader) (stop : SourceToken) (effect : Text → Text → Effect)
    (ts : Rest) : Reading StatementFault Statement := do
  let (key, ts) ← name? .property ts
  if nextIs ':' ts then
    let (value, ts) ← name? .propertyValue ts.tail
    labeling? lines stop (effect key value) ts
  else stopAt ts .propertyColonExpected

def body? (lines : LineReader) (stop : SourceToken) (keyword : Text) (ts : Rest) :
    Reading StatementFault Statement :=
  if keyword = ascii "declareSpanType" then declareType <$> lastName? .type ts
  else if keyword = ascii "provide" then provide <$> lastName? .type ts
  else if keyword = ascii "require" then require? ts
  else if keyword = ascii "annotateWith" then annotateWith <$> lastName? .file ts
  else if keyword = ascii "onLevel" then onLevel <$> lastName? .level ts
  else if keyword = ascii "offLevel" then offLevel? ts
  else if keyword = ascii "importFromLevel" then import? ts
  else if keyword = ascii "defDict" then dictionary? lines ts
  else if keyword = ascii "defLevel" then level? ts
  else if keyword = ascii "defSpanType" then spanType? lines stop ts
  else if keyword = ascii "defSpanProp" then property? lines stop .spanProperty ts
  else if keyword = ascii "defTokenProp" then property? lines stop .tokenProperty ts
  else stopAt ts .unknownKeyword

/-- The error of a fault at a token. A text that is not terminated there goes before any other
fault. -/
def errorAt (keyword : Text) (t : SourceToken) (fault : StatementFault) : StatementError :=
  ⟨(t.start.line, t.start.column), keyword,
    if t.kind = .unterminated then .unterminatedText else fault⟩

def ofSegment? (lines : LineReader) (s : Segment) : Except StatementError Statement :=
  let first := s.current s.tokens
  if first.kind = .unterminated then .error (errorAt [] first .unterminatedText)
  else if first.kind ≠ .word then .error (errorAt first.text first .keywordExpected)
  else
    match body? lines s.stop first.text s.tokens.tail with
    | .ok statement => .ok statement
    | .error (fault, rest) => .error (errorAt first.text (s.current rest) fault)

end Statement

end SpanRules
