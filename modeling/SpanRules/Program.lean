import SpanRules.Failure
import SpanRules.Files.Resource
import SpanRules.Source.Comment
import SpanRules.Statement.Listing
import SpanRules.Statement.Reading

/-! Programs: reading them from sources and files, and their listing. -/
namespace SpanRules

abbrev Program := List Statement

namespace Program

/-- The program of a list of segments, of which the empty ones are no statements. -/
def ofSegments? (lines : LineReader) (segments : List Segment) : Except StatementError Program :=
  (segments.filter (! ·.tokens.isEmpty)).mapM (Statement.ofSegment? lines)

def parse? (r : Resources) (source : Text) : Except Failure Program :=
  match ofSegments? r.readLines source.stripComments.segments with
  | .ok p => .ok p
  | .error e => .error (.inStatement e)

def ofFile? (r : Resources) (name : Text) : Except Failure Program :=
  match r.read name with
  | .ok source => parse? r source
  | .error e => .error (.inFile e)

def ofStatements? (r : Resources) (sources : List Text) : Except Failure Program :=
  parse? r (sources.flatMap fun s => s ++ ascii ";\n")

/-- Whether nothing follows the first segment but a semicolon that ends it. -/
def isSingle : List Segment → Bool
  | [_] => true
  | [_, s] => s.tokens.isEmpty
  | _ => false

def statement? (r : Resources) (source : Text) : Except Failure Statement :=
  let segments := source.stripComments.segments
  match Statement.ofSegment? r.readLines (segments.headD default) with
  | .error e => .error (.inStatement e)
  | .ok s => if isSingle segments then .ok s else .error (.severalStatements source)

/-- The names that tokens may begin with: a name in a statement, or the file of a phrase. -/
def namesAt (ts : Rest) : List Text :=
  let phrase := (Statement.phraseTokens ts).headD []
  ((Statement.name? .file ts).toOption.map (·.1)).toList ++
    if Statement.areQuoted phrase then [Statement.quotedName phrase] else []

def namesIn : Rest → List Text
  | [] => []
  | t :: ts => namesAt (t :: ts) ++ namesIn ts

/-- All names in a source that may be those of files, whether or not it can be read. -/
def names (source : Text) : List Text :=
  source.stripComments.segments.flatMap fun s => namesIn s.tokens

/-- The source form of a program; each statement ends with a semicolon and its line. -/
def listing (p : Program) : Text := p.flatMap fun s => s.toText ++ ascii ";\n"

end Program

end SpanRules
