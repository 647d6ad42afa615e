import SpanRules.Failure
import SpanRules.Log
import SpanRules.Layer.Basic
import SpanRules.Files.OpenFile

/-! Labels as lines of text, one operation for each instance of a type. -/
namespace SpanRules

namespace Layer

/-- The operation that adds a span, given by document, first byte and length, to a type. -/
def operationLine (l : Layer) (type : Text) (s : Span) : Text :=
  let d := l.document s.document
  let start := d.charStart s
  Text.join (ascii " ") [ascii "addToType", d.id, Text.ofNat start,
    Text.ofInt ((d.charStop s : Int) - start), type]

/-- The operations that add all instances, by type and then by span. -/
def operationLines (l : Layer) : List Text :=
  l.types.toList.flatMap fun e => e.2.toList.map (l.operationLine e.1)

def operationText (l : Layer) : Text := l.operationLines.flatMap (· ++ [byte '\n'])

end Layer

/-- An operation as it is read: bytes from `start` on, `length` of them, belong to `type`. -/
structure Operation where
  id : Text
  start : Int
  length : Int
  type : Text
  deriving DecidableEq, Inhabited

namespace Operation

/-- Reads an operation. Its fields are separated by blanks. -/
def ofFields? : List Text → Option Operation
  | [verb, id, start, length, type] =>
    if verb = ascii "addToType" then do
      return ⟨id, ← start.int32?, ← length.int32?, type⟩
    else none
  | _ => none

/-- The tokens of a document that lie within the range of an operation, if there are any. Sums and
differences are those of 32-bit integers. -/
def span? (o : Operation) (d : Document) (index : Nat) : Option Span :=
  let whole := d.whole index
  let base : Int := d.charStart whole
  d.properSubspan? whole (Text.wrap32 (o.start - base))
    (Text.wrap32 (Text.wrap32 (o.start + o.length) - base))

end Operation

/-- The layer after some lines of operations, with what was logged and whether it failed. -/
structure Loaded where
  layer : Layer
  log : List LogLine
  result : Except Failure Unit
  deriving Inhabited

namespace Layer

/-- Carries out the operation in a line. Documents without tokens are left out. -/
def loadLine (l : Layer) (file : Text) (number : Nat) (line : Text) : Loaded :=
  match Operation.ofFields? (line.fields (byte ' ')) with
  | none => ⟨l, [], .error (.malformedOperation file number)⟩
  | some o =>
    match l.documents.find? o.id with
    | none => ⟨l, [], .error (.unknownDocument o.id file number)⟩
    | some index =>
      let d := l.document index
      if d.tokens = [] then ⟨l, [], .ok ()⟩
      else
        match o.span? d index with
        | some s => ⟨l.addToType o.type s, [], .ok ()⟩
        | none =>
          ⟨l, [⟨.warning, ascii "No tokens for operation at " ++ Failure.location file number⟩],
            .ok ()⟩

/-- Carries out operations line by line up to the first that fails. Lines are numbered from
`number` on; blank ones are left out. -/
def loadLines (file : Text) : Layer → (number : Nat) → List Text → Loaded
  | l, _, [] => ⟨l, [], .ok ()⟩
  | l, number, line :: lines =>
    if line.strip = [] then loadLines file l (number + 1) lines
    else
      let first := l.loadLine file number line.strip
      match first.result with
      | .error f => { first with result := .error f }
      | .ok () =>
        let rest := loadLines file first.layer (number + 1) lines
        { rest with log := first.log ++ rest.log }

def loadOperations (l : Layer) (files : FileSystem) (file : Text) : Loaded :=
  match files.contentsOf file with
  | .error e => ⟨l, [], .error (.inFile e)⟩
  | .ok contents => loadLines file l 1 contents.lines

def saveOperations (l : Layer) (files : FileSystem) (file : Text) : Except Failure FileSystem :=
  match files.replaceContents file l.operationText with
  | .error e => .error (.inFile e)
  | .ok files => .ok files

end Layer

end SpanRules
