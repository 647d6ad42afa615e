import SpanRules.OrderedSet
import SpanRules.Files.FileSystem
import SpanRules.Files.Glob.Matching

/-! The file names that fit a pattern. -/
namespace SpanRules

namespace Glob

def isPlain (pattern : Text) : Bool :=
  ! pattern.any fun b => b == byte '*' || b == byte '?' || b == byte '[' || b == byte '\\'

/-- Whether a pattern has stars, question marks or opening brackets that are not escaped. -/
def isSpecial : Text → Bool
  | [] => false
  | b :: t =>
    if b = byte '*' ∨ b = byte '?' ∨ b = byte '[' then true
    else if b = byte '\\' then
      match t with
      | [] => false
      | _ :: t => isSpecial t
    else isSpecial t

def unescape : Text → Text
  | [] => []
  | b :: t =>
    if b = byte '\\' then
      match t with
      | [] => []
      | c :: t => c :: unescape t
    else b :: unescape t

/-- The text without the backslash at its end, if that one is not escaped. -/
def dropEscape (t : Text) : Text :=
  if (t.reverse.takeWhile (· == byte '\\')).length % 2 = 1 then t.dropLast else t

/-- The names in a directory that fit a pattern. Files can be left out, but not the one whose name
the pattern is. -/
def namesIn (fs : FileSystem) (onlyDirectories : Bool) (dir pattern : Text) : List Text :=
  if isPlain pattern then
    if fs.fileExists (dir ++ byte '/' :: pattern) then [pattern] else []
  else
    match fs.locate dir with
    | .ok (.found p .directory) =>
      (ascii "." :: ascii ".." :: fs.names p).filter fun name =>
        fits pattern name && (!onlyDirectories || fs.isDirectory (dir ++ byte '/' :: name))
    | _ => []

def inDirectory (dir name : Text) : Text :=
  if dir = ascii "/" then dir ++ name else dir ++ byte '/' :: name

def markDirectory (fs : FileSystem) (name : Text) : Text :=
  if fs.isDirectory name then name ++ [byte '/'] else name

/-- Everything before the last slash of a text, and everything after it. -/
def splitLast (pattern : Text) : Option (Text × Text) :=
  let name := (pattern.reverse.takeWhile (· != byte '/')).reverse
  if name.length = pattern.length then none
  else some (pattern.take (pattern.length - name.length - 1), name)

structure Mode where
  onlyDirectories : Bool
  marksDirectories : Bool

/-- The file names that fit a pattern, which may have special parts in each step. A slash at the end
asks for directories and is found at the end of their names. -/
def expand (fs : FileSystem) : (fuel : Nat) → Mode → Text → List Text
  | 0, _, _ => []
  | _, _, [] => []
  | fuel + 1, mode, pattern =>
    let only := mode.onlyDirectories || pattern.getLast? == some (byte '/')
    let marked (names : List Text) : List Text :=
      if mode.marksDirectories then names.map (markDirectory fs) else names
    match splitLast pattern with
    | none => marked (namesIn fs only (ascii ".") pattern)
    | some (dir, name) =>
      if dir = [] ∨ dir = ascii "\\" then
        marked ((namesIn fs only (ascii "/") name).map (inDirectory (ascii "/")))
      else if name = [] ∧ 1 < dir.length then expand fs fuel ⟨only, true⟩ (dropEscape dir)
      else
        let dirs :=
          if isSpecial dir then expand fs fuel ⟨true, false⟩ (dropEscape dir) else [unescape dir]
        marked (dirs.flatMap fun d => (namesIn fs only d name).map (inDirectory d))

end Glob

def FileSystem.glob (fs : FileSystem) (pattern : Text) : List Text :=
  let pattern := pattern.beforeNul
  (OrderedSet.ofList (Glob.expand fs (pattern.length + 1) ⟨false, false⟩ pattern)).toList

end SpanRules
