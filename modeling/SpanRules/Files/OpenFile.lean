import SpanRules.Files.FileSystem

/-! Files that are open for reading and writing at a position. -/
namespace SpanRules

/-- An open file. One that appends writes at the end whatever its position. -/
structure OpenFile where
  name : Text
  path : Path
  mayRead : Bool
  mayWrite : Bool
  appends : Bool
  position : Nat
  deriving Inhabited

namespace OpenFile

/-- Opens a file. The mode is `r`, `w` or `a`; a plus sign after it allows reading and writing. -/
def openFile (fs : FileSystem) (name mode : Text) : Except FileError (OpenFile × FileSystem) :=
  let letter := mode.headD 0
  let both := mode[1]? == some (byte '+')
  if letter = byte 'w' ∨ letter = byte 'a' then
    match fs.prepareWrite name with
    | .error e => .error (.onPath name e)
    | .ok (p, fs) =>
      let fs := if letter = byte 'w' then fs.put p (.file []) else fs
      .ok (⟨name, p, both, true, letter == byte 'a', 0⟩, fs)
  else
    match fs.locate name, fs.look name with
    | .ok (.found p _), .ok (.file _) => .ok (⟨name, p, true, both, false, 0⟩, fs)
    | _, .ok .directory => .error (.onPath name .isDirectory)
    | _, .error e => .error (.onPath name e)
    | .error e, _ => .error (.onPath name e)
    | _, _ => .error (.onPath name .missing)

def contents (fs : FileSystem) (f : OpenFile) : Text :=
  match fs.node? f.path with
  | some (.file c) => c
  | _ => []

def readRest (fs : FileSystem) (f : OpenFile) : Except FileError (Text × OpenFile) :=
  if f.mayRead then
    let c := f.contents fs
    .ok (c.drop f.position, { f with position := max f.position c.length })
  else .error (.onPath f.name .badDescriptor)

/-- Writes bytes over those at the position. -/
def write (fs : FileSystem) (f : OpenFile) (t : Text) :
    Except FileError (OpenFile × FileSystem) :=
  if f.mayWrite then
    let c := f.contents fs
    let at' := if f.appends then c.length else f.position
    let after := at' + t.length
    .ok ({ f with position := after }, fs.put f.path (.file (c.take at' ++ t ++ c.drop after)))
  else .error (.onPath f.name .badDescriptor)

def writeLine (fs : FileSystem) (f : OpenFile) (line : Text) :
    Except FileError (OpenFile × FileSystem) := f.write fs (line ++ [byte '\n'])

end OpenFile

end SpanRules
