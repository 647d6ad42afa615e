import SpanRules.Files.FileSystem

/-! Resources are files that are also looked for in a list of directories. -/
namespace SpanRules

/-- A file system with the directories in which resources are looked for. -/
structure Resources where
  files : FileSystem
  directories : List Text
  deriving Inhabited

namespace Resources

/-- The directories of a list that is separated by colons. -/
def pathDirectories (path : Text) : List Text := path.fields (byte ':')

/-- The files that a name may stand for: the file of that name, and the files of that name in the
directories. A name that starts at the root is not looked for in directories. -/
def candidates (r : Resources) (name : Text) : List Text :=
  if name.head? = some (byte '/') then [name]
  else name :: r.directories.map (· ++ byte '/' :: name)

/-- The file of a resource, which is the first that is there. -/
def resolve (r : Resources) (name : Text) : Except FileError Text :=
  if name = [] then .error .emptyResourceName
  else match (r.candidates name).find? r.files.fileExists with
    | some f => .ok f
    | none => .error (.resourceNotFound name)

def read (r : Resources) (name : Text) : Except FileError Text := do
  r.files.contentsOf (← r.resolve name)

def readLines (r : Resources) (name : Text) : Except FileError (List Text) :=
  return (← r.read name).lines

end Resources

end SpanRules
