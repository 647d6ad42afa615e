import SpanRules.Command
import Std.Data.HashSet

/-! The command line. It reads the files that a run may look at, runs the command on them, and
writes what the command wrote. A file that cannot be read counts as one that is not there. -/
namespace SpanRules.Disk

def textOf (s : String) : Text := s.toUTF8.toList

def stringOf? (t : Text) : Option String := String.fromUTF8? (ByteArray.mk t.toArray)

/-- The name of a path from the root on. -/
def rootedName? (p : Path) : Option String := stringOf? (p.flatMap (byte '/' :: ·))

/-- Adds what the disk has at a path. -/
def look (fs : FileSystem) (p : Path) : IO FileSystem := do
  match rootedName? p, fs.node? p with
  | some name, none =>
    let file := (← IO.currentDir) / name
    try
      if ← file.isDir then return fs.put p .directory
      if ← file.pathExists then
        return fs.put p (.file (← IO.FS.readBinFile file).toList)
      return fs
    catch _ => return fs
  | _, _ => return fs

/-- Adds what the disk has on the way to a name, and there. -/
def lookFor (fs : FileSystem) (name : Text) : IO FileSystem := do
  let mut fs := fs
  let mut path := if name.head? = some (byte '/') then [] else fs.workingDirectory
  for step in FileSystem.steps name do
    if step = ascii ".." then path := path.dropLast
    else if step ≠ ascii "." then
      path := path ++ [step]
      fs ← look fs path
  return fs

def entries (dir : Text) : IO (List Text) := do
  match stringOf? dir with
  | none => return []
  | some name =>
    let found ← ((← IO.currentDir) / name).readDir
    return ascii "." :: ascii ".." :: found.toList.map (textOf ·.fileName)

/-- Adds what the disk has under the names that fit a pattern. -/
def lookAlong (fs : FileSystem) (pattern : Text) : IO FileSystem := do
  let mut fs := fs
  let mut directories := [if pattern.head? = some (byte '/') then ascii "/" else ascii "."]
  for step in FileSystem.steps pattern do
    let mut found := []
    for directory in directories do
      for entry in ← entries directory do
        if Glob.fits step entry then
          let name := directory ++ byte '/' :: entry
          fs ← lookFor fs name
          found := name :: found
    directories := found.filter fs.isDirectory
  return fs

/-- Adds what the disk has under a name, and the files from which documents are read if it is a
directory. -/
def lookInside (fs : FileSystem) (name : Text) : IO FileSystem := do
  let fs ← lookFor fs name
  if fs.isDirectory name then lookAlong fs (name ++ ascii "/*") else return fs

/-- Adds the resources of some names, and those that are named in them. -/
partial def lookForResources (fs : FileSystem) (directories : List Text)
    (seen : Std.HashSet Text) : List Text → IO FileSystem
  | [] => return fs
  | name :: names => do
    if seen.contains name then lookForResources fs directories seen names
    else
      let mut fs := fs
      let mut named := names
      for file in Resources.candidates ⟨fs, directories⟩ name do
        fs ← lookFor fs file
        if let .ok source := fs.contentsOf file then named := Program.names source ++ named
      lookForResources fs directories (seen.insert name) named

def filesFor (args : List Text) : IO FileSystem := do
  let line := Command.flags.take args
  let directories := Resources.pathDirectories (line.flags.text (ascii "resource_path"))
  let here := FileSystem.steps (textOf (← IO.currentDir).toString)
  let fs := FileSystem.putDirectories ⟨[], here⟩ here
  let fs ← lookFor fs (line.flags.text (ascii "labels"))
  let fs ← line.arguments.tail.foldlM lookInside fs
  lookForResources fs directories ∅ (line.arguments.take 1)

def bytesOf (t : Text) : ByteArray := ByteArray.mk t.toArray

def writeChanges (before after : FileSystem) : IO Unit := do
  for (path, node) in after.nodes do
    if before.node? path ≠ some node then
      match rootedName? path, node with
      | some name, .file contents => IO.FS.writeBinFile name (bytesOf contents)
      | _, _ => pure ()

end SpanRules.Disk

open SpanRules in
def main (args : List String) : IO UInt32 := do
  let args := args.map Disk.textOf
  let fs ← Disk.filesFor args
  let run := Command.run fs (ascii "run-program") args
  (← IO.getStderr).write (Disk.bytesOf run.stderr)
  (← IO.getStdout).write (Disk.bytesOf run.stdout)
  Disk.writeChanges fs run.ending.files
  return run.ending.exit.toNat.toUInt32
