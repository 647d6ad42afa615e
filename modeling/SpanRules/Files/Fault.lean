import SpanRules.Status

/-! What can go wrong with files. -/
namespace SpanRules

inductive PathFault where
  | missing
  | badDescriptor
  | alreadyThere
  | notDirectory
  | isDirectory
  | nameTooLong
  deriving DecidableEq, Inhabited

namespace PathFault

/-- The number by which the system reports the fault. -/
def code : PathFault → Int
  | missing => 2
  | badDescriptor => 9
  | alreadyThere => 17
  | notDirectory => 20
  | isDirectory => 21
  | nameTooLong => 36

def description : PathFault → Text
  | missing => ascii "No such file or directory"
  | badDescriptor => ascii "Bad file descriptor"
  | alreadyThere => ascii "File exists"
  | notDirectory => ascii "Not a directory"
  | isDirectory => ascii "Is a directory"
  | nameTooLong => ascii "File name too long"

end PathFault

inductive FileError where
  | onPath (name : Text) (fault : PathFault)
  | emptyResourceName
  | resourceNotFound (name : Text)
  deriving DecidableEq, Inhabited

def FileError.status : FileError → Status
  | .onPath name fault => .ofDetail fault.code name fault.description
  | .emptyResourceName => .error 2 (ascii "Empty resource name")
  | .resourceNotFound name => .ofDetail 2 (ascii "Resource not found") name

end SpanRules
