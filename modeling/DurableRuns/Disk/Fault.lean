/-
# DurableRuns.Disk.Fault -- why a file operation fails

The ways a file operation can fail, with the text the system gives for each.
-/
namespace DurableRuns

set_option autoImplicit false

/-- Why a file operation fails. -/
inductive DiskFault where
  /-- There is nothing of that name. -/
  | notFound
  /-- A file stands where a directory was needed. -/
  | notDirectory
  /-- A directory stands where a file was needed. -/
  | isDirectory
  /-- A file stands where a directory was to be made. -/
  | alreadyExists
  /-- The device takes no more data. -/
  | noSpace
deriving DecidableEq, Repr

namespace DiskFault

/-- Every fault. -/
def all : List DiskFault := [notFound, notDirectory, isDirectory, alreadyExists, noSpace]

/-- The text of a fault. -/
def message : DiskFault → String
  | notFound => "No such file or directory (os error 2)"
  | notDirectory => "Not a directory (os error 20)"
  | isDirectory => "Is a directory (os error 21)"
  | alreadyExists => "File exists (os error 17)"
  | noSpace => "No space left on device (os error 28)"

end DiskFault

/-- Why a file could not be read as a value. -/
inductive ReadFault where
  | disk (fault : DiskFault)
  /-- The content is not the written form of a value of the kind that was asked for. -/
  | malformed
deriving DecidableEq, Repr

namespace ReadFault

/-- The text for content that is not what it should be. -/
def malformedMessage : String := "file content is not the JSON that was expected"

/-- The text of a fault. -/
def message : ReadFault → String
  | disk fault => fault.message
  | malformed => malformedMessage

end ReadFault
end DurableRuns
