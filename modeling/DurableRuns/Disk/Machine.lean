/-
# DurableRuns.Disk.Machine -- what outlives a run in memory

A `Machine` is what the operations on runs act upon: the disk, the clock, and the host that is
told which runs have ended.  Every change of a file goes through `commit`, one change at a
time, so that

* the log of a machine lists the changes in their order, and a kill between two of them leaves
  the disk as some first part of the log made it (`Disk.replay`);
* a list of refusals decides, change by change, whether the device takes it.  A refused change
  leaves the disk as it was.  A machine without refusals fails only where something is in the
  way;
* the changes that were asked for and not made, whether the device refused them or something was
  in the way, are listed as well.
-/
import DurableRuns.Disk.Basic
import DurableRuns.Error
import DurableRuns.Json.Printer

namespace DurableRuns

set_option autoImplicit false

/-- One change of the disk. -/
inductive Change where
  | makeDirectories (path : Path)
  /-- A file gets a content.  Unless the write is atomic the file is rewritten in place. -/
  | write (path : Path) (content : Bytes) (atomic : Bool)
  | remove (path : Path)
deriving DecidableEq, Repr

/-- The disk after a change. -/
def Change.apply : Change → Disk → Except DiskFault Disk
  | .makeDirectories path, disk => disk.makeDirectories path
  | .write path content _, disk => disk.write path content
  | .remove path, disk => disk.remove path

/-- The disk after changes, up to the first that fails. -/
def Disk.replay (disk : Disk) : List Change → Except DiskFault Disk
  | [] => .ok disk
  | change :: changes => do (← change.apply disk).replay changes

/-- What the operations on runs act upon. -/
structure Machine where
  disk : Disk
  /-- For each coming change, whether the device refuses it. -/
  refusals : List Bool := []
  /-- The changes made so far, the oldest first. -/
  log : List Change := []
  /-- The changes that were asked for and not made, the oldest first. -/
  missed : List Change := []
  now : Instant
  /-- The runs the host was told to let go, the oldest first. -/
  released : List String := []

/-- A step on a machine, which may fail. -/
abbrev MachineM := EStateM Error Machine

namespace Machine

/-- The outcome of one change: the machine after it, and the fault if it was not made. -/
def attempt (machine : Machine) (change : Change) : Machine × Option DiskFault :=
  let told := { machine with refusals := machine.refusals.tail }
  if machine.refusals.headD false then
    ({ told with missed := machine.missed ++ [change] }, some .noSpace)
  else
    match change.apply machine.disk with
    | .ok disk => ({ told with disk, log := machine.log ++ [change] }, none)
    | .error fault => ({ told with missed := machine.missed ++ [change] }, some fault)

/-- Makes one change, or fails with an error made from the fault. -/
def commit (change : Change) (toError : DiskFault → Error) : MachineM Unit := fun machine =>
  match machine.attempt change with
  | (machine, none) => .ok () machine
  | (machine, some fault) => .error (toError fault) machine

/-- Writes a value as a file in its pretty form. -/
def writeJson (place : Place) (value : Json) (atomic : Bool) : MachineM Unit :=
  commit (.write place.path value.pretty atomic) (.storageWrite place.shown)

/-- Reads a value from a file. -/
def readJson {α : Type} (place : Place) (reader : Json → Option α) : MachineM α := do
  match (← get).disk.readJson place.path reader with
  | .ok value => return value
  | .error fault => throw fault.toError

end Machine
end DurableRuns
