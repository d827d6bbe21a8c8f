/-
# DurableRuns.Main -- the command line on a real disk

The program reads the part of the disk that its arguments are about, acts on this value, and
then makes on the disk the changes that the machine has logged, in their order.
-/
import DurableRuns.Cli.Command
import DurableRuns.Cli.NewName
import Std.Time

namespace DurableRuns.Cli

set_option autoImplicit false

/-! ## The disk -/

/-- A path as the system writes it. -/
def systemPath (path : Path) : String := "/" ++ "/".intercalate path

/-- What stands at a path of the system. -/
def entryAt (path : Path) : IO (Option Entry) := do
  let real ←
    try some <$> IO.FS.realPath (systemPath path)
    catch _ => pure none
  match real with
  | none => return none
  | some real =>
      if ← real.isDir then return some .directory
      if !(← real.pathExists) then return none
      return some (.file (← IO.FS.readBinFile real).toList)

/-- The entry at a path and those below it, as far down as is asked. -/
def readBelow : Nat → Path → IO (List (Path × Entry))
  | depth, path => do
      match ← entryAt path with
      | none => return []
      | some (.file content) => return [(path, .file content)]
      | some .directory =>
          match depth with
          | 0 => return [(path, .directory)]
          | depth + 1 =>
              let mut found := [(path, Entry.directory)]
              for inside in ← (← IO.FS.realPath (systemPath path)).readDir do
                found := found ++ (← readBelow depth (path ++ [inside.fileName]))
              return found

/-- The entries on the way to a path. -/
def readAlong (base : Path) : List String → IO (List (Path × Entry))
  | [] => return []
  | name :: rest => do
      match ← entryAt base with
      | none => return []
      | some entry => return (base, entry) :: (← readAlong (base ++ [name]) rest)

/-- The part of the disk that is asked for. -/
def readDisk : List (Path × Nat) → IO Disk
  | [] => return .empty
  | (path, depth) :: rest => do
      let others ← readDisk rest
      let found := (← readAlong [] path) ++ (← readBelow depth path)
      return found.foldl (fun disk (path, entry) => disk.set path entry) others

/-- Makes a change on the disk.  An atomic write goes to another file first, which then takes
the place of the old one. -/
def makeChange : Change → IO Unit
  | .makeDirectories path => IO.FS.createDirAll (systemPath path)
  | .write path content atomic => do
      IO.FS.createDirAll (systemPath path.dropLast)
      let bytes := ByteArray.mk content.toArray
      if atomic then
        let draft := systemPath path ++ ".draft"
        IO.FS.writeBinFile draft bytes
        IO.FS.rename draft (systemPath path)
      else IO.FS.writeBinFile (systemPath path) bytes
  | .remove path => IO.FS.removeFile (systemPath path)

/-! ## The process -/

/-- The time of the clock. -/
def readClock : IO (Option Instant) := do
  let now ← Std.Time.Timestamp.now
  let reading := Std.Time.PlainDateTime.ofWallTime (now.toWallTime Std.Time.TimeZone.UTC.offset)
  let date : Calendar.Date :=
    ⟨reading.date.year, reading.date.month.val.toNat, reading.date.day.val.toNat⟩
  let minute := 60 * reading.time.hour.val.toNat + reading.time.minute.val.toNat
  return Instant.make? date minute reading.time.second.val.toNat
    reading.time.nanosecond.val.toNat

/-- The values of the variables that settings come from. -/
def readVariables : IO (String → Option String) := do
  let hint ← IO.getEnv Config.hintVariable
  let interval ← IO.getEnv Config.intervalVariable
  return fun name =>
    if name = Config.hintVariable then hint
    else if name = Config.intervalVariable then interval
    else none

/-- Runs the program and gives the code it ends with. -/
def runOnDisk (arguments : List String) (now : Instant) : IO UInt32 := do
  let workingDirectory := Place.resolve [] (Place.namesIn (← IO.currentDir).toString)
  let newName := newName (← IO.getRandomBytes 16).toList
  let surroundings : Surroundings := ⟨workingDirectory, ← readVariables, newName⟩
  let scope :=
    match parse arguments with
    | .run invocation => invocation.scope workingDirectory
    | _ => []
  let disk ← readDisk scope
  let (result, machine) := runProgram arguments surroundings { disk, now }
  machine.log.forM makeChange
  result.output.forM IO.println
  result.errors.forM IO.eprintln
  return result.code.toUInt32

end DurableRuns.Cli

/-- The command line. -/
def main (arguments : List String) : IO UInt32 := do
  match ← DurableRuns.Cli.readClock with
  | some now => DurableRuns.Cli.runOnDisk arguments now
  | none =>
      IO.eprintln "Error: the clock shows no time that can be written"
      return 1
