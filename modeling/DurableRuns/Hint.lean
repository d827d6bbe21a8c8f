/-
# DurableRuns.Hint -- how much a run pays for durability

The durability hint of a run is fixed when the run starts.  It decides whether nodes are
written one by one or in batches, whether a file is replaced in one step, and whether a run
may go on after its process was killed.
-/
import DurableRuns.Text.Blank

namespace DurableRuns

set_option autoImplicit false

/-- How the nodes of a run reach the disk. -/
inductive StorageKind where
  /-- Each node is written before its save returns. -/
  | immediate
  /-- Nodes are held in memory and written together. -/
  | batched
deriving DecidableEq, Repr

/-- How much a run pays for durability. -/
inductive Hint where
  | maxSurvivability
  | survivableNonatomic
  | performanceOptimized
deriving DecidableEq, Repr

namespace Hint

/-- Every hint, the default first. -/
def all : List Hint := [maxSurvivability, survivableNonatomic, performanceOptimized]

/-- The name of a hint, in settings and in files. -/
def name : Hint → String
  | maxSurvivability => "max-survivability"
  | survivableNonatomic => "survivable-nonatomic"
  | performanceOptimized => "performance-optimized"

/-- The hint as reports show it. -/
def describe : Hint → String
  | maxSurvivability => "MaxSurvivability"
  | survivableNonatomic => "SurvivableNonatomic"
  | performanceOptimized => "PerformanceOptimized"

/-- The hint of exactly this name. -/
def ofName? (name : String) : Option Hint := all.find? (·.name = name)

/-- A character of a typed name as names have it: in lower case, a hyphen for an underscore. -/
def foldChar (c : Char) : Char := if c = '_' then '-' else c.toLower

/-- The hint a person typed: case and blanks at the ends do not count, and an underscore
stands for a hyphen. -/
def parse? (typed : String) : Option Hint :=
  ofName? (String.ofList ((Text.trim typed.toList).map foldChar))

/-- Every step is on disk before the run goes on. -/
def writesEveryStep : Hint → Bool
  | performanceOptimized => false
  | _ => true

/-- Files are replaced in one step, never rewritten in place. -/
def writesAtomically : Hint → Bool
  | survivableNonatomic => false
  | _ => true

/-- The run may go on after its process was killed.  A paused run always may. -/
def survivesKill (hint : Hint) : Bool := hint.writesEveryStep

/-- How the nodes of the run reach the disk. -/
def storageKind (hint : Hint) : StorageKind :=
  if hint.writesEveryStep then .immediate else .batched

theorem ofName?_name (hint : Hint) : ofName? hint.name = some hint := by
  cases hint <;> decide +kernel

end Hint
end DurableRuns
