/-
# DurableRuns.Run.Checkpoint -- the continuation of a run's program

A checkpoint holds what the program needs to go on, as bytes that only the program reads,
together with the heads the run had when it was taken.  It is good for a resume only at
exactly these heads.
-/
import DurableRuns.Flow.Node
import DurableRuns.Text.Base64

namespace DurableRuns

set_option autoImplicit false

/-- The continuation of a run's program at given heads. -/
structure Checkpoint where
  heads : List Nat
  blob : Bytes
  takenAt : Instant
deriving DecidableEq, Repr

namespace Checkpoint

/-- The checkpoint was taken at exactly these heads. -/
def isFor (checkpoint : Checkpoint) (heads : List Nat) : Bool :=
  checkpoint.heads = heads

/-- The checkpoint as a JSON record. -/
def toJson (checkpoint : Checkpoint) : Json :=
  .record [("heads", .array (checkpoint.heads.map .nat)),
    ("blob", .text (String.ofList (Base64.encode checkpoint.blob))),
    ("taken_at", Action.timeJson checkpoint.takenAt)]

/-- The checkpoint that a JSON record describes. -/
def ofJson? (value : Json) : Option Checkpoint := do
  let [heads, blob, takenAt] ← value.allFields? ["heads", "blob", "taken_at"] | none
  some {
    heads := ← heads.list? Json.word?
    blob := ← Base64.decode? (← blob.text?).toList
    takenAt := ← Action.time? takenAt }

end Checkpoint
end DurableRuns
