/-
# DurableRuns.Proofs.Disk.Places -- the files of a run: their names and how they are read

A name without a slash leads one step down from a place (`Place.path_join`).  The names under
which the nodes of a run are kept are such names, one for each number (`fileName_inj`), and
none of them is taken for anything but the file of a node.
-/
import DurableRuns.Run.Files
import DurableRuns.Storage.NodeStore

namespace DurableRuns

set_option autoImplicit false

namespace Machine

/-- A step that looks at the machine first goes on with it. -/
theorem get_bind {α : Type} (next : Machine → MachineM α) (machine : Machine) :
    (get >>= next) machine = next machine machine := rfl

theorem bind_of_ok {ε σ α β : Type} {step : EStateM ε σ β} {next : β → EStateM ε σ α} {value : β}
    {before after : σ} (done : step before = .ok value after) :
    (step >>= next) before = next value after := by
  simp only [bind, EStateM.bind, done]

theorem readJson_eq {α : Type} (place : Place) (reader : Json → Option α) (machine : Machine) :
    readJson place reader machine =
      match machine.disk.readJson place.path reader with
      | .ok value => .ok value machine
      | .error fault => .error fault.toError machine := by
  rw [readJson, get_bind]
  cases machine.disk.readJson place.path reader with
  | ok value => rfl
  | error fault => rfl

end Machine

namespace Place

/-- A name that leads one step down. -/
structure IsStep (name : String) : Prop where
  noSlash : '/' ∉ name.toList
  ne_empty : name ≠ ""
  ne_here : name ≠ "."
  ne_up : name ≠ ".."

instance (name : String) : Decidable (IsStep name) :=
  decidable_of_iff ('/' ∉ name.toList ∧ name ≠ "" ∧ name ≠ "." ∧ name ≠ "..")
    ⟨fun parts => ⟨parts.1, parts.2.1, parts.2.2.1, parts.2.2.2⟩,
      fun step => ⟨step.noSlash, step.ne_empty, step.ne_here, step.ne_up⟩⟩

/-- A plain name leads one step down from a place. -/
theorem path_join (place : Place) {name : String} (step : IsStep name) :
    (place.join name).path = place.path ++ [name] := by
  have single : namesIn name = [name] := by
    rw [namesIn, List.splitOn_eq_singleton step.noSlash]
    simp
  show resolve place.path (namesIn name) = _
  rw [single, resolve]
  simp [step.ne_empty, step.ne_here, step.ne_up, resolve]

end Place

namespace NodeStore

/-- The name of the file of a node. -/
def fileName (id : Nat) : String := toString id ++ ".json"

theorem fileName_inj {a b : Nat} : fileName a = fileName b ↔ a = b := by
  constructor
  · intro same
    have numerals : Nat.toDigits 10 a = Nat.toDigits 10 b := by
      have lists := congrArg String.toList same
      simp only [fileName, String.toList_append, List.append_cancel_right_eq,
        Nat.toString_eq_repr, Nat.toList_repr] at lists
      exact lists
    have values := congrArg (fun found => Nat.ofDigitChars 10 found 0) numerals
    simpa using values
  · rintro rfl
    rfl

theorem length_fileName (id : Nat) : 5 < (fileName id).length := by
  have numeral : 0 < (toString id).length := by
    rw [Nat.toString_eq_repr]
    exact Nat.length_repr_pos
  rw [fileName, String.length_append]
  have suffix : ".json".length = 5 := by decide
  omega

theorem fileName_ne {id : Nat} {name : String} (short : name.length ≤ 5) : fileName id ≠ name := by
  rintro rfl
  have long := length_fileName id
  omega

/-- The name of the file of a node leads one step down. -/
theorem isStep_fileName (id : Nat) : Place.IsStep (fileName id) := by
  refine ⟨?_, fileName_ne (by decide), fileName_ne (by decide), fileName_ne (by decide)⟩
  intro inside
  rw [fileName, String.toList_append, List.mem_append] at inside
  rcases inside with digit | suffix
  · rw [Nat.toString_eq_repr, Nat.toList_repr] at digit
    have isDigit := Nat.isDigit_of_mem_toDigits (by decide) (by decide) digit
    exact absurd isDigit (by decide)
  · exact absurd suffix (by decide)

theorem isNodeFileName_fileName (id : Nat) : isNodeFileName (fileName id) = true := by
  have other : fileName id ≠ ".json" := fileName_ne (by decide)
  have suffix : (fileName id).endsWith ".json" = true := by
    rw [← String.endsWith_toSlice, String.Slice.endsWith_string_iff]
    simp [fileName]
  rw [isNodeFileName, suffix]
  simp [other]

theorem path_nodeFile (directory : Place) (id : Nat) :
    (nodeFile directory id).path = directory.path ++ [fileName id] :=
  directory.path_join (isStep_fileName id)

/-- The directory of the nodes of a run. -/
theorem path_nodeDirectory (run : Place) :
    (run.join directoryName).path = run.path ++ [directoryName] :=
  run.path_join ⟨by decide, by decide, by decide, by decide⟩

/-- The file of the nodes of a batched run. -/
theorem path_batchFile (run : Place) :
    (run.join batchFileName).path = run.path ++ [batchFileName] :=
  run.path_join ⟨by decide, by decide, by decide, by decide⟩

end NodeStore

namespace RunFiles

theorem path_recordFile (run : Place) :
    (recordFile run).path = run.path ++ ["execution.json"] :=
  run.path_join ⟨by decide, by decide, by decide, by decide⟩

theorem path_checkpointFile (run : Place) :
    (checkpointFile run).path = run.path ++ ["program.json"] :=
  run.path_join ⟨by decide, by decide, by decide, by decide⟩

end RunFiles
end DurableRuns
