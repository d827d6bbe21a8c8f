/-
# DurableRuns.Proofs.Run.Written -- a written record and a written checkpoint are read back

As for nodes, what is written must be *storable*: its numbers fit into the file format.  Main
statements: `Record.ofJson?_toJson` and `Checkpoint.ofJson?_toJson`, nothing is lost on the way
to the disk and back.
-/
import DurableRuns.Proofs.Flow.Written
import DurableRuns.Proofs.Text.Base64
import DurableRuns.Run.Checkpoint
import DurableRuns.Run.Record

namespace DurableRuns

set_option autoImplicit false

open Json

theorem CleanFlag.ofName?_name (flag : CleanFlag) : ofName? flag.name = some flag := by
  cases flag <;> decide +kernel

theorem RecordStatus.ofName?_name (status : RecordStatus) : ofName? status.name = some status := by
  cases status <;> decide +kernel

theorem RunResult.ofName?_name (result : RunResult) : ofName? result.name = some result := by
  cases result <;> decide +kernel

namespace Record

/-- The version has 32 bits and the heads have 64. -/
structure Storable (record : Record) : Prop where
  version_lt : record.version < UInt32.size
  heads : ∀ head ∈ record.heads, head < UInt64.size

theorem isOrdinary_toJson {record : Record} (storable : record.Storable) :
    IsOrdinary record.toJson := by
  have version : record.version < UInt64.size := Nat.lt_trans storable.version_lt (by decide)
  refine isOrdinary_record fun member inside => ?_
  simp only [List.mem_cons, List.not_mem_nil, or_false] at inside
  rcases inside with rfl | rfl | rfl | rfl | rfl | rfl | rfl | rfl | rfl
  · exact isOrdinary_nat version
  · exact isOrdinary_text record.runId
  · exact isOrdinary_text record.hint.name
  · exact isOrdinary_words storable.heads
  · exact isOrdinary_text record.clean.name
  · exact isOrdinary_text record.status.name
  · exact isOrdinary_text record.result.name
  · exact isOrdinary_timeJson record.createdAt
  · exact isOrdinary_timeJson record.updatedAt

theorem allFields?_toJson (record : Record) : record.toJson.allFields? fieldNames =
    some [nat record.version, text record.runId, text record.hint.name,
      .array (record.heads.map nat), text record.clean.name, text record.status.name,
      text record.result.name, Action.timeJson record.createdAt,
      Action.timeJson record.updatedAt] := by
  rw [toJson, allFields?_record]
  rfl

/-- A storable record is read back from its JSON record. -/
theorem ofJson?_toJson {record : Record} (storable : record.Storable) :
    ofJson? record.toJson = some record := by
  unfold ofJson?
  rw [allFields?_toJson]
  simp only [Option.bind_eq_bind, Option.bind_some, natBelow?_nat storable.version_lt, text?_text,
    choice?_text, Hint.ofName?_name, list?_words storable.heads, CleanFlag.ofName?_name,
    RecordStatus.ofName?_name, RunResult.ofName?_name, time?_timeJson]

/-- A version that is read has 32 bits. -/
theorem version_lt_of_ofJson? {value : Json} {record : Record}
    (read : ofJson? value = some record) : record.version < UInt32.size := by
  unfold ofJson? at read
  obtain ⟨fields, named, read⟩ := Option.bind_eq_some_iff.1 read
  split at read
  next =>
    simp only [Option.bind_eq_bind, Option.bind_eq_some_iff, Option.some.injEq] at read
    obtain ⟨version, numeral, _, -, _, -, _, -, _, -, _, -, _, -, _, -, _, -, _, -, _, -, _, -, _, -,
      rfl⟩ := read
    exact lt_of_natBelow? numeral
  next => cases read

/-- The text of a record is parsed back, even if its numbers are too large for the record to be
read. -/
theorem isReadBack_toJson (record : Record) : IsReadBack record.toJson := by
  refine isReadBack_record fun member inside => ?_
  simp only [List.mem_cons, List.not_mem_nil, or_false] at inside
  rcases inside with rfl | rfl | rfl | rfl | rfl | rfl | rfl | rfl | rfl
  · exact isReadBack_nat record.version
  · exact (isOrdinary_text record.runId).isReadBack
  · exact (isOrdinary_text record.hint.name).isReadBack
  · exact isReadBack_array fun item inside => by
      obtain ⟨head, -, rfl⟩ := List.mem_map.1 inside
      exact isReadBack_nat head
  · exact (isOrdinary_text record.clean.name).isReadBack
  · exact (isOrdinary_text record.status.name).isReadBack
  · exact (isOrdinary_text record.result.name).isReadBack
  · exact (isOrdinary_timeJson record.createdAt).isReadBack
  · exact (isOrdinary_timeJson record.updatedAt).isReadBack

/-- A record that is read tells what the one told that was written. -/
theorem told_of_ofJson? {record found : Record} (read : ofJson? record.toJson = some found) :
    found.clean = record.clean ∧ found.status = record.status ∧ found.result = record.result := by
  unfold ofJson? at read
  rw [allFields?_toJson] at read
  simp only [Option.bind_eq_bind, Option.bind_some, text?_text, choice?_text, Hint.ofName?_name,
    CleanFlag.ofName?_name, RecordStatus.ofName?_name, RunResult.ofName?_name, time?_timeJson,
    Option.bind_eq_some_iff, Option.some.injEq] at read
  obtain ⟨version, -, heads, -, rfl⟩ := read
  exact ⟨rfl, rfl, rfl⟩

end Record

namespace Checkpoint

/-- The heads have 64 bits. -/
def Storable (checkpoint : Checkpoint) : Prop := ∀ head ∈ checkpoint.heads, head < UInt64.size

theorem isOrdinary_toJson {checkpoint : Checkpoint} (storable : checkpoint.Storable) :
    IsOrdinary checkpoint.toJson := by
  refine isOrdinary_record fun member inside => ?_
  simp only [List.mem_cons, List.not_mem_nil, or_false] at inside
  rcases inside with rfl | rfl | rfl
  · exact isOrdinary_words storable
  · exact isOrdinary_text _
  · exact isOrdinary_timeJson checkpoint.takenAt

/-- The text of a checkpoint is parsed back, even if its heads are too large for it to be read. -/
theorem isReadBack_toJson (checkpoint : Checkpoint) : IsReadBack checkpoint.toJson := by
  refine isReadBack_record fun member inside => ?_
  simp only [List.mem_cons, List.not_mem_nil, or_false] at inside
  rcases inside with rfl | rfl | rfl
  · refine isReadBack_array fun item inside => ?_
    obtain ⟨head, -, rfl⟩ := List.mem_map.1 inside
    exact isReadBack_nat head
  · exact (isOrdinary_text _).isReadBack
  · exact (isOrdinary_timeJson checkpoint.takenAt).isReadBack

/-- A storable checkpoint is read back from its JSON record. -/
theorem ofJson?_toJson {checkpoint : Checkpoint} (storable : checkpoint.Storable) :
    ofJson? checkpoint.toJson = some checkpoint := by
  have fields : checkpoint.toJson.allFields? ["heads", "blob", "taken_at"] =
      some [.array (checkpoint.heads.map nat),
        text (String.ofList (Base64.encode checkpoint.blob)),
        Action.timeJson checkpoint.takenAt] := by
    rw [toJson, allFields?_record]
    rfl
  unfold ofJson?
  rw [fields]
  simp only [Option.bind_eq_bind, Option.bind_some, list?_words storable, text?_text,
    String.toList_ofList, Base64.decode?_encode, time?_timeJson]

end Checkpoint
end DurableRuns
