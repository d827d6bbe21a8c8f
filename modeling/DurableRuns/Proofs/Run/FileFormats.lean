/-
# DurableRuns.Proofs.Run.FileFormats -- what is lost on the way into a file and back

Nothing: `file_formats_read_back` says that nodes, lists of nodes and records are read back from
both of their printed forms.  The continuation of a run is read back as well, and the other way
round the text of its blob is told by the blob (`continuation_format_exact`): a file that is
loaded holds the one text that writes the blob, and a file with a text that writes none is refused.
-/
import DurableRuns.Proofs.Disk.Places
import DurableRuns.Proofs.Run.Reopening
import DurableRuns.Proofs.Recovery.Decision

namespace DurableRuns

set_option autoImplicit false

/-! ## Nodes and records -/

/-- A value is read back from what is written of it, with blanks or without. -/
structure IsReadBackFrom {α : Type} (write : α → Json) (read : Json → Option α) (value : α) :
    Prop where
  compact : (Json.parse (write value).compact).bind read = some value
  pretty : (Json.parse (write value).pretty).bind read = some value

theorem IsReadBackFrom.of_isOrdinary {α : Type} {write : α → Json} {read : Json → Option α}
    {value : α} (ordinary : (write value).IsOrdinary) (back : read (write value) = some value) :
    IsReadBackFrom write read value := by
  constructor
  case compact => rw [Json.parse_compact ordinary, Option.bind_some, back]
  case pretty => rw [Json.parse_pretty ordinary, Option.bind_some, back]

/-- Nodes, lists of nodes and records that the format can hold are read back from both of their
printed forms. -/
theorem file_formats_read_back {nodes : List Node} {record : Record}
    (storable : ∀ node ∈ nodes, node.Storable) (recordStorable : record.Storable) :
    (∀ node ∈ nodes, IsReadBackFrom Node.toJson (Node.ofJson? NodeStore.room) node) ∧
    IsReadBackFrom (fun nodes => .array (nodes.map Node.toJson))
      (Node.listOfJson? NodeStore.room) nodes ∧
    IsReadBackFrom Record.toJson Record.ofJson? record := by
  refine ⟨fun node inside => ?_, ?_, ?_⟩
  · have fits := storable node inside
    exact .of_isOrdinary (Node.isOrdinary_toJson fits) (Node.ofJson?_toJson fits (by decide))
  · exact .of_isOrdinary (Node.isOrdinary_listToJson storable)
      (Node.listOfJson?_toJson storable (by decide))
  · exact .of_isOrdinary (Record.isOrdinary_toJson recordStorable)
      (Record.ofJson?_toJson recordStorable)

/-- The last moment of the year before the year zero, in a leap second. -/
def Instant.lastBeforeZero : Instant :=
  ⟨⟨-1, 12, 31⟩, 1439, 60, 999999999, by decide, by decide, by decide, by decide⟩

/-- The last number of 64 bits. -/
def lastWord : Nat := UInt64.size - 1

/-- A text with everything that a string has to escape, and with what it may leave. -/
def awkwardText : String := "\x00\x1f\"\\/\x7f\n é 漢 😀"

/-- A node that carries an action of each kind. -/
def ladenNode : Node :=
  { id := lastWord, kind := .stepEnd lastWord, name := awkwardText, parents := [0, lastWord],
    actions := [.timing .lastBeforeZero,
      .arguments (.ofList [(awkwardText, ""), ("", awkwardText)]), .log awkwardText, .label "",
      .blockEnd lastWord, .error awkwardText, .abnormalClosure awkwardText] }

/-- A record at the edge of the format. -/
def ladenRecord : Record :=
  { version := UInt32.size - 1, runId := awkwardText, hint := .maxSurvivability,
    heads := [lastWord, 0], clean := .unknown, status := .running, result := .pending,
    createdAt := .lastBeforeZero, updatedAt := .sample }

theorem ladenNode_storable : ladenNode.Storable := by
  have last : lastWord < UInt64.size := by decide
  constructor
  case id_lt => exact last
  case kind => exact last
  case parents => decide
  case actions =>
    intro action inside
    simp only [ladenNode, List.mem_cons, List.not_mem_nil, or_false] at inside
    rcases inside with rfl | rfl | rfl | rfl | rfl | rfl | rfl
    all_goals first | exact last | trivial

theorem ladenRecord_storable : ladenRecord.Storable := ⟨by decide, by decide⟩

theorem laden_formats_read_back :
    IsReadBackFrom Node.toJson (Node.ofJson? NodeStore.room) ladenNode ∧
    IsReadBackFrom (fun nodes => .array (nodes.map Node.toJson))
      (Node.listOfJson? NodeStore.room) [ladenNode] ∧
    IsReadBackFrom Record.toJson Record.ofJson? ladenRecord := by
  obtain ⟨node, list, record⟩ := file_formats_read_back
    (fun node inside => List.mem_singleton.1 inside ▸ ladenNode_storable) ladenRecord_storable
  exact ⟨node ladenNode List.mem_cons_self, list, record⟩

/-! ## The continuation -/

/-- The text of the blob in the content of a continuation's file, its escapes resolved. -/
def Checkpoint.blobText? (content : Bytes) : Option String := do
  let [_, blob, _] ← (← Json.parse content).allFields? ["heads", "blob", "taken_at"] | none
  blob.text?

/-- The text of the blob in the continuation of a run. -/
def RunFiles.blobTextOn (disk : Disk) (place : Place) : Option String :=
  match disk.at? (checkpointFile place).path with
  | some (.file content) => Checkpoint.blobText? content
  | _ => none

namespace Checkpoint

/-- A continuation is read only from the one text that writes its blob. -/
theorem blobText?_of_read {content : Bytes} {checkpoint : Checkpoint}
    (read : (Json.parse content).bind ofJson? = some checkpoint) :
    blobText? content = some (String.ofList (Base64.encode checkpoint.blob)) := by
  obtain ⟨value, parsed, read⟩ := Option.bind_eq_some_iff.1 read
  unfold ofJson? at read
  obtain ⟨fields, named, read⟩ := Option.bind_eq_some_iff.1 read
  split at read
  next heads blob takenAt =>
    simp only [Option.bind_eq_bind, Option.bind_eq_some_iff, Option.some.injEq] at read
    obtain ⟨_, -, text, written, bytes, decoded, _, -, rfl⟩ := read
    have letters := Base64.decode?_eq_some_iff.1 decoded
    simp [blobText?, parsed, named, written, ← letters]
  next => cases read

/-- A text with a flaw is not read as the blob of a continuation. -/
theorem not_read_of_isFlawed {content : Bytes} {text : String}
    (written : blobText? content = some text) (flawed : Base64.IsFlawed text.toList) :
    (Json.parse content).bind ofJson? = none := by
  rw [Option.eq_none_iff_forall_ne_some]
  intro checkpoint read
  rw [blobText?_of_read read, Option.some.injEq] at written
  subst written
  rw [String.toList_ofList] at flawed
  exact Base64.not_isFlawed_encode checkpoint.blob flawed

end Checkpoint

namespace RunFiles

variable {disk : Disk} {place : Place}

/-- A continuation that is loaded stands in its file. -/
theorem content_of_checkpointOn {checkpoint : Checkpoint}
    (loaded : checkpointOn disk place = .ok (some checkpoint)) :
    ∃ content, disk.at? (checkpointFile place).path = some (.file content) ∧
      (Json.parse content).bind Checkpoint.ofJson? = some checkpoint :=
  Disk.content_of_readJson (checkpointOn_eq_some_iff.1 loaded)

/-- The text of a loaded continuation's blob is the one that writes the blob. -/
theorem blobTextOn_eq {checkpoint : Checkpoint}
    (loaded : checkpointOn disk place = .ok (some checkpoint)) :
    blobTextOn disk place = some (String.ofList (Base64.encode checkpoint.blob)) := by
  obtain ⟨content, stands, read⟩ := content_of_checkpointOn loaded
  rw [blobTextOn, stands]
  exact Checkpoint.blobText?_of_read read

/-- A continuation whose blob has a flaw is refused as malformed. -/
theorem checkpointOn_eq_malformed {text : String} (written : blobTextOn disk place = some text)
    (flawed : Base64.IsFlawed text.toList) :
    checkpointOn disk place = .error (.unreadable .malformed) := by
  unfold blobTextOn at written
  split at written
  next content stands =>
    have refused := Checkpoint.not_read_of_isFlawed written flawed
    simp [checkpointOn, Disk.exists?, Disk.readJson, Disk.read, stands, refused]
  next => cases written

theorem readCheckpoint_eq_ok_iff {machine : Machine} {found : Option Checkpoint} :
    readCheckpoint place machine = .ok found machine ↔
      checkpointOn machine.disk place = .ok found := by
  rw [readCheckpoint, Machine.get_bind]
  cases checkpointOn machine.disk place with
  | ok here => exact ⟨fun same => by cases same; rfl, fun same => by cases same; rfl⟩
  | error fault => exact ⟨nofun, nofun⟩

/-- A continuation that was saved is loaded as it was. -/
theorem readCheckpoint_of_written {checkpoint : Checkpoint} {atomic : Bool}
    {machine saved : Machine} (storable : checkpoint.Storable)
    (writes : writeCheckpoint place checkpoint atomic machine = .ok () saved) :
    readCheckpoint place saved = .ok (some checkpoint) saved := by
  rcases machine.commit_cases (.write (checkpointFile place).path checkpoint.toJson.pretty atomic)
    (.storageWrite (checkpointFile place).shown) with ⟨disk, made, taken⟩ | ⟨fault, refused⟩
  · cases taken.symm.trans writes
    have stands := Disk.at?_write made (checkpointFile place).path
    rw [if_pos rfl] at stands
    have read := Disk.readJson_eq_ok stands (Checkpoint.isOrdinary_toJson storable)
      (Checkpoint.ofJson?_toJson storable)
    exact readCheckpoint_eq_ok_iff.2 (checkpointOn_eq_some_iff.2 read)
  · cases refused.symm.trans writes

/-- A continuation is saved in a directory that stands, on a device that takes the write. -/
theorem writeCheckpoint_succeeds {machine : Machine}
    (willing : ∀ refusal ∈ machine.refusals, refusal = false)
    (reached : machine.disk.IsReached place.path)
    (vacant : machine.disk.at? (checkpointFile place).path ≠ some .directory)
    (checkpoint : Checkpoint) (atomic : Bool) :
    ∃ saved, writeCheckpoint place checkpoint atomic machine = .ok () saved := by
  rw [path_checkpointFile] at vacant
  obtain ⟨written, ok⟩ :=
    Disk.write_succeeds_of_isReached reached vacant checkpoint.toJson.pretty
  rw [← path_checkpointFile] at ok
  have made : (Change.write (checkpointFile place).path checkpoint.toJson.pretty atomic).apply
      machine.disk = .ok written := ok
  exact ⟨_, Machine.commit_eq_ok willing made (.storageWrite (checkpointFile place).shown)⟩

/-- A text without a flaw is the text of a blob, with which a file is loaded. -/
theorem exists_loaded_of_not_isFlawed {text : String} (flawless : ¬ Base64.IsFlawed text.toList) :
    ∃ disk place checkpoint, blobTextOn disk place = some text ∧
      checkpointOn disk place = .ok (some checkpoint) := by
  obtain ⟨blob, read⟩ := Option.ne_none_iff_exists'.1 (mt Base64.decode?_eq_none_iff.1 flawless)
  have written : text = String.ofList (Base64.encode blob) := by
    rw [← Base64.decode?_eq_some_iff.1 read, String.ofList_toList]
  let checkpoint : Checkpoint := { heads := [], blob, takenAt := .sample }
  let disk : Disk := ⟨[(["run"], .directory),
    (["run", "program.json"], .file checkpoint.toJson.pretty)]⟩
  have storable : checkpoint.Storable := fun head none => nomatch none
  have loaded : checkpointOn disk .sample = .ok (some checkpoint) :=
    checkpointOn_eq_some_iff.2 (Disk.readJson_eq_ok rfl (Checkpoint.isOrdinary_toJson storable)
      (Checkpoint.ofJson?_toJson storable))
  exact ⟨disk, .sample, checkpoint, written ▸ blobTextOn_eq loaded, loaded⟩

end RunFiles

/-- A continuation that was saved is loaded as it was, and it is saved where nothing hinders
this; what is loaded has the one text that writes its blob; so two files with the same blob have
the same text of it, and exactly the texts with a flaw are refused. -/
theorem continuation_format_exact :
    (∀ place checkpoint atomic machine, checkpoint.Storable →
      (∀ saved, RunFiles.writeCheckpoint place checkpoint atomic machine = .ok () saved →
        RunFiles.readCheckpoint place saved = .ok (some checkpoint) saved) ∧
      ((∀ refusal ∈ machine.refusals, refusal = false) → machine.disk.IsReached place.path →
        machine.disk.at? (RunFiles.checkpointFile place).path ≠ some .directory →
        ∃ saved, RunFiles.writeCheckpoint place checkpoint atomic machine = .ok () saved)) ∧
    (∀ disk place checkpoint, RunFiles.checkpointOn disk place = .ok (some checkpoint) →
      RunFiles.blobTextOn disk place =
        some (String.ofList (Base64.encode checkpoint.blob))) ∧
    (∀ disk disk' place place' checkpoint checkpoint',
      RunFiles.checkpointOn disk place = .ok (some checkpoint) →
      RunFiles.checkpointOn disk' place' = .ok (some checkpoint') →
      (checkpoint.blob = checkpoint'.blob ↔
        RunFiles.blobTextOn disk place = RunFiles.blobTextOn disk' place')) ∧
    ∀ text : String, Base64.IsFlawed text.toList ↔
      ∀ disk place, RunFiles.blobTextOn disk place = some text →
        RunFiles.checkpointOn disk place = .error (.unreadable .malformed) := by
  refine ⟨fun place checkpoint atomic machine storable => ⟨fun saved writes => ?_, ?_⟩, ?_, ?_, ?_⟩
  · exact RunFiles.readCheckpoint_of_written storable writes
  · intro willing reached vacant
    exact RunFiles.writeCheckpoint_succeeds willing reached vacant checkpoint atomic
  · exact fun disk place checkpoint => RunFiles.blobTextOn_eq
  · intro disk disk' place place' checkpoint checkpoint' loaded loaded'
    rw [RunFiles.blobTextOn_eq loaded, RunFiles.blobTextOn_eq loaded', Option.some.injEq,
      String.ofList_inj]
    refine ⟨fun same => by rw [same], fun same => ?_⟩
    have read := Base64.decode?_encode checkpoint.blob
    rw [same, Base64.decode?_encode] at read
    exact (Option.some.inj read).symm
  · refine fun text => ⟨fun flawed disk place found =>
      RunFiles.checkpointOn_eq_malformed found flawed, fun refused => ?_⟩
    by_contra flawless
    obtain ⟨disk, place, checkpoint, found, loaded⟩ :=
      RunFiles.exists_loaded_of_not_isFlawed flawless
    cases (refused disk place found).symm.trans loaded

/-- A continuation with a blob of four bytes, and heads at both ends of their range. -/
def Checkpoint.four : Checkpoint :=
  { heads := [0, lastWord], blob := [0, 255, 16, 131], takenAt := .lastBeforeZero }

theorem Checkpoint.four_storable : four.Storable := by
  have heads : ∀ head ∈ [0, lastWord], head < UInt64.size := by decide
  exact heads

/-- A disk with a continuation whose blob is written as a text. -/
def Disk.withBlob (text : String) : Disk :=
  ⟨[(["run"], .directory), (["run", "program.json"], .file (Json.pretty (.record
    [("heads", .array []), ("blob", .text text), ("taken_at", Action.timeJson .sample)])))]⟩

theorem Disk.isReached_withBlob (text : String) :
    (withBlob text).IsReached Place.sample.path := by
  intro above up
  have along : above <+: ["run"] := up
  rcases List.prefix_cons_iff.1 along with rfl | ⟨rest, rfl, short⟩
  · rfl
  · obtain rfl := List.prefix_nil.1 short
    rfl

theorem RunFiles.blobTextOn_withBlob (text : String) :
    blobTextOn (.withBlob text) .sample = some text := by
  have ordinary : (Json.record [("heads", .array []), ("blob", .text text),
      ("taken_at", Action.timeJson .sample)]).IsOrdinary := by
    refine Json.isOrdinary_record fun member inside => ?_
    simp only [List.mem_cons, List.not_mem_nil, or_false] at inside
    rcases inside with rfl | rfl | rfl
    · exact Json.isOrdinary_array (by simp)
    · exact Json.isOrdinary_text text
    · exact isOrdinary_timeJson .sample
  have stands : (Disk.withBlob text).at? (checkpointFile .sample).path = some (.file (Json.pretty
      (.record [("heads", .array []), ("blob", .text text),
        ("taken_at", Action.timeJson .sample)]))) := by
    rw [path_checkpointFile]
    rfl
  have fields : (Json.record [("heads", .array []), ("blob", .text text),
      ("taken_at", Action.timeJson .sample)]).allFields? ["heads", "blob", "taken_at"] =
      some [.array [], .text text, Action.timeJson .sample] := by
    rw [Json.allFields?_record]
    rfl
  simp only [blobTextOn, stands, Checkpoint.blobText?, Json.parse_pretty ordinary, fields,
    Option.bind_eq_bind, Option.bind_some, Json.text?_text]

/-- Four bytes are saved and loaded; their text is refused when its filling, its last bits or
one of its letters is wrong. -/
theorem four_bytes_format :
    (∃ saved, RunFiles.writeCheckpoint .sample .four true
        { Machine.blank with disk := .withBlob "" } = .ok () saved ∧
      RunFiles.readCheckpoint .sample saved = .ok (some .four) saved ∧
      RunFiles.blobTextOn saved.disk .sample = some "AP8Qgw==") ∧
    ∀ text ∈ ["AP8Qgw", "AP8Qgx==", "AP8Q-w==", "AP8=gw=="],
      RunFiles.checkpointOn (.withBlob text) .sample = .error (.unreadable .malformed) := by
  obtain ⟨saves, writes, -, refuses⟩ := continuation_format_exact
  obtain ⟨loads, succeeds⟩ := saves .sample .four true
    { Machine.blank with disk := .withBlob "" } Checkpoint.four_storable
  obtain ⟨saved, taken⟩ := succeeds (Machine.willing_blank _) (Disk.isReached_withBlob "")
    (by rw [RunFiles.path_checkpointFile]; decide)
  have loaded := RunFiles.readCheckpoint_eq_ok_iff.1 (loads saved taken)
  refine ⟨⟨saved, taken, loads saved taken, ?_⟩, ?_⟩
  · rw [writes _ _ _ loaded]
    decide +kernel
  · intro text inside
    refine (refuses text).1 ?_ _ _ (RunFiles.blobTextOn_withBlob text)
    simp only [List.mem_cons, List.not_mem_nil, or_false] at inside
    rcases inside with rfl | rfl | rfl | rfl
    · exact .unfinished (by decide)
    · exact .unusedBits 'x' 49 (by decide) (by decide) (by decide)
    · exact .foreign '-' (by decide) (by decide)
    · exact .foreign '=' (by decide) (by decide)

end DurableRuns
