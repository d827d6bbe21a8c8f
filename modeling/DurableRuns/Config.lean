/-
# DurableRuns.Config -- settings for all runs

Settings come from a file and from the environment, which wins.  They name the hint of runs
that ask for none and the period after which batched runs are flushed in the background.
-/
import DurableRuns.Disk.Machine
import DurableRuns.Text.Blank

namespace DurableRuns

set_option autoImplicit false

/-- Settings for all runs. -/
structure Config where
  /-- The hint of a run that asks for none. -/
  defaultHint : Hint
  /-- The period of the background flush of batched runs, in milliseconds. -/
  flushInterval : Option Nat
deriving DecidableEq, Repr

namespace Config

/-- The settings where nothing is set. -/
def default : Config := ⟨.maxSurvivability, none⟩

/-- The environment variable that sets the default hint. -/
def hintVariable : String := "FLOW_DURABILITY_HINT"

/-- The environment variable that sets the period of the background flush. -/
def intervalVariable : String := "FLOW_BULK_FLUSH_INTERVAL_MS"

/-- The settings as a JSON record. -/
def toJson (config : Config) : Json :=
  .record [("default_hint", .text config.defaultHint.name),
    ("bulk_flush_interval_ms", match config.flushInterval with
      | some interval => .nat interval
      | none => .null)]

/-- The settings that a JSON record describes; what it leaves out keeps its default. -/
def ofJson? (value : Json) : Option Config := do
  let [hint, interval] ← value.fields? ["default_hint", "bulk_flush_interval_ms"] | none
  some {
    defaultHint := ←
      match hint with
      | none => some default.defaultHint
      | some hint => hint.choice?.bind Hint.ofName?
    flushInterval := ←
      match interval with
      | none => some default.flushInterval
      | some .null => some none
      | some interval => interval.word?.map some }

/-- The settings in a file. -/
def read (disk : Disk) (file : Place) : Except Error Config :=
  match disk.readJson file.path ofJson? with
  | .ok config => .ok config
  | .error fault => .error (.config (.unreadable file.shown fault))

/-! ## The environment -/

/-- Decimal digits of a number below a bound, read from the left, after the number so far. -/
def readDigits (bound : Nat) : Nat → List Char → Except String Nat
  | n, [] => .ok n
  | n, c :: rest =>
      if !c.isDigit then .error "invalid digit found in string"
      else
        let n := 10 * n + (c.toNat - 48)
        if n < bound then readDigits bound n rest
        else .error "number too large to fit in target type"

/-- The natural number below a bound that a person typed, with or without a plus sign, or the
reason why there is none. -/
def readNat (bound : Nat) (cs : List Char) : Except String Nat :=
  match cs with
  | [] => .error "cannot parse integer from empty string"
  | ['+'] => .error "invalid digit found in string"
  | '+' :: rest => readDigits bound 0 rest
  | cs => readDigits bound 0 cs

/-- The settings with what the environment sets.  An interval of zero means none. -/
def withEnvironment (config : Config) (lookup : String → Option String) :
    Except Error Config := do
  let hint ←
    match lookup hintVariable with
    | none => .ok config.defaultHint
    | some typed =>
        match Hint.parse? typed with
        | some hint => .ok hint
        | none => .error (.config (.unknownHint typed))
  let interval ←
    match lookup intervalVariable with
    | none => .ok config.flushInterval
    | some typed =>
        match readNat UInt64.size (Text.trim typed.toList) with
        | .ok interval => .ok (if interval = 0 then none else some interval)
        | .error reason => .error (.config (.badInterval typed reason))
  return ⟨hint, interval⟩

/-- The hint of a run: what it asks for, else the default. -/
def hintFor (config : Config) (asked : Option Hint) : Hint := asked.getD config.defaultHint

end Config
end DurableRuns
