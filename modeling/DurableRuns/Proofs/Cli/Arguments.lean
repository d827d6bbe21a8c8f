/-
# DurableRuns.Proofs.Cli.Arguments -- what a typed command line comes to

The words that ask for a demonstration or for a recovery are read back as what was asked for
(`parse_demoWords`, `parse_recoverWords`): a count as its numeral, a hint as its name, a root
directory as a word that cannot be taken for an option.  The path that is typed leads from a plain
working directory to a plain path (`Place.plain_ofText`).
-/
import DurableRuns.Cli.Command
import DurableRuns.Proofs.Disk.Places

namespace DurableRuns

set_option autoImplicit false

/-! ## Paths -/

namespace Place

/-- The names between the slashes hold no slash. -/
theorem noSlash_of_mem_splitOn {cs part : List Char} (inside : part ∈ cs.splitOn '/') :
    '/' ∉ part := by
  induction cs generalizing part with
  | nil =>
      rw [List.splitOn_nil, List.mem_singleton] at inside
      rw [inside]
      exact List.not_mem_nil
  | cons c rest ih =>
      rw [List.splitOn_cons_eq_if_modifyHead] at inside
      split at inside
      next slash =>
        rcases List.mem_cons.1 inside with rfl | later
        · exact List.not_mem_nil
        · exact ih later
      next other =>
        cases parts : rest.splitOn '/' with
        | nil => exact absurd parts (List.splitOn_ne_nil _ _)
        | cons first others =>
            rw [parts, List.modifyHead_cons] at inside
            rw [parts] at ih
            rcases List.mem_cons.1 inside with rfl | later
            · intro found
              rcases List.mem_cons.1 found with rfl | found
              · exact other (beq_self_eq_true _)
              · exact ih List.mem_cons_self found
            · exact ih (List.mem_cons_of_mem _ later)

/-- Names without slashes lead from a plain path to a plain path. -/
theorem plain_resolve {base : Path} {names : List String}
    (plain : ∀ name ∈ base, IsStep name) (noSlash : ∀ name ∈ names, '/' ∉ name.toList) :
    ∀ name ∈ resolve base names, IsStep name := by
  induction names generalizing base with
  | nil => exact plain
  | cons name rest ih =>
      have others : ∀ name ∈ rest, '/' ∉ name.toList := fun name inside =>
        noSlash name (List.mem_cons_of_mem _ inside)
      rw [resolve]
      split
      next here => exact ih plain others
      next further =>
        split
        next up => exact ih (fun name inside => plain name (List.dropLast_subset _ inside)) others
        next down =>
          simp only [Bool.or_eq_true, decide_eq_true_eq, not_or] at further
          refine ih (fun other inside => ?_) others
          rcases List.mem_append.1 inside with before | this
          · exact plain other before
          · obtain rfl := List.mem_singleton.1 this
            exact ⟨noSlash other List.mem_cons_self, further.1, further.2, down⟩

/-- The path that is typed in a plain working directory is plain. -/
theorem plain_ofText {workingDirectory : Path} (plain : ∀ name ∈ workingDirectory, IsStep name)
    (text : String) : ∀ name ∈ (ofText workingDirectory text).path, IsStep name := by
  refine plain_resolve ?_ fun name inside => ?_
  · split
    · nofun
    · exact plain
  · obtain ⟨part, found, rfl⟩ := List.mem_map.1 inside
    rw [String.toList_ofList]
    exact noSlash_of_mem_splitOn found

end Place

/-! ## Counts and hints -/

namespace Config

/-- Digits whose number is below the bound are read. -/
theorem readDigits_eq_ok {bound : Nat} {cs : List Char} (digits : ∀ c ∈ cs, c.isDigit = true)
    {start : Nat} (below : Nat.ofDigitChars 10 cs start < bound) :
    readDigits bound start cs = .ok (Nat.ofDigitChars 10 cs start) := by
  induction cs generalizing start with
  | nil => rfl
  | cons c rest ih =>
      rw [Nat.ofDigitChars_cons] at below ⊢
      have smaller : 10 * start + (c.toNat - 48) < bound := by
        refine Nat.lt_of_le_of_lt ?_ below
        rw [Nat.ofDigitChars_eq_ofDigitChars_zero]
        have factor : 0 < 10 ^ rest.length := Nat.pow_pos (by decide)
        exact Nat.le_trans (Nat.le_mul_of_pos_left _ factor) (Nat.le_add_right ..)
      rw [readDigits, digits c List.mem_cons_self, Bool.not_true, if_neg Bool.false_ne_true]
      show (if _ < bound then _ else _) = _
      rw [if_pos smaller]
      exact ih (fun c inside => digits c (List.mem_cons_of_mem _ inside)) below

end Config

namespace Cli

theorem toList_toString (n : Nat) : (toString n).toList = Nat.toDigits 10 n := by
  rw [Nat.toString_eq_repr, Nat.toList_repr]

theorem isDigit_of_mem_toString {n : Nat} {c : Char} (inside : c ∈ (toString n).toList) :
    c.isDigit = true := by
  rw [toList_toString] at inside
  exact Nat.isDigit_of_mem_toDigits (by decide) (by decide) inside

/-- A numeral begins with a digit. -/
theorem head_toString (n : Nat) :
    ∃ c rest, (toString n).toList = c :: rest ∧ c.isDigit = true := by
  cases found : (toString n).toList with
  | nil =>
      rw [toList_toString] at found
      exact absurd found Nat.toDigits_ne_nil
  | cons c rest =>
      exact ⟨c, rest, rfl, isDigit_of_mem_toString (found ▸ List.mem_cons_self)⟩

/-- A count that fits into a word is read back. -/
theorem count?_toString {n : Nat} (word : n < UInt64.size) : count? (toString n) = some n := by
  have value : Nat.ofDigitChars 10 (toString n).toList 0 = n := by
    rw [toList_toString, Nat.ofDigitChars_ten_toDigits]
  have reads : Config.readDigits UInt64.size 0 (toString n).toList = .ok n := by
    rw [Config.readDigits_eq_ok (fun c => isDigit_of_mem_toString) (value.symm ▸ word), value]
  obtain ⟨c, rest, cs, digit⟩ := head_toString n
  rw [cs] at reads
  have noSign : c ≠ '+' := by
    rintro rfl
    cases digit
  rw [count?, cs, Config.readNat, reads]
  · rfl
  · nofun
  · rintro ⟨⟩
    exact noSign rfl
  · rintro other ⟨⟩
    exact noSign rfl

theorem looksLikeOption_iff {word : String} :
    looksLikeOption word = true ↔ ['-'] <+: word.toList ∧ word ≠ "-" := by
  simp [looksLikeOption]

/-- A numeral cannot be taken for an option. -/
theorem looksLikeOption_toString (n : Nat) : looksLikeOption (toString n) = false := by
  obtain ⟨c, rest, cs, digit⟩ := head_toString n
  refine Bool.eq_false_iff.2 fun looks => ?_
  have begins := (looksLikeOption_iff.1 looks).1
  rw [cs] at begins
  obtain rfl := (List.cons_prefix_cons.1 begins).1
  cases digit

/-- Nor can the name of a hint. -/
theorem looksLikeOption_name (hint : Hint) : looksLikeOption hint.name = false := by
  refine Bool.eq_false_iff.2 fun looks => ?_
  have begins := (looksLikeOption_iff.1 looks).1
  revert begins
  cases hint <;> decide

theorem parse?_name (hint : Hint) : Hint.parse? hint.name = some hint := by
  cases hint <;> decide

/-! ## Words -/

/-- A word that can be typed for a path. -/
structure IsOperand (word : String) : Prop where
  ne_empty : word ≠ ""
  plain : looksLikeOption word = false

/-- The name of an option or of a flag, with no value in the same word. -/
structure IsOptionName (name : String) : Prop where
  dash : ['-'] <+: name.toList
  ne_dash : name ≠ "-"
  bare : splitOption name = (name, none)
  ne_end : name ≠ "--"
  ne_help : ¬ (name = "--help" ∨ name = "-h")

instance (name : String) : Decidable (IsOptionName name) :=
  decidable_of_iff (['-'] <+: name.toList ∧ name ≠ "-" ∧ splitOption name = (name, none) ∧
      name ≠ "--" ∧ ¬ (name = "--help" ∨ name = "-h"))
    ⟨fun parts => ⟨parts.1, parts.2.1, parts.2.2.1, parts.2.2.2.1, parts.2.2.2.2⟩,
      fun option => ⟨option.dash, option.ne_dash, option.bare, option.ne_end, option.ne_help⟩⟩

theorem IsOptionName.looks {name : String} (option : IsOptionName name) :
    looksLikeOption name = true :=
  looksLikeOption_iff.2 ⟨option.dash, option.ne_dash⟩

section Scanning

variable {vocabulary : Vocabulary} {limit : Nat} {rest : List String} {words : Words}

/-- A word that no option looks like stands alone. -/
theorem scan_operand {word : String} (plain : looksLikeOption word = false)
    (room : words.operands.length < limit) :
    scan vocabulary limit (word :: rest) words =
      scan vocabulary limit rest { words with operands := words.operands ++ [word] } := by
  have differs {name : String} (looks : ['-'] <+: name.toList ∧ name ≠ "-") : word ≠ name := by
    rintro rfl
    exact absurd (looksLikeOption_iff.2 looks) (plain ▸ Bool.false_ne_true)
  have ne_end : word ≠ "--" := differs (by decide)
  have ne_help : ¬ (word = "--help" ∨ word = "-h") :=
    not_or.2 ⟨differs (by decide), differs (by decide)⟩
  rw [scan, if_neg ne_end, if_neg (by simpa using ne_help), plain, if_neg Bool.false_ne_true,
    if_pos room]

/-- The words of an option, if it is given. -/
def optionWords (name : String) (value : Option String) : List String :=
  match value with
  | none => []
  | some value => [name, value]

/-- An option takes the next word for its value. -/
theorem scan_optionWords {name : String} {value : Option String} (option : IsOptionName name)
    (known : name ∈ vocabulary.options) (other : name ∉ vocabulary.flags)
    (first : words.options.lookup name = none)
    (plain : ∀ typed ∈ value, looksLikeOption typed = false) :
    scan vocabulary limit (optionWords name value ++ rest) words =
      scan vocabulary limit rest
        { words with
          options := (value.map fun typed => (name, typed)).toList ++ words.options } := by
  cases value with
  | none => rfl
  | some typed =>
      rw [optionWords, List.cons_append, scan, if_neg option.ne_end,
        if_neg (by simpa using option.ne_help), option.looks, if_pos rfl, option.bare]
      simp [known, other, first, plain typed rfl]

/-- A flag stands for itself. -/
theorem scan_flag {name : String} (option : IsOptionName name) (known : name ∈ vocabulary.flags)
    (first : name ∉ words.flags) :
    scan vocabulary limit (name :: rest) words =
      scan vocabulary limit rest { words with flags := name :: words.flags } := by
  rw [scan, if_neg option.ne_end, if_neg (by simpa using option.ne_help), option.looks,
    if_pos rfl, option.bare]
  simp [known, first]

end Scanning

/-! ## Command lines -/

/-- The words that ask for a demonstration. -/
def demoWords (root : String) (asked : Option Hint) (steps : Nat) (stop : Option Nat) :
    List String :=
  "demo" :: root :: (optionWords "--hint" (asked.map Hint.name) ++
    (optionWords "--steps" (some (toString steps)) ++
      optionWords "--stop-after" (stop.map toString)))

/-- The words that ask for a recovery. -/
def recoverWords (root : String) (dirty : Bool) : List String :=
  "recover" :: root :: if dirty then ["--dirty"] else []

/-- A command whose words are understood is asked for, with no file of settings. -/
theorem parse_eq_run {command : String} {rest : List String} {vocabulary : Vocabulary}
    {words : Words} {request : Request} (bare : splitOption command = (command, none))
    (other : command ≠ "--help" ∧ command ≠ "-h" ∧ command ≠ configOption)
    (takes : vocabulary? command = some vocabulary)
    (scanned : scan vocabulary 1 rest {} = .words words)
    (noFile : words.options.lookup configOption = none)
    (asks : request? command words = some request) :
    parse (command :: rest) = .run ⟨none, request⟩ := by
  have comes : parseCommand none command rest = .run ⟨none, request⟩ := by
    simp only [parseCommand, takes, scanned, option?, noFile, asks]
    rfl
  unfold parse
  dsimp only
  rw [if_neg (by simpa using ⟨other.1, other.2.1⟩), if_neg other.2.2, bare]
  split
  next same => cases same
  next => exact comes

section Demonstration

variable (root : String) (asked : Option Hint) (steps : Nat) (stop : Option Nat)

/-- The words for a demonstration, sorted. -/
def sortedDemoWords : Words where
  options := ((stop.map toString).map fun typed => ("--stop-after", typed)).toList ++
    ("--steps", toString steps) :: ((asked.map Hint.name).map fun typed => ("--hint", typed)).toList
  operands := [root]

variable {root steps stop}

theorem scan_demoWords (plain : looksLikeOption root = false) :
    scan ⟨[configOption, "--hint", "--steps", "--stop-after"], []⟩ 1
      (demoWords root asked steps stop).tail {} =
        .words (sortedDemoWords root asked steps stop) := by
  have hintPlain : ∀ typed ∈ asked.map Hint.name, looksLikeOption typed = false := by
    simp [looksLikeOption_name]
  have stepsPlain : ∀ typed ∈ some (toString steps), looksLikeOption typed = false := by
    rintro _ ⟨⟩
    exact looksLikeOption_toString steps
  have stopPlain : ∀ typed ∈ stop.map toString, looksLikeOption typed = false := by
    intro typed found
    obtain ⟨step, -, rfl⟩ := Option.map_eq_some_iff.1 found
    exact looksLikeOption_toString step
  rw [demoWords, List.tail_cons, ← List.append_nil (optionWords "--stop-after" _),
    scan_operand plain (by decide),
    scan_optionWords (by decide) (by decide) (by decide) rfl hintPlain,
    scan_optionWords (by decide) (by decide) (by decide) (by cases asked <;> rfl) stepsPlain,
    scan_optionWords (by decide) (by decide) (by decide) (by cases asked <;> rfl) stopPlain, scan,
    sortedDemoWords]
  simp

theorem request?_sortedDemoWords (ne_empty : root ≠ "") (word : steps < UInt64.size)
    (stopWord : ∀ step ∈ stop, step < UInt64.size) :
    request? "demo" (sortedDemoWords root asked steps stop) =
      some (.demo root asked steps stop) := by
  have path : path? root = some root := by simp [path?, ne_empty]
  have hint : option? (sortedDemoWords root asked steps stop) "--hint" Hint.parse? =
      some asked := by
    cases asked with
    | none => cases stop <;> rfl
    | some hint =>
        have reads := congrArg (Option.map some) (parse?_name hint)
        cases stop <;> exact reads
  have count : option? (sortedDemoWords root asked steps stop) "--steps" count? =
      some (some steps) := by
    have reads := congrArg (Option.map some) (count?_toString word)
    cases stop <;> exact reads
  have stopCount : option? (sortedDemoWords root asked steps stop) "--stop-after" count? =
      some stop := by
    cases stop with
    | none => cases asked <;> rfl
    | some step => exact congrArg (Option.map some) (count?_toString (stopWord step rfl))
  have operands : (sortedDemoWords root asked steps stop).operands = [root] := rfl
  simp [request?, operands, path, hint, count, stopCount]

/-- The words for a demonstration ask for it. -/
theorem parse_demoWords (operand : IsOperand root) (word : steps < UInt64.size)
    (stopWord : ∀ step ∈ stop, step < UInt64.size) :
    parse (demoWords root asked steps stop) = .run ⟨none, .demo root asked steps stop⟩ :=
  parse_eq_run (by decide) (by decide) rfl (scan_demoWords asked operand.plain)
    (by cases asked <;> cases stop <;> rfl)
    (request?_sortedDemoWords asked operand.ne_empty word stopWord)

end Demonstration

/-- The words for a recovery ask for it. -/
theorem parse_recoverWords {root : String} (operand : IsOperand root) (dirty : Bool) :
    parse (recoverWords root dirty) = .run ⟨none, .recover root dirty⟩ := by
  have scanned : scan ⟨[configOption], ["--dirty"]⟩ 1
      (root :: if dirty then ["--dirty"] else []) {} =
        .words { flags := if dirty then ["--dirty"] else [], operands := [root] } := by
    rw [scan_operand operand.plain (by decide)]
    cases dirty with
    | false => rfl
    | true => exact scan_flag (by decide) (by decide) List.not_mem_nil
  have path : path? root = some root := by simp [path?, operand.ne_empty]
  refine parse_eq_run (by decide) (by decide) rfl scanned rfl ?_
  cases dirty <;> simp [request?, path]

/-! ## The whole program -/

/-- A request that goes through prints its lines and nothing else. -/
theorem runProgram_eq {arguments : List String} {request : Request} {surroundings : Surroundings}
    {config : Config} {machine left : Machine} {lines : List String}
    (asks : parse arguments = .run ⟨none, request⟩)
    (reads : Config.default.withEnvironment surroundings.lookup = .ok config)
    (done : perform config surroundings.newName surroundings.workingDirectory request
      (machine, []) = .ok () (left, lines)) :
    runProgram arguments surroundings machine = (⟨0, lines, []⟩, left) := by
  have set : settings machine.disk none surroundings.lookup = .ok config := reads
  simp only [runProgram, asks, Option.map_none, set, done]

end Cli
end DurableRuns
