/-
# DurableRuns.Cli.Arguments -- the words of a command line

A command line names one of three commands, with its words in any order: options take a value
after a blank or an equals sign, each at most once, and after `--` nothing is an option.  The
file of settings can be named before or after the command; after it counts more.
-/
import DurableRuns.Config

namespace DurableRuns.Cli

set_option autoImplicit false

/-- One of the three commands. -/
inductive Request where
  | inspect (run : String)
  | demo (root : String) (hint : Option Hint) (steps : Nat) (stopAfter : Option Nat)
  | recover (root : String) (dirty : Bool)
deriving DecidableEq, Repr

/-- A command line that was understood. -/
structure Invocation where
  /-- The file of settings. -/
  config : Option String
  request : Request
deriving DecidableEq, Repr

/-- What a command line asks for. -/
inductive CommandLine where
  | run (invocation : Invocation)
  /-- The command line asks how to use the program. -/
  | help
  /-- The command line cannot be understood. -/
  | misused
deriving DecidableEq, Repr

/-- The words after the command, sorted: options with their values, and the others. -/
structure Words where
  options : List (String × String) := []
  flags : List String := []
  operands : List String := []

/-- What the words after a command come to. -/
inductive Scanned where
  | words (words : Words)
  | help
  | misused

/-- The options that take a value and the flags that do not. -/
structure Vocabulary where
  options : List String
  flags : List String

/-- A word that can only be an option. -/
def looksLikeOption (word : String) : Bool := word.startsWith "-" && word ≠ "-"

/-- An option word split at its first equals sign. -/
def splitOption (word : String) : String × Option String :=
  let cs := word.toList
  let name := cs.takeWhile (· ≠ '=')
  match cs.dropWhile (· ≠ '=') with
  | _ :: value => (String.ofList name, some (String.ofList value))
  | [] => (word, none)

/-- Sorts words.  `limit` is the number of words that may stand alone. -/
def scan (vocabulary : Vocabulary) (limit : Nat) : List String → Words → Scanned
  | [], words => .words words
  | word :: rest, words =>
      if word = "--" then
        if words.operands.length + rest.length ≤ limit then
          .words { words with operands := words.operands ++ rest }
        else .misused
      else if word = "--help" || word = "-h" then .help
      else if looksLikeOption word then
        match splitOption word with
        | (name, some value) =>
            if name ∈ vocabulary.options && (words.options.lookup name).isNone then
              scan vocabulary limit rest { words with options := (name, value) :: words.options }
            else .misused
        | (name, none) =>
            if name ∈ vocabulary.flags && name ∉ words.flags then
              scan vocabulary limit rest { words with flags := name :: words.flags }
            else if name ∈ vocabulary.options && (words.options.lookup name).isNone then
              match rest with
              | value :: rest =>
                  if looksLikeOption value then .misused
                  else
                    scan vocabulary limit rest
                      { words with options := (name, value) :: words.options }
              | [] => .misused
            else .misused
      else if words.operands.length < limit then
        scan vocabulary limit rest { words with operands := words.operands ++ [word] }
      else .misused

/-- The option that names the file of settings. -/
def configOption : String := "--config"

/-- A path must not be empty. -/
def path? (word : String) : Option String := if word.isEmpty then none else some word

/-- The value of an option, if it is given, as read by `reader`; `none` if it cannot be read. -/
def option? {α : Type} (words : Words) (name : String) (reader : String → Option α) :
    Option (Option α) :=
  match words.options.lookup name with
  | none => some none
  | some value => (reader value).map some

/-- A count as it is typed. -/
def count? (word : String) : Option Nat := (Config.readNat UInt64.size word.toList).toOption

/-- The words that a command takes. -/
def vocabulary? : String → Option Vocabulary
  | "inspect" => some ⟨[configOption], []⟩
  | "demo" => some ⟨[configOption, "--hint", "--steps", "--stop-after"], []⟩
  | "recover" => some ⟨[configOption], ["--dirty"]⟩
  | _ => none

/-- The command with its words. -/
def request? (command : String) (words : Words) : Option Request := do
  let [operand] := words.operands | none
  let operand ← path? operand
  match command with
  | "inspect" => some (.inspect operand)
  | "demo" =>
      let hint ← option? words "--hint" Hint.parse?
      let steps ← option? words "--steps" count?
      let stopAfter ← option? words "--stop-after" count?
      some (.demo operand hint (steps.getD 3) stopAfter)
  | "recover" => some (.recover operand (words.flags.contains "--dirty"))
  | _ => none

/-- The commands, the one that asks for help among them. -/
def commands : List String := ["inspect", "demo", "recover", "help"]

/-- The words from the command on, given the file of settings named before it. -/
def parseCommand (before : Option String) (command : String) (rest : List String) :
    CommandLine :=
  match vocabulary? command with
  | none =>
      if command = "help" ∧ rest.length ≤ 1 ∧ ∀ word ∈ rest, word ∈ commands then .help
      else .misused
  | some vocabulary =>
      match scan vocabulary 1 rest {} with
      | .help => .help
      | .misused => .misused
      | .words words =>
          match option? words configOption path?, request? command words with
          | some config, some request => .run ⟨config <|> before, request⟩
          | _, _ => .misused

/-- What a command line asks for. -/
def parse : List String → CommandLine
  | [] => .misused
  | word :: rest =>
      if word = "--help" || word = "-h" then .help
      else if word = configOption then
        match rest with
        | file :: command :: rest =>
            if file.isEmpty || looksLikeOption file then .misused
            else if command = "--help" || command = "-h" then .help
            else parseCommand (some file) command rest
        | _ => .misused
      else
        match splitOption word with
        | ("--config", some file) =>
            match rest with
            | command :: rest =>
                if file.isEmpty then .misused
                else if command = "--help" || command = "-h" then .help
                else parseCommand (some file) command rest
            | [] => .misused
        | _ => parseCommand none word rest

end DurableRuns.Cli
