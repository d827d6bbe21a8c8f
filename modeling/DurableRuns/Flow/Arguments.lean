/-
# DurableRuns.Flow.Arguments -- named arguments in the order of their names

The arguments of a step are texts under names.  They are kept in ascending order of the
names, each name once, so equal arguments are equal values.
-/
import DurableRuns.Json.Reading

namespace DurableRuns

set_option autoImplicit false

/-- Texts under names, in ascending order of the names. -/
structure Arguments where
  entries : List (String × String)
  ascending : entries.Pairwise fun a b => a.1 < b.1
deriving DecidableEq, Repr

namespace Arguments

/-- No arguments. -/
def empty : Arguments := ⟨[], .nil⟩

/-- Entries with one more; an entry of the same name is replaced. -/
def insertInto (name text : String) : List (String × String) → List (String × String)
  | [] => [(name, text)]
  | (other, old) :: rest =>
      if name < other then (name, text) :: (other, old) :: rest
      else if other < name then (other, old) :: insertInto name text rest
      else (name, text) :: rest

theorem mem_insertInto {name text : String} {entries : List (String × String)}
    {entry : String × String} (h : entry ∈ insertInto name text entries) :
    entry = (name, text) ∨ entry ∈ entries := by
  induction entries with
  | nil => simpa [insertInto] using h
  | cons first rest ih =>
      unfold insertInto at h
      split at h
      · simpa using h
      · split at h
        · rcases List.mem_cons.1 h with same | inside
          · exact .inr (same ▸ List.mem_cons_self)
          · rcases ih inside with same | old
            · exact .inl same
            · exact .inr (List.mem_cons_of_mem _ old)
        · rcases List.mem_cons.1 h with same | old
          · exact .inl same
          · exact .inr (List.mem_cons_of_mem _ old)

theorem insertInto_ascending (name text : String) (entries : List (String × String))
    (h : entries.Pairwise fun a b => a.1 < b.1) :
    (insertInto name text entries).Pairwise fun a b => a.1 < b.1 := by
  induction entries with
  | nil => simp [insertInto]
  | cons first rest ih =>
      obtain ⟨before, tail⟩ := List.pairwise_cons.1 h
      unfold insertInto
      split
      next lower =>
        refine List.pairwise_cons.2 ⟨fun entry inside => ?_, h⟩
        rcases List.mem_cons.1 inside with same | later
        · exact same ▸ lower
        · exact String.lt_trans lower (before entry later)
      next notLower =>
        split
        next higher =>
          refine List.pairwise_cons.2 ⟨fun entry inside => ?_, ih tail⟩
          rcases mem_insertInto inside with same | later
          · exact same ▸ higher
          · exact before entry later
        next notHigher =>
          have same : name = first.1 :=
            String.le_antisymm (String.not_lt.1 notHigher) (String.not_lt.1 notLower)
          exact List.pairwise_cons.2 ⟨fun entry inside => same ▸ before entry inside, tail⟩

/-- The arguments with one more; an argument of the same name is replaced. -/
def insert (arguments : Arguments) (name text : String) : Arguments :=
  ⟨insertInto name text arguments.entries,
    insertInto_ascending name text arguments.entries arguments.ascending⟩

/-- The arguments given by a list; of two with one name the later counts. -/
def ofList (entries : List (String × String)) : Arguments :=
  entries.foldl (fun arguments (name, text) => arguments.insert name text) empty

/-- The arguments as an object. -/
def toJson (arguments : Arguments) : Json :=
  .record (arguments.entries.map fun (name, text) => (name, .text text))

/-- The arguments that an object of texts describes. -/
def ofJson? : Json → Option Arguments
  | .object members => do
      let members ← Json.named? members
      let entries ← members.mapM fun (name, value) => value.text?.map (name, ·)
      some (ofList entries)
  | _ => none

end Arguments
end DurableRuns
