/-
# DurableRuns.Proofs.Disk.Entries -- what stands where after a change of the disk

A disk is known by `Disk.at?`, what stands at each path.  The laws here say how each change
acts on it, and when a change goes through.

* `at?_write`: a write puts a file at its path and directories on the way to it, and leaves
  every other path alone; `write_succeeds` tells when nothing is in the way.
* `at?_remove`: a removal takes away what stands at its path only.
* `mem_names`: the names in a directory are those under which something stands there.
* `replay_preserves`: what every one of some changes preserves, all of them preserve.
-/
import DurableRuns.Disk.Machine

namespace DurableRuns

set_option autoImplicit false

namespace Disk

/-! ## One entry -/

@[simp]
theorem at?_root (disk : Disk) : disk.at? [] = some .directory := rfl

theorem at?_eq_lookup (disk : Disk) {path : Path} (below : path ≠ []) :
    disk.at? path = disk.entries.lookup path := by
  rw [at?, if_neg below]

theorem lookup_cons_if (here : Path) (old : Entry) (rest : List (Path × Entry)) (other : Path) :
    List.lookup other ((here, old) :: rest) =
      if other = here then some old else rest.lookup other := by
  by_cases same : other = here
  · subst same
    simp
  · have different : (other == here) = false := beq_eq_false_iff_ne.2 same
    simp [List.lookup_cons, different, same]

theorem lookup_setIn (path : Path) (entry : Entry) (other : Path)
    (entries : List (Path × Entry)) :
    (setIn path entry entries).lookup other =
      if other = path then some entry else entries.lookup other := by
  induction entries with
  | nil => rw [setIn, lookup_cons_if]
  | cons first rest ih =>
      obtain ⟨here, old⟩ := first
      rw [setIn]
      by_cases found : here = path
      · subst found
        simp only [if_true, lookup_cons_if]
        by_cases same : other = here
        · simp [same]
        · simp [same]
      · rw [if_neg found, lookup_cons_if, lookup_cons_if, ih]
        by_cases same : other = here
        · simp [same, found]
        · simp [same]

/-- Setting an entry changes what stands at its path, and nothing else. -/
theorem at?_set (disk : Disk) {path : Path} (below : path ≠ []) (entry : Entry) (other : Path) :
    (disk.set path entry).at? other = if other = path then some entry else disk.at? other := by
  by_cases top : other = []
  · subst top
    simp [Ne.symm below]
  · rw [at?_eq_lookup _ top, at?_eq_lookup _ top]
    exact lookup_setIn path entry other disk.entries

theorem lookup_filter_ne (path other : Path) (entries : List (Path × Entry)) :
    (entries.filter (·.1 ≠ path)).lookup other =
      if other = path then none else entries.lookup other := by
  induction entries with
  | nil => simp
  | cons first rest ih =>
      obtain ⟨here, old⟩ := first
      rw [lookup_cons_if]
      by_cases found : here = path
      · subst found
        rw [List.filter_cons_of_neg (by simp), ih]
        by_cases same : other = here
        · simp [same]
        · simp [same]
      · rw [List.filter_cons_of_pos (by simp [found]), lookup_cons_if, ih]
        by_cases same : other = here
        · simp [same, found]
        · simp [same]

/-- Erasing an entry changes what stands at its path, and nothing else. -/
theorem at?_erase (disk : Disk) {path : Path} (below : path ≠ []) (other : Path) :
    (disk.erase path).at? other = if other = path then none else disk.at? other := by
  by_cases top : other = []
  · subst top
    simp [Ne.symm below]
  · rw [at?_eq_lookup _ top, at?_eq_lookup _ top]
    exact lookup_filter_ne path other disk.entries

/-! ## The way to a path -/

/-- No file stands at a path or on the way to it. -/
def IsFree (disk : Disk) (path : Path) : Prop :=
  ∀ above, above <+: path → ∀ content, disk.at? above ≠ some (.file content)

theorem prefix_cons_iff (base : Path) (name : String) (rest : List String) (other : Path) :
    (base <+: other ∧ other <+: base ++ name :: rest ∧ other ≠ base) ↔
      (base ++ [name] <+: other ∧ other <+: base ++ [name] ++ rest) := by
  constructor
  · rintro ⟨⟨tail, rfl⟩, within, proper⟩
    have inner := (List.prefix_append_right_inj base).1 within
    cases tail with
    | nil => simp at proper
    | cons head tail =>
        obtain ⟨rfl, later⟩ := List.cons_prefix_cons.1 inner
        refine ⟨⟨tail, by simp⟩, ?_⟩
        simpa using later
  · rintro ⟨⟨tail, rfl⟩, within⟩
    refine ⟨⟨name :: tail, by simp⟩, ?_, by simp⟩
    simpa using within

/-- The directories along a path are made where nothing stood; all else stays. -/
theorem at?_makeDirectoriesFrom {disk made : Disk} {base : Path} {names : List String}
    (ok : disk.makeDirectoriesFrom base names = .ok made) (other : Path) :
    made.at? other =
      if base <+: other ∧ other <+: base ++ names ∧ other ≠ base then some .directory
      else disk.at? other := by
  induction names generalizing base disk with
  | nil =>
      obtain rfl := Except.ok.inj ok
      have never : ¬ (base <+: other ∧ other <+: base ++ [] ∧ other ≠ base) := by
        rintro ⟨down, up, proper⟩
        rw [List.append_nil] at up
        exact proper (up.eq_of_length_le down.length_le)
      rw [if_neg never]
  | cons name rest ih =>
      have along := prefix_cons_iff base name rest other
      simp only [along]
      rw [makeDirectoriesFrom] at ok
      split at ok
      next stands =>
        rw [ih ok]
        by_cases here : other = base ++ [name]
        · subst here
          simp [stands]
        · simp [here]
      next => cases ok
      next =>
        rw [ih ok, at?_set disk (by simp)]
        by_cases here : other = base ++ [name]
        · subst here
          simp
        · simp [here]

theorem at?_makeDirectories {disk made : Disk} {path : Path}
    (ok : disk.makeDirectories path = .ok made) (other : Path) :
    made.at? other = if other <+: path then some .directory else disk.at? other := by
  rw [at?_makeDirectoriesFrom ok other]
  by_cases top : other = []
  · subst top
    simp
  · simp [top]

theorem makeDirectoriesFrom_succeeds {disk : Disk} {base : Path} {names : List String}
    (free : disk.IsFree (base ++ names)) :
    ∃ made, disk.makeDirectoriesFrom base names = .ok made := by
  induction names generalizing base disk with
  | nil => exact ⟨disk, rfl⟩
  | cons name rest ih =>
      have shape : base ++ name :: rest = base ++ [name] ++ rest := by simp
      rw [shape] at free
      rw [makeDirectoriesFrom]
      split
      next => exact ih free
      next content stands =>
        exact absurd stands (free (base ++ [name]) (List.prefix_append ..) content)
      next =>
        apply ih
        intro above up content
        rw [at?_set disk (by simp)]
        by_cases here : above = base ++ [name]
        · simp [here]
        · rw [if_neg here]
          exact free above up content

/-- Directories can be made along a path on which no file stands. -/
theorem makeDirectories_succeeds {disk : Disk} {path : Path} (free : disk.IsFree path) :
    ∃ made, disk.makeDirectories path = .ok made := by
  have whole : disk.IsFree ([] ++ path) := free
  exact makeDirectoriesFrom_succeeds whole

/-! ## Files -/

/-- A write makes the directories on the way to its file, and then puts the file in place. -/
theorem write_steps {disk written : Disk} {path : Path} {content : Bytes}
    (ok : disk.write path content = .ok written) :
    path ≠ [] ∧ ∃ between, disk.makeDirectories path.dropLast = .ok between ∧
      between.at? path ≠ some .directory ∧ written = between.set path (.file content) := by
  unfold write at ok
  by_cases top : path = []
  · rw [if_pos top] at ok
    cases ok
  · rw [if_neg top] at ok
    cases made : disk.makeDirectories path.dropLast with
    | error fault =>
        rw [made] at ok
        cases ok
    | ok between =>
        rw [made] at ok
        by_cases taken : between.isDirectory path = true
        · simp only [bind, Except.bind, taken] at ok
          cases ok
        · simp only [bind, Except.bind, taken] at ok
          exact ⟨top, between, rfl, by simpa [isDirectory] using taken, (Except.ok.inj ok).symm⟩

/-- A write puts its file in place and directories on the way to it; all else stays. -/
theorem at?_write {disk written : Disk} {path : Path} {content : Bytes}
    (ok : disk.write path content = .ok written) (other : Path) :
    written.at? other =
      if other = path then some (.file content)
      else if other <+: path.dropLast then some .directory
      else disk.at? other := by
  obtain ⟨top, between, made, -, rfl⟩ := write_steps ok
  rw [at?_set between top, at?_makeDirectories made]

/-- Nothing in a directory is above it. -/
theorem not_concat_prefix (path : Path) (name : String) : ¬ path ++ [name] <+: path := by
  intro up
  have longer := up.length_le
  rw [List.length_append, List.length_singleton] at longer
  omega

theorem dropLast_prefix_ne {path : Path} (below : path ≠ []) : ¬ path <+: path.dropLast := by
  intro inside
  have short := inside.length_le
  have long := List.length_pos_iff.2 below
  rw [List.length_dropLast] at short
  omega

/-- A file can be written where no directory stands and no file is on the way. -/
theorem write_succeeds {disk : Disk} {path : Path} (below : path ≠ [])
    (free : disk.IsFree path.dropLast) (vacant : disk.at? path ≠ some .directory)
    (content : Bytes) : ∃ written, disk.write path content = .ok written := by
  obtain ⟨made, ok⟩ := makeDirectories_succeeds free
  have still : made.isDirectory path = false := by
    rw [isDirectory, at?_makeDirectories ok, if_neg (dropLast_prefix_ne below)]
    simpa using vacant
  refine ⟨made.set path (.file content), ?_⟩
  unfold write
  rw [if_neg below, ok]
  simp [bind, Except.bind, still]
  rfl

/-- A directory stands at a path and everywhere on the way to it. -/
def IsReached (disk : Disk) (path : Path) : Prop :=
  ∀ above, above <+: path → disk.at? above = some .directory

theorem IsReached.isFree {disk : Disk} {path : Path} (reached : disk.IsReached path) :
    disk.IsFree path := by
  intro above up content stands
  cases (reached above up).symm.trans stands

/-- After a write its directory stands. -/
theorem isReached_of_write {disk written : Disk} {directory : Path} {name : String}
    {content : Bytes} (ok : disk.write (directory ++ [name]) content = .ok written) :
    written.IsReached directory := by
  intro above up
  have different : above ≠ directory ++ [name] := by
    rintro rfl
    exact not_concat_prefix _ _ up
  rw [at?_write ok, List.dropLast_concat, if_neg different, if_pos up]

/-- A write in a directory that stands puts its file in place; all else stays. -/
theorem at?_write_of_isReached {disk written : Disk} {directory : Path} {name : String}
    {content : Bytes} (reached : disk.IsReached directory)
    (ok : disk.write (directory ++ [name]) content = .ok written) (other : Path) :
    written.at? other =
      if other = directory ++ [name] then some (.file content) else disk.at? other := by
  rw [at?_write ok, List.dropLast_concat]
  by_cases up : other <+: directory
  · simp [reached other up]
  · simp [up]

theorem write_succeeds_of_isReached {disk : Disk} {directory : Path} {name : String}
    (reached : disk.IsReached directory)
    (vacant : disk.at? (directory ++ [name]) ≠ some .directory) (content : Bytes) :
    ∃ written, disk.write (directory ++ [name]) content = .ok written := by
  refine write_succeeds (by simp) ?_ vacant content
  rw [List.dropLast_concat]
  exact reached.isFree

/-- A removal takes a file off the disk. -/
theorem remove_steps {disk removed : Disk} {path : Path} (ok : disk.remove path = .ok removed) :
    (∃ content, disk.at? path = some (.file content)) ∧ removed = disk.erase path := by
  unfold remove at ok
  split at ok
  next content stands => exact ⟨⟨content, stands⟩, (Except.ok.inj ok).symm⟩
  next => cases ok
  next => cases ok

/-- A removal takes away what stands at its path; all else stays. -/
theorem at?_remove {disk removed : Disk} {path : Path}
    (ok : disk.remove path = .ok removed) (other : Path) :
    removed.at? other = if other = path then none else disk.at? other := by
  obtain ⟨⟨content, stands⟩, rfl⟩ := remove_steps ok
  have below : path ≠ [] := by
    rintro rfl
    simp at stands
  exact at?_erase disk below other

theorem remove_succeeds {disk : Disk} {path : Path} {content : Bytes}
    (stands : disk.at? path = some (.file content)) :
    ∃ removed, disk.remove path = .ok removed := by
  rw [remove, stands]
  exact ⟨_, rfl⟩

/-! ## Files that stay -/

/-- A file that stands at a path stands there still. -/
def StaysAt (disk other : Disk) (path : Path) : Prop :=
  ∀ content, disk.at? path = some (.file content) → other.at? path = some (.file content)

/-- Directories are never made in the place of a file. -/
theorem staysAt_of_makeDirectoriesFrom {disk made : Disk} {base : Path} {names : List String}
    (ok : disk.makeDirectoriesFrom base names = .ok made) (path : Path) :
    disk.StaysAt made path := by
  induction names generalizing base disk with
  | nil =>
      obtain rfl := Except.ok.inj ok
      exact fun _ stands => stands
  | cons name rest ih =>
      rw [makeDirectoriesFrom] at ok
      split at ok
      next => exact ih ok
      next => cases ok
      next vacant =>
        intro content stands
        apply ih ok
        have different : path ≠ base ++ [name] := by
          rintro rfl
          cases vacant.symm.trans stands
        rw [at?_set disk (by simp), if_neg different]
        exact stands

/-- A write leaves every other file alone. -/
theorem staysAt_of_write {disk written : Disk} {path other : Path} {content : Bytes}
    (ok : disk.write path content = .ok written) (apart : other ≠ path) :
    disk.StaysAt written other := by
  obtain ⟨top, between, made, -, rfl⟩ := write_steps ok
  intro found stands
  rw [at?_set between top, if_neg apart]
  exact staysAt_of_makeDirectoriesFrom made other found stands

theorem staysAt_of_remove {disk removed : Disk} {path other : Path}
    (ok : disk.remove path = .ok removed) (apart : other ≠ path) :
    disk.StaysAt removed other := by
  intro content stands
  rw [at?_remove ok, if_neg apart]
  exact stands

/-- A file that stands after a change is the one that the change wrote, or it stood before. -/
theorem file_of_apply {disk made : Disk} {change : Change} {path : Path} {content : Bytes}
    (ok : change.apply disk = .ok made) (stands : made.at? path = some (.file content)) :
    (∃ atomic, change = .write path content atomic) ∨ disk.at? path = some (.file content) := by
  cases change with
  | makeDirectories =>
      rw [at?_makeDirectories ok] at stands
      split at stands
      · cases stands
      · exact .inr stands
  | write other written atomic =>
      rw [at?_write ok] at stands
      split at stands
      next same =>
        cases stands
        exact .inl ⟨atomic, by rw [same]⟩
      next =>
        split at stands
        · cases stands
        · exact .inr stands
  | remove =>
      rw [at?_remove ok] at stands
      split at stands
      · cases stands
      · exact .inr stands

/-! ## Looking -/

theorem hasFileAbove_eq_false {disk : Disk} {base : Path} {names : List String}
    (free : ∀ above, base <+: above → above <+: base ++ names.dropLast →
      ∀ content, disk.at? above ≠ some (.file content)) :
    disk.hasFileAbove base names = false := by
  induction names generalizing base with
  | nil => rfl
  | cons name rest ih =>
      have here : ∀ content, disk.at? base ≠ some (.file content) :=
        free base (List.prefix_refl base) (List.prefix_append ..)
      rw [hasFileAbove]
      split
      next content stands => exact absurd stands (here content)
      next =>
        cases rest with
        | nil => rfl
        | cons next later =>
            apply ih
            intro above down up
            apply free above ((List.prefix_append base [name]).trans down)
            simpa using up

/-- Nothing is found under a directory because nothing is there. -/
theorem missing_eq_notFound {disk : Disk} {path : Path} (free : disk.IsFree path.dropLast) :
    disk.missing path = .notFound := by
  have clear : disk.hasFileAbove [] path = false :=
    hasFileAbove_eq_false fun above _ up => free above up
  rw [missing, clear]
  rfl

theorem mem_of_lookup {entries : List (Path × Entry)} {path : Path} :
    (∃ entry, (path, entry) ∈ entries) ↔ entries.lookup path ≠ none := by
  induction entries with
  | nil => simp
  | cons first rest ih =>
      obtain ⟨here, old⟩ := first
      rw [lookup_cons_if]
      by_cases same : path = here
      · subst same
        exact ⟨fun _ => by simp, fun _ => ⟨old, List.mem_cons_self⟩⟩
      · rw [if_neg same, ← ih]
        constructor
        · rintro ⟨entry, inside⟩
          rcases List.mem_cons.1 inside with first | later
          · exact absurd (Prod.mk.inj first).1 same
          · exact ⟨entry, later⟩
        · rintro ⟨entry, inside⟩
          exact ⟨entry, List.mem_cons_of_mem _ inside⟩

theorem eq_append_iff {path directory : Path} {name : String} :
    (path.dropLast = directory ∧ path.getLast? = some name) ↔ path = directory ++ [name] := by
  constructor
  · rintro ⟨rfl, last⟩
    obtain ⟨front, rfl⟩ := List.getLast?_eq_some_iff.1 last
    simp
  · rintro rfl
    simp

/-- The names in a directory are those under which something stands there. -/
theorem mem_names {disk : Disk} {directory : Path} {names : List String}
    (ok : disk.names directory = .ok names) (name : String) :
    name ∈ names ↔ disk.at? (directory ++ [name]) ≠ none := by
  unfold Disk.names at ok
  split at ok
  next =>
    obtain rfl := Except.ok.inj ok
    rw [at?_eq_lookup disk (by simp), ← mem_of_lookup, List.mem_filterMap]
    constructor
    · rintro ⟨⟨path, entry⟩, inside, found⟩
      simp only [Option.ite_none_right_eq_some] at found
      obtain rfl := eq_append_iff.1 found
      exact ⟨entry, inside⟩
    · rintro ⟨entry, inside⟩
      exact ⟨(directory ++ [name], entry), inside, by simp⟩
  next => cases ok
  next => cases ok

/-! ## Changes, one after the other -/

theorem replay_append (disk : Disk) (first later : List Change) :
    disk.replay (first ++ later) = (disk.replay first).bind fun between => between.replay later := by
  induction first generalizing disk with
  | nil => rfl
  | cons change rest ih =>
      rw [List.cons_append, replay, replay]
      cases change.apply disk with
      | error fault => rfl
      | ok next => exact ih next

theorem replay_singleton {disk made : Disk} {change : Change} (ok : change.apply disk = .ok made) :
    disk.replay [change] = .ok made := by
  rw [replay, ok]
  rfl

/-- What every change preserves, they all preserve one after the other. -/
theorem replay_preserves {holds : Disk → Prop} {changes : List Change} {disk made : Disk}
    (preserves : ∀ change ∈ changes, ∀ {before after : Disk}, holds before →
      change.apply before = .ok after → holds after)
    (ok : disk.replay changes = .ok made) (held : holds disk) : holds made := by
  induction changes generalizing disk with
  | nil =>
      obtain rfl := Except.ok.inj ok
      exact held
  | cons change rest ih =>
      rw [replay] at ok
      cases applied : change.apply disk with
      | error fault =>
          rw [applied] at ok
          cases ok
      | ok between =>
          rw [applied] at ok
          exact ih (fun other inside => preserves other (List.mem_cons_of_mem _ inside)) ok
            (preserves change List.mem_cons_self held applied)

end Disk
end DurableRuns
