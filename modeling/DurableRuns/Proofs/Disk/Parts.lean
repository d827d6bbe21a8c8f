/-
# DurableRuns.Proofs.Disk.Parts -- one directory of a disk, and all the rest

`Disk.keep` leaves out the entries at some of the paths.  What stands at a path that is kept, and
what a change does there, is told by the part that is kept alone, and a change elsewhere leaves the
part as it was.

Two parts belong to a directory: `Disk.within`, the directory with all in it and the directories
on the way to it, and `Disk.beside`, everything but what is in it.  A change in a directory that
stands acts on the first and leaves the second alone (`Change.apply_within`,
`Change.beside_of_apply`).
-/
import DurableRuns.Proofs.Disk.Entries

namespace DurableRuns

set_option autoImplicit false

namespace Disk

/-! ## Parts -/

/-- The part of a disk at some of its paths. -/
def keep (disk : Disk) (kept : Path → Bool) : Disk :=
  ⟨disk.entries.filter fun entry => kept entry.1⟩

variable {disk : Disk} {kept : Path → Bool} {path : Path}

theorem keep_keep (disk : Disk) (kept also : Path → Bool) :
    (disk.keep kept).keep also = disk.keep fun path => kept path && also path := by
  simp only [keep, List.filter_filter, Bool.and_comm]

/-- What two disks have in common they have in common in any smaller part. -/
theorem keep_eq_of_keep_eq {other : Disk} {less : Path → Bool}
    (same : other.keep kept = disk.keep kept)
    (smaller : ∀ path, less path = true → kept path = true) :
    other.keep less = disk.keep less := by
  have both : ∀ path, (kept path && less path) = less path := by
    intro path
    cases small : less path with
    | true => rw [smaller path small, Bool.and_self]
    | false => rw [Bool.and_false]
  have cut := congrArg (fun part : Disk => part.keep less) same
  simp only [keep_keep, both] at cut
  exact cut

theorem lookup_filter (kept : Path → Bool) (inside : kept path = true)
    (entries : List (Path × Entry)) :
    (entries.filter fun entry => kept entry.1).lookup path = entries.lookup path := by
  induction entries with
  | nil => rfl
  | cons first rest ih =>
      obtain ⟨here, old⟩ := first
      rw [List.filter_cons]
      by_cases same : path = here
      · subst same
        simp [inside]
      · cases kept here with
        | true => simp [lookup_cons_if, same, ih]
        | false => simp [lookup_cons_if, same, ih]

/-- What stands at a path that is kept stands there still. -/
theorem at?_keep (disk : Disk) (inside : kept path = true) :
    (disk.keep kept).at? path = disk.at? path := by
  by_cases top : path = []
  · subst top
    rfl
  · rw [at?_eq_lookup _ top, at?_eq_lookup _ top]
    exact lookup_filter kept inside disk.entries

theorem setIn_filter (kept : Path → Bool) (inside : kept path = true) (entry : Entry)
    (entries : List (Path × Entry)) :
    (setIn path entry entries).filter (fun entry => kept entry.1) =
      setIn path entry (entries.filter fun entry => kept entry.1) := by
  induction entries with
  | nil => simp [setIn, inside]
  | cons first rest ih =>
      obtain ⟨here, old⟩ := first
      by_cases same : here = path
      · subst same
        simp [setIn, inside]
      · cases here' : kept here with
        | true => simp [setIn, same, here', ih]
        | false => simp [setIn, same, here', ih]

theorem setIn_filter_of_not (kept : Path → Bool) (outside : kept path = false) (entry : Entry)
    (entries : List (Path × Entry)) :
    (setIn path entry entries).filter (fun entry => kept entry.1) =
      entries.filter fun entry => kept entry.1 := by
  induction entries with
  | nil => simp [setIn, outside]
  | cons first rest ih =>
      obtain ⟨here, old⟩ := first
      by_cases same : here = path
      · subst same
        simp [setIn, outside]
      · simp [setIn, same, List.filter_cons, ih]

theorem keep_set (disk : Disk) (inside : kept path = true) (entry : Entry) :
    (disk.set path entry).keep kept = (disk.keep kept).set path entry :=
  congrArg Disk.mk (setIn_filter kept inside entry disk.entries)

theorem keep_set_of_not (disk : Disk) (outside : kept path = false) (entry : Entry) :
    (disk.set path entry).keep kept = disk.keep kept :=
  congrArg Disk.mk (setIn_filter_of_not kept outside entry disk.entries)

theorem keep_erase (disk : Disk) (kept : Path → Bool) (path : Path) :
    (disk.erase path).keep kept = (disk.keep kept).erase path := by
  simp only [keep, erase, List.filter_filter, Bool.and_comm]

theorem keep_erase_of_not (disk : Disk) (outside : kept path = false) :
    (disk.erase path).keep kept = disk.keep kept := by
  rw [keep_erase]
  refine congrArg Disk.mk (List.filter_eq_self.2 fun entry inside => ?_)
  have different : entry.1 ≠ path := by
    rintro rfl
    cases outside.symm.trans (List.mem_filter.1 inside).2
  simpa using different

/-! ## Looking at a part -/

theorem hasFileAbove_keep (disk : Disk) {base : Path} {names : List String}
    (inside : ∀ above, base <+: above → above <+: base ++ names → kept above = true) :
    (disk.keep kept).hasFileAbove base names = disk.hasFileAbove base names := by
  induction names generalizing base with
  | nil => rfl
  | cons name rest ih =>
      have here := disk.at?_keep (inside base (List.prefix_refl _) (List.prefix_append ..))
      rw [hasFileAbove, hasFileAbove, here]
      have below : (disk.keep kept).hasFileAbove (base ++ [name]) rest =
          disk.hasFileAbove (base ++ [name]) rest := by
        refine ih fun above down up => inside above ((List.prefix_append ..).trans down) ?_
        simpa using up
      rw [below]

theorem missing_keep (disk : Disk) (inside : ∀ above, above <+: path → kept above = true) :
    (disk.keep kept).missing path = disk.missing path := by
  have along : ∀ above, [] <+: above → above <+: [] ++ path → kept above = true :=
    fun above _ up => inside above up
  rw [missing, missing, hasFileAbove_keep disk along]

theorem read_keep (disk : Disk) (inside : ∀ above, above <+: path → kept above = true) :
    (disk.keep kept).read path = disk.read path := by
  rw [read, read, at?_keep disk (inside path (List.prefix_refl _)), missing_keep disk inside]

theorem readJson_keep {α : Type} (disk : Disk) (reader : Json → Option α)
    (inside : ∀ above, above <+: path → kept above = true) :
    (disk.keep kept).readJson path reader = disk.readJson path reader := by
  rw [readJson, readJson, read_keep disk inside]

/-- The names in a directory are told by a part that keeps all that stands in it. -/
theorem names_keep (disk : Disk) (inside : ∀ above, above <+: path → kept above = true)
    (children : ∀ name, kept (path ++ [name]) = true) :
    (disk.keep kept).names path = disk.names path := by
  have child {other : Path} (here : other.dropLast = path) {name : String}
      (last : other.getLast? = some name) : kept other = true := by
    rw [eq_append_iff.1 ⟨here, last⟩]
    exact children name
  rw [names, names, at?_keep disk (inside path (List.prefix_refl _)), missing_keep disk inside,
    keep, List.filterMap_filter]
  cases disk.at? path with
  | none => rfl
  | some entry =>
      cases entry with
      | file => rfl
      | directory =>
          refine congrArg (fun name? => Except.ok (disk.entries.filterMap name?)) ?_
          funext item
          cases keeps : kept item.1 with
          | true => rfl
          | false =>
              rw [if_neg Bool.false_ne_true]
              by_cases here : item.1.dropLast = path
              · simp only [if_pos here]
                cases last : item.1.getLast? with
                | none => rfl
                | some name => cases keeps.symm.trans (child here last)
              · simp only [if_neg here]

/-! ## Changing a part -/

/-- Directories are made in the part as they are on the disk. -/
theorem makeDirectoriesFrom_keep (disk : Disk) {base : Path} {names : List String}
    (inside : ∀ above, base <+: above → above <+: base ++ names → kept above = true) :
    (disk.keep kept).makeDirectoriesFrom base names =
      (disk.makeDirectoriesFrom base names).map (keep · kept) := by
  induction names generalizing base disk with
  | nil => rfl
  | cons name rest ih =>
      have here : kept (base ++ [name]) = true :=
        inside _ (List.prefix_append ..) ((List.prefix_append_right_inj base).2 (by simp))
      have below (part : Disk) := ih part fun above down up =>
        inside above ((List.prefix_append base [name]).trans down) (by simpa using up)
      rw [makeDirectoriesFrom, makeDirectoriesFrom, at?_keep disk here]
      cases disk.at? (base ++ [name]) with
      | none =>
          simp only []
          rw [← keep_set disk here]
          exact below _
      | some entry =>
          cases entry with
          | file content => rfl
          | directory => exact below _

/-- Where the directories that are kept stand already, no change is made to the part. -/
theorem keep_makeDirectoriesFrom {made : Disk} {base : Path} {names : List String}
    (stands : ∀ above, base <+: above → above <+: base ++ names → kept above = true →
      above ≠ base → disk.at? above = some .directory)
    (ok : disk.makeDirectoriesFrom base names = .ok made) : made.keep kept = disk.keep kept := by
  induction names generalizing base disk with
  | nil =>
      obtain rfl := Except.ok.inj ok
      rfl
  | cons name rest ih =>
      have shape : base ++ name :: rest = base ++ [name] ++ rest := by simp
      rw [shape] at stands
      have below (above : Path) (down : base ++ [name] <+: above)
          (up : above <+: base ++ [name] ++ rest) (keeps : kept above = true) :
          disk.at? above = some .directory := by
        refine stands above ((List.prefix_append base [name]).trans down) up keeps ?_
        rintro rfl
        exact not_concat_prefix _ _ down
      rw [makeDirectoriesFrom] at ok
      split at ok
      next => exact ih (fun above down up keeps _ => below above down up keeps) ok
      next => cases ok
      next nothing =>
        have outside : kept (base ++ [name]) = false := by
          refine Bool.eq_false_iff.2 fun keeps => ?_
          cases nothing.symm.trans (below _ (List.prefix_refl _) (List.prefix_append ..) keeps)
        rw [← keep_set_of_not disk outside .directory]
        refine ih (fun above down up keeps apart => ?_) ok
        rw [at?_set disk (by simp), if_neg apart]
        exact below above down up keeps

/-- A file is written in the part as it is on the disk. -/
theorem write_keep (disk : Disk) (content : Bytes)
    (inside : ∀ above, above <+: path → kept above = true) :
    (disk.keep kept).write path content = (disk.write path content).map (keep · kept) := by
  unfold write
  by_cases top : path = []
  · rw [if_pos top, if_pos top]
    rfl
  · have along : ∀ above, [] <+: above → above <+: [] ++ path.dropLast → kept above = true :=
      fun above _ up => inside above (up.trans (List.dropLast_prefix path))
    rw [if_neg top, if_neg top]
    simp only [makeDirectories, makeDirectoriesFrom_keep disk along, bind, Except.bind]
    cases disk.makeDirectoriesFrom [] path.dropLast with
    | error fault => rfl
    | ok made =>
        have here := inside path (List.prefix_refl _)
        simp only [Except.map, isDirectory, at?_keep made here]
        by_cases taken : made.at? path = some .directory
        · simp only [taken, decide_true, if_true]
          rfl
        · simp only [taken, decide_false]
          exact congrArg Except.ok (keep_set made here (.file content)).symm

/-- A file that is not kept is written beside the part. -/
theorem keep_write {content : Bytes} {written : Disk} (outside : kept path = false)
    (stands : ∀ above, above <+: path.dropLast → kept above = true →
      disk.at? above = some .directory)
    (ok : disk.write path content = .ok written) : written.keep kept = disk.keep kept := by
  obtain ⟨-, between, made, -, rfl⟩ := write_steps ok
  rw [keep_set_of_not between outside]
  exact keep_makeDirectoriesFrom (fun above _ up keeps _ => stands above up keeps) made

theorem remove_keep (disk : Disk) (inside : ∀ above, above <+: path → kept above = true) :
    (disk.keep kept).remove path = (disk.remove path).map (keep · kept) := by
  rw [remove, remove, at?_keep disk (inside path (List.prefix_refl _)), missing_keep disk inside]
  cases disk.at? path with
  | none => rfl
  | some entry =>
      cases entry with
      | directory => rfl
      | file content => exact congrArg Except.ok (keep_erase disk kept path).symm

theorem keep_remove {removed : Disk} (outside : kept path = false)
    (ok : disk.remove path = .ok removed) : removed.keep kept = disk.keep kept := by
  obtain ⟨-, rfl⟩ := remove_steps ok
  exact keep_erase_of_not disk outside

/-! ## A directory and the rest -/

/-- A path leads into a directory, past the directory itself. -/
def IsInside (directory path : Path) : Prop := directory <+: path ∧ path ≠ directory

instance (directory path : Path) : Decidable (IsInside directory path) :=
  inferInstanceAs (Decidable (_ ∧ _))

/-- A directory with all that is in it, and the directories on the way to it. -/
def within (disk : Disk) (directory : Path) : Disk :=
  disk.keep fun path => decide (directory <+: path ∨ path <+: directory)

/-- Everything but what is in a directory. -/
def beside (disk : Disk) (directory : Path) : Disk :=
  disk.keep fun path => decide (¬ IsInside directory path)

variable {other : Disk} {directory : Path}

theorem at?_beside (disk : Disk) (outside : ¬ IsInside directory path) :
    (disk.beside directory).at? path = disk.at? path :=
  at?_keep disk (decide_eq_true outside)

/-- What is not in a directory stays where only the directory is changed. -/
theorem at?_of_beside (same : other.beside directory = disk.beside directory)
    (outside : ¬ IsInside directory path) : other.at? path = disk.at? path := by
  rw [← at?_beside other outside, same, at?_beside disk outside]

theorem not_isInside_of_length_le (short : path.length ≤ directory.length) :
    ¬ IsInside directory path := by
  rintro ⟨down, proper⟩
  exact proper (down.eq_of_length_le short).symm

theorem not_isInside_above (up : path <+: directory) : ¬ IsInside directory path :=
  not_isInside_of_length_le up.length_le

theorem IsReached.of_beside (same : other.beside directory = disk.beside directory)
    (reached : disk.IsReached directory) : other.IsReached directory := by
  intro above up
  rw [at?_of_beside same (not_isInside_above up)]
  exact reached above up

/-- Two directories of which neither is in the other. -/
def AreApart (directory directory' : Path) : Prop :=
  ¬ directory <+: directory' ∧ ¬ directory' <+: directory

theorem AreApart.of_names {parent : Path} {name name' : String} (different : name ≠ name') :
    AreApart (parent ++ [name]) (parent ++ [name']) := by
  constructor
  · intro down
    have same : parent ++ [name] = parent ++ [name'] := down.eq_of_length (by simp)
    exact different (by simpa using same)
  · intro up
    have same : parent ++ [name'] = parent ++ [name] := up.eq_of_length (by simp)
    exact different.symm (by simpa using same)

theorem AreApart.not_isInside {directory' : Path} (apart : AreApart directory directory')
    (near : directory' <+: path ∨ path <+: directory') : ¬ IsInside directory path := by
  rintro ⟨down, -⟩
  rcases near with below | above
  · exact (List.prefix_or_prefix_of_prefix down below).elim apart.1 apart.2
  · exact apart.1 (down.trans above)

/-- A change in one directory leaves another as it was. -/
theorem within_of_beside {directory' : Path} (apart : AreApart directory directory')
    (same : other.beside directory = disk.beside directory) :
    other.within directory' = disk.within directory' := by
  refine keep_eq_of_keep_eq same fun path near => ?_
  exact decide_eq_true (apart.not_isInside (of_decide_eq_true near))

/-- A change in a directory leaves the names beside it as they were. -/
theorem names_of_beside {parent : Path} {name : String}
    (same : other.beside (parent ++ [name]) = disk.beside (parent ++ [name])) :
    other.names parent = disk.names parent := by
  have above : ∀ above, above <+: parent →
      decide (¬ IsInside (parent ++ [name]) above) = true := fun above up =>
    decide_eq_true (not_isInside_above (up.trans (List.prefix_append ..)))
  have children : ∀ child, decide (¬ IsInside (parent ++ [name]) (parent ++ [child])) = true := by
    intro child
    refine decide_eq_true ?_
    rintro ⟨down, proper⟩
    exact proper (down.eq_of_length (by simp)).symm
  rw [← names_keep other above children, ← names_keep disk above children]
  exact congrArg (fun part : Disk => part.names parent) same

theorem at?_within (disk : Disk) (near : directory <+: path ∨ path <+: directory) :
    (disk.within directory).at? path = disk.at? path :=
  at?_keep disk (decide_eq_true near)

/-- What stands above, at or in a directory is told by the directory alone. -/
theorem at?_of_within (same : other.within directory = disk.within directory)
    (near : directory <+: path ∨ path <+: directory) : other.at? path = disk.at? path := by
  rw [← at?_within other near, same, at?_within disk near]

theorem IsReached.of_within (same : other.within directory = disk.within directory)
    (reached : disk.IsReached directory) : other.IsReached directory := by
  intro above up
  rw [at?_of_within same (.inr up)]
  exact reached above up

theorem near_of_above {above : Path} (inside : directory <+: path) (up : above <+: path) :
    decide (directory <+: above ∨ above <+: directory) = true :=
  decide_eq_true (List.prefix_or_prefix_of_prefix inside up)

/-- A file in a directory is read off the directory alone. -/
theorem readJson_of_within {α : Type} {reader : Json → Option α}
    (same : other.within directory = disk.within directory) (inside : directory <+: path) :
    other.readJson path reader = disk.readJson path reader := by
  rw [← readJson_keep other reader fun _ => near_of_above inside,
    ← readJson_keep disk reader fun _ => near_of_above inside]
  exact congrArg (fun part : Disk => part.readJson path reader) same

theorem missing_of_within (same : other.within directory = disk.within directory)
    (inside : directory <+: path) : other.missing path = disk.missing path := by
  rw [← missing_keep other fun _ => near_of_above inside,
    ← missing_keep disk fun _ => near_of_above inside]
  exact congrArg (fun part : Disk => part.missing path) same

theorem names_of_within (same : other.within directory = disk.within directory)
    (inside : directory <+: path) : other.names path = disk.names path := by
  have children (name : String) :
      decide (directory <+: path ++ [name] ∨ path ++ [name] <+: directory) = true :=
    decide_eq_true (.inl (inside.trans (List.prefix_append ..)))
  rw [← names_keep other (fun _ => near_of_above inside) children,
    ← names_keep disk (fun _ => near_of_above inside) children]
  exact congrArg (fun part : Disk => part.names path) same

end Disk

/-! ## Changes in a directory -/

namespace Change

open Disk (IsInside)

/-- A change of a file in a directory. -/
def IsWithin (directory : Path) : Change → Prop
  | .makeDirectories _ => False
  | .write path _ _ => IsInside directory path
  | .remove path => IsInside directory path

variable {change : Change} {directory : Path} {disk made : Disk}

/-- A change in a directory acts on the directory alone as it does on the disk. -/
theorem apply_within (inside : change.IsWithin directory) (disk : Disk) :
    change.apply (disk.within directory) = (change.apply disk).map (·.within directory) := by
  cases change with
  | makeDirectories => cases inside
  | write path content =>
      exact disk.write_keep content fun _ => Disk.near_of_above inside.1
  | remove path => exact disk.remove_keep fun _ => Disk.near_of_above inside.1

/-- A change in a directory that stands leaves all else as it was. -/
theorem beside_of_apply (inside : change.IsWithin directory) (reached : disk.IsReached directory)
    (ok : change.apply disk = .ok made) : made.beside directory = disk.beside directory := by
  cases change with
  | makeDirectories => cases inside
  | write path content =>
      refine Disk.keep_write (decide_eq_false (not_not_intro inside)) (fun above up kept => ?_) ok
      have outside : ¬ IsInside directory above := of_decide_eq_true kept
      rcases List.prefix_or_prefix_of_prefix inside.1 (up.trans (List.dropLast_prefix path)) with
        down | higher
      · by_cases here : above = directory
        · exact reached above (here ▸ List.prefix_refl _)
        · exact absurd ⟨down, here⟩ outside
      · exact reached above higher
  | remove path => exact Disk.keep_remove (decide_eq_false (not_not_intro inside)) ok

end Change
end DurableRuns
