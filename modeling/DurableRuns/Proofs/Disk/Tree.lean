/-
# DurableRuns.Proofs.Disk.Tree -- disks that are trees of files

A disk is kept as a list of paths.  It is a tree (`Disk.IsTree`) if it lists no path twice, what it
lists stands in a directory, and the names are names that a file can have.  An empty disk is one,
and every change at a path of plain names leaves one (`Disk.IsTree.apply`), so no run ever sees
another disk.
-/
import DurableRuns.Proofs.Disk.Entries
import DurableRuns.Proofs.Disk.Places

namespace DurableRuns

set_option autoImplicit false

/-- The path that a change is about. -/
def Change.path : Change → Path
  | .makeDirectories path => path
  | .write path _ _ => path
  | .remove path => path

namespace Disk

/-- A disk lists each path once, under plain names, and what it lists stands in a directory. -/
structure IsTree (disk : Disk) : Prop where
  unique : (disk.entries.map Prod.fst).Nodup
  plain : ∀ path, disk.at? path ≠ none → ∀ name ∈ path, Place.IsStep name
  rooted : ∀ path, disk.at? path ≠ none → disk.IsReached path.dropLast

variable {disk made : Disk} {path : Path}

theorem isReached_root (disk : Disk) : disk.IsReached [] := by
  intro above up
  obtain rfl := List.prefix_nil.1 up
  rfl

namespace IsTree

theorem empty : Disk.empty.IsTree := by
  have root (path : Path) (stands : Disk.empty.at? path ≠ none) : path = [] :=
    Decidable.byContradiction fun below => stands (at?_eq_lookup _ below)
  constructor
  case unique => exact List.nodup_nil
  case plain =>
    intro path stands
    simp [root path stands]
  case rooted =>
    intro path stands
    rw [root path stands]
    exact isReached_root _

/-- A directory that stands is reached. -/
theorem isReached (tree : disk.IsTree) (stands : disk.at? path = some .directory) :
    disk.IsReached path := by
  intro above up
  by_cases top : path = []
  · exact isReached_root disk above (top ▸ up)
  · rw [← List.dropLast_concat_getLast top] at up
    rcases List.prefix_concat_iff.1 up with here | higher
    · rw [here, List.dropLast_concat_getLast top]
      exact stands
    · exact tree.rooted path (by rw [stands]; nofun) above higher

end IsTree

/-! ## Changes -/

theorem map_setIn (path : Path) (entry : Entry) (entries : List (Path × Entry)) :
    (setIn path entry entries).map Prod.fst =
      if path ∈ entries.map Prod.fst then entries.map Prod.fst
      else entries.map Prod.fst ++ [path] := by
  induction entries with
  | nil => simp [setIn]
  | cons first rest ih =>
      rw [setIn]
      by_cases here : first.1 = path
      · simp [here]
      · rw [if_neg here, List.map_cons, ih, List.map_cons]
        by_cases later : path ∈ rest.map Prod.fst
        · rw [if_pos later, if_pos (List.mem_cons_of_mem _ later)]
        · rw [if_neg later, if_neg (by simp [Ne.symm here, later]), List.cons_append]

namespace IsTree

/-- An entry of plain names is set where its directory stands, and where no directory is lost. -/
theorem set (tree : disk.IsTree) {entry : Entry} (below : path ≠ [])
    (names : ∀ name ∈ path, Place.IsStep name) (reached : disk.IsReached path.dropLast)
    (kept : disk.at? path = some .directory → entry = .directory) :
    (disk.set path entry).IsTree := by
  have still {directory : Path} (stood : disk.IsReached directory) :
      (disk.set path entry).IsReached directory := by
    intro above up
    rw [at?_set disk below]
    split
    next same => rw [kept (same ▸ stood above up)]
    next => exact stood above up
  constructor
  case unique =>
    have keys := map_setIn path entry disk.entries
    rw [Disk.set, keys]
    split
    next => exact tree.unique
    next fresh =>
      refine List.nodup_append.2 ⟨tree.unique, by simp, fun other inside new added same => ?_⟩
      exact fresh (List.mem_singleton.1 added ▸ same ▸ inside)
  case plain =>
    intro other stands
    rw [at?_set disk below] at stands
    split at stands
    next same => exact same ▸ names
    next => exact tree.plain other stands
  case rooted =>
    intro other stands
    rw [at?_set disk below] at stands
    split at stands
    next same => exact still (same ▸ reached)
    next => exact still (tree.rooted other stands)

theorem makeDirectoriesFrom (tree : disk.IsTree) {base : Path} {names : List String}
    (plain : ∀ name ∈ base ++ names, Place.IsStep name) (reached : disk.IsReached base)
    (ok : disk.makeDirectoriesFrom base names = .ok made) :
    made.IsTree ∧ made.IsReached (base ++ names) := by
  induction names generalizing base disk with
  | nil =>
      obtain rfl := Except.ok.inj ok
      rw [List.append_nil]
      exact ⟨tree, reached⟩
  | cons name rest ih =>
      have shape : base ++ name :: rest = base ++ [name] ++ rest := by simp
      rw [shape] at plain ⊢
      rw [Disk.makeDirectoriesFrom] at ok
      split at ok
      next stands => exact ih tree plain (tree.isReached stands) ok
      next => cases ok
      next nothing =>
        have set : (disk.set (base ++ [name]) .directory).IsTree := by
          refine tree.set (by simp) (fun name inside => plain name ?_) ?_ fun _ => rfl
          · exact List.mem_append_left _ inside
          · rwa [List.dropLast_concat]
        refine ih set plain (set.isReached ?_) ok
        rw [at?_set disk (by simp), if_pos rfl]

theorem makeDirectories (tree : disk.IsTree) (plain : ∀ name ∈ path, Place.IsStep name)
    (ok : disk.makeDirectories path = .ok made) : made.IsTree ∧ made.IsReached path :=
  tree.makeDirectoriesFrom plain (isReached_root disk) ok

theorem erase (tree : disk.IsTree) {content : Bytes}
    (file : disk.at? path = some (.file content)) : (disk.erase path).IsTree := by
  have below : path ≠ [] := by
    rintro rfl
    cases file
  have stood {other : Path} (stands : (disk.erase path).at? other ≠ none) :
      disk.at? other ≠ none := by
    rw [at?_erase disk below] at stands
    split at stands
    next => exact absurd rfl stands
    next => exact stands
  constructor
  case unique =>
    refine tree.unique.sublist ?_
    exact List.filter_sublist.map Prod.fst
  case plain => exact fun other stands => tree.plain other (stood stands)
  case rooted =>
    intro other stands above up
    have directory := tree.rooted other (stood stands) above up
    rw [at?_erase disk below, if_neg, directory]
    rintro rfl
    cases directory.symm.trans file

/-- A change at a path of plain names leaves a tree. -/
theorem apply (tree : disk.IsTree) {change : Change}
    (plain : ∀ name ∈ change.path, Place.IsStep name) (ok : change.apply disk = .ok made) :
    made.IsTree := by
  cases change with
  | makeDirectories path => exact (tree.makeDirectories plain ok).1
  | remove path =>
      obtain ⟨⟨content, file⟩, rfl⟩ := remove_steps ok
      exact tree.erase file
  | write path content =>
      obtain ⟨top, between, directories, free, rfl⟩ := write_steps ok
      obtain ⟨tree', reached⟩ := tree.makeDirectories
        (fun name inside => plain name (List.dropLast_subset path inside)) directories
      exact tree'.set top plain reached fun stands => absurd stands free

/-- Changes at paths of plain names leave a tree. -/
theorem replay (tree : disk.IsTree) {changes : List Change}
    (plain : ∀ change ∈ changes, ∀ name ∈ change.path, Place.IsStep name)
    (ok : disk.replay changes = .ok made) : made.IsTree :=
  replay_preserves (fun change inside _ _ before => before.apply (plain change inside)) ok tree

end IsTree
end Disk
end DurableRuns
