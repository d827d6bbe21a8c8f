/-
# DurableRuns.Proofs.Recovery.Listing -- the directories that a recovery takes on

On a disk that is a tree, the directories that are listed are those right under the root that hold
a record as a file, each once and in ascending order (`mem_listRuns`, `listRuns_ascending`).  What
is changed in one of them, its record staying a file, leaves the list as it was
(`listRuns_of_changesOnly`).
-/
import DurableRuns.Proofs.Disk.Tree
import DurableRuns.Proofs.Run.Local
import DurableRuns.Recovery.Coordinator

namespace DurableRuns

set_option autoImplicit false

namespace Disk

variable {disk : Disk} {directory : Path} {names : List String}

/-- The names in a directory of a tree are plain. -/
theorem IsTree.isStep_of_mem_names (tree : disk.IsTree) (listed : disk.names directory = .ok names)
    {name : String} (inside : name ∈ names) : Place.IsStep name := by
  rw [mem_names listed] at inside
  exact tree.plain _ inside name (by simp)

/-- A directory of a tree holds no name twice. -/
theorem IsTree.nodup_names (tree : disk.IsTree) (listed : disk.names directory = .ok names) :
    names.Nodup := by
  unfold Disk.names at listed
  split at listed
  next =>
    obtain rfl := Except.ok.inj listed
    have paths : disk.entries.Pairwise fun a b => a.1 ≠ b.1 := List.pairwise_map.1 tree.unique
    refine paths.filterMap _ fun a b apart name here other there same => ?_
    simp only [Option.ite_none_right_eq_some] at here there
    exact apart ((eq_append_iff.1 here).trans (same ▸ (eq_append_iff.1 there).symm))
  next => cases listed
  next => cases listed

end Disk

namespace Coordinator

open RunFiles

variable {disk : Disk} {root : Place} {places : List Place}

/-- What is listed are names in the root directory, or there is no root directory. -/
theorem listRuns_cases (listed : listRuns disk root = .ok places) :
    (∃ names, disk.names root.path = .ok names ∧
        places = ((names.mergeSort fun a b => decide (a ≤ b)).map root.join).filter fun place =>
          disk.isDirectory place.path && isRun disk place) ∨
      disk.names root.path = .error .notFound ∧ places = [] := by
  unfold listRuns at listed
  split at listed
  next missing =>
    cases listed
    exact .inr ⟨missing, rfl⟩
  next => cases listed
  next names found =>
    cases listed
    exact .inl ⟨names, found, rfl⟩

theorem isRun_of_listed (listed : listRuns disk root = .ok places) {place : Place}
    (inside : place ∈ places) : isRun disk place = true := by
  rcases listRuns_cases listed with ⟨names, -, rfl⟩ | ⟨-, rfl⟩
  · exact (Bool.and_eq_true_iff.1 (List.mem_filter.1 inside).2).2
  · cases inside

/-- The directories that are listed are those under the root that hold a record as a file. -/
theorem mem_listRuns (tree : disk.IsTree) (listed : listRuns disk root = .ok places)
    (place : Place) :
    place ∈ places ↔ (∃ name, Place.IsStep name ∧ place = root.join name) ∧
      disk.isDirectory place.path = true ∧ isRun disk place = true := by
  rcases listRuns_cases listed with ⟨names, found, rfl⟩ | ⟨missing, rfl⟩
  · simp only [List.mem_filter, List.mem_map, List.mem_mergeSort, Bool.and_eq_true]
    refine and_congr_left fun stands => ⟨?_, ?_⟩
    · rintro ⟨name, inside, rfl⟩
      exact ⟨name, tree.isStep_of_mem_names found inside, rfl⟩
    · rintro ⟨name, plain, rfl⟩
      refine ⟨name, ?_, rfl⟩
      rw [Disk.mem_names found, ← root.path_join plain]
      have directory : disk.at? (root.join name).path = some .directory :=
        of_decide_eq_true stands.1
      simp [directory]
  · simp only [List.not_mem_nil, false_iff]
    rintro ⟨⟨name, plain, rfl⟩, directory, -⟩
    have stands : disk.at? (root.join name).path = some .directory := of_decide_eq_true directory
    rw [root.path_join plain] at stands
    have above := tree.isReached stands root.path (List.prefix_append ..)
    rw [Disk.names, above] at missing
    cases missing

/-- The directories are listed in ascending order, each once. -/
theorem listRuns_ascending (tree : disk.IsTree) (listed : listRuns disk root = .ok places) :
    places.Pairwise fun a b => a.path < b.path := by
  rcases listRuns_cases listed with ⟨names, found, rfl⟩ | ⟨-, rfl⟩
  · refine (List.pairwise_map.2 ?_).filter _
    have sorted : (names.mergeSort fun a b => decide (a ≤ b)).Pairwise fun a b =>
        decide (a ≤ b) = true := by
      refine List.pairwise_mergeSort (fun a b c first second => ?_) (fun a b => ?_) names
      · exact decide_eq_true (String.le_trans (of_decide_eq_true first) (of_decide_eq_true second))
      · simpa using String.le_total a b
    have once : (names.mergeSort fun a b => decide (a ≤ b)).Nodup :=
      (List.mergeSort_perm names _).nodup_iff.2 (tree.nodup_names found)
    refine (sorted.and once).imp_of_mem fun {a b} first second ordered => ?_
    have plain {name : String} (inside : name ∈ names.mergeSort fun a b => decide (a ≤ b)) :
        Place.IsStep name := tree.isStep_of_mem_names found (List.mem_mergeSort.1 inside)
    rw [root.path_join (plain first), root.path_join (plain second)]
    refine List.append_left_lt (List.cons_lt_cons_iff.2 (.inl (String.not_le.1 fun back => ?_)))
    exact ordered.2 (String.le_antisymm (of_decide_eq_true ordered.1) back)
  · exact .nil

/-- Changes in one of the directories, whose record stays a file, leave the list as it was. -/
theorem listRuns_of_changesOnly {machine after : Machine} {place : Place} {name : String}
    (plain : ∀ names, machine.disk.names root.path = .ok names →
      ∀ other ∈ names, Place.IsStep other)
    (child : place.path = root.path ++ [name]) (holds : isRun machine.disk place = true)
    (changes : machine.ChangesOnly place after) :
    listRuns after.disk root = listRuns machine.disk root := by
  have beside := changes.beside
  rw [child] at beside
  have names := Disk.names_of_beside beside
  unfold listRuns
  rw [names]
  cases found : machine.disk.names root.path with
  | error fault => cases fault <;> rfl
  | ok listed =>
      simp only []
      congr 1
      refine List.filter_congr fun other inside => ?_
      obtain ⟨sibling, within, rfl⟩ := List.mem_map.1 inside
      have step := plain listed found sibling (List.mem_mergeSort.1 within)
      have path := root.path_join step
      have directory : after.disk.isDirectory (root.join sibling).path =
          machine.disk.isDirectory (root.join sibling).path := by
        rw [Disk.isDirectory, Disk.isDirectory, path,
          Disk.at?_of_beside beside (Disk.not_isInside_of_length_le (by simp))]
      have record :
          isRun after.disk (root.join sibling) = isRun machine.disk (root.join sibling) := by
        by_cases same : sibling = name
        · have here : (recordFile (root.join sibling)).path = (recordFile place).path := by
            rw [path_recordFile, path_recordFile, path, child, same]
          unfold isRun at holds ⊢
          rw [here, holds]
          exact changes.record holds
        · have apart : Disk.AreApart (root.path ++ [name]) (root.path ++ [sibling]) :=
            .of_names (Ne.symm same)
          rw [isRun, isRun, Disk.isFile, Disk.isFile, path_recordFile, path,
            Disk.at?_of_beside beside (apart.not_isInside (.inl (List.prefix_append ..)))]
      rw [directory, record]

end Coordinator
end DurableRuns
