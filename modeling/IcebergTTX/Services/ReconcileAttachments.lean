import IcebergTTX.Routers.Attachments

/-!
# Reconciliation of attachments

The command {lit}`app/reconcile_attachments.py`: it asks for the rows that name a file, then
looks for the files below the attachment root, reports what has only a row or only a file, and
removes the latter when it is told to apply.  Between these three it holds no lock.  That a
removal raises is left out, and so is the audit event.

Main results:

- Definition {lit}`reconcile`: the report, and the files that are left.
- Structure {lit}`Lists`: what the search for files finds.
- Theorem {lit}`reconcile_eq_none_iff`: which files go, whatever is written meanwhile.
- Theorem {lit}`tidy_reconcile`, {lit}`reconcile_of_tidy`: what is left where nobody writes.
-/

namespace IcebergTTX.Attachments

/-! ## The command -/

/-- {lit}`str(path)` of an absolute path. -/
def Path.absoluteStr (path : Path) : String :=
  "/" ++ "/".intercalate path.parts

/-- {lit}`root.resolve()` of the attachment root. -/
def Host.root (host : Host) : Path :=
  attachmentRoot.resolve host.workingDirectory

/-- {lit}`_under_root`. -/
def underRoot (path root : Path) : Bool :=
  root = path ∨ root.isParentOf path

/-- {lit}`referenced`: the paths that rows name, where they lie below the root. -/
def referenced (host : Host) (injects : List Inject) : List Path :=
  (((injects.filterMap fun inject => nonEmpty inject.attachmentPath).map fun text =>
    (Path.ofString text).resolve host.workingDirectory).filter (underRoot · host.root)).dedup

/-- {lit}`sorted` on paths. -/
def sortedPaths (paths : List Path) : List Path :=
  paths.insertionSort (·.parts ≤ ·.parts)

/-- What the command prints. -/
structure Reconciliation where
  dryRun : Bool
  missingFiles : List String
  orphanFiles : List String
  removedFiles : List String
deriving DecidableEq, Repr

/-- {lit}`path.unlink(missing_ok=True)` for one path after the other. -/
def unlinkAll (paths : List Path) (files : Files) : Files :=
  paths.foldl (fun files path => Function.update files path none) files

/-- {lit}`reconcile`, for the rows that its query returns, the files that it finds, and the
files that there are when it starts to remove. -/
def reconcile (host : Host) (apply : Bool) (injects : List Inject) (existing : List Path)
    (files : Files) : Reconciliation × Files :=
  let referenced := referenced host injects
  let missing := sortedStrings ((referenced.filter (· ∉ existing)).map Path.absoluteStr)
  let orphans := sortedPaths (existing.filter (· ∉ referenced))
  let removed := if apply then orphans.filter (underRoot · host.root) else []
  (⟨!apply, missing, orphans.map Path.absoluteStr, removed.map Path.absoluteStr⟩,
    unlinkAll removed files)

/-! ## Files and rows -/

/-- {lit}`rglob` finds each file below the root once. -/
structure Lists (root : Path) (files : Files) (existing : List Path) : Prop where
  nodup : existing.Nodup
  mem_iff : ∀ path, path ∈ existing ↔ root.isParentOf path ∧ (files path).isSome

/-- A row names this path. -/
def Names (host : Host) (injects : List Inject) (path : Path) : Prop :=
  ∃ inject ∈ injects, ∃ text, nonEmpty inject.attachmentPath = some text ∧
    (Path.ofString text).resolve host.workingDirectory = path

/-- Every file below the root is named by a row. -/
def Tidy (host : Host) (injects : List Inject) (files : Files) : Prop :=
  ∀ path, host.root.isParentOf path → (files path).isSome → Names host injects path

variable {host : Host} {injects : List Inject} {existing : List Path} {files : Files}
  {path : Path} {apply : Bool}

theorem underRoot_of_isParentOf {root : Path} (h : root.isParentOf path) : underRoot path root :=
  decide_eq_true (.inr h)

theorem mem_referenced :
    path ∈ referenced host injects ↔ Names host injects path ∧ underRoot path host.root := by
  rw [referenced, List.mem_dedup, List.mem_filter]
  refine and_congr_left fun _ => ?_
  simp only [List.mem_map, List.mem_filterMap, Names]
  constructor
  · rintro ⟨text, ⟨inject, hinject, htext⟩, rfl⟩
    exact ⟨inject, hinject, text, htext, rfl⟩
  · rintro ⟨inject, hinject, text, htext, rfl⟩
    exact ⟨text, ⟨inject, hinject, htext⟩, rfl⟩

theorem Names.mono {injects' : List Inject} (h : Names host injects path)
    (hsubset : injects ⊆ injects') : Names host injects' path := by
  obtain ⟨inject, hinject, hpath⟩ := h
  exact ⟨inject, hsubset hinject, hpath⟩

theorem unlinkAll_apply (paths : List Path) (files : Files) (path : Path) :
    unlinkAll paths files path = if path ∈ paths then none else files path := by
  induction paths generalizing files with
  | nil => rfl
  | cons first rest ih =>
      rw [unlinkAll, List.foldl_cons]
      refine (ih (Function.update files first none)).trans ?_
      by_cases hfirst : path = first
      · subst hfirst
        simp
      · simp [hfirst]

/-- The files that are left: those that are gone were found, and no row named them. -/
theorem reconcile_apply :
    (reconcile host apply injects existing files).2 path =
      if apply ∧ path ∈ existing ∧ path ∉ referenced host injects ∧ underRoot path host.root
      then none else files path := by
  rw [reconcile]
  dsimp only
  rw [unlinkAll_apply]
  refine if_congr ?_ rfl rfl
  cases apply with
  | false => simp
  | true =>
      simp only [if_true, true_and, List.mem_filter, sortedPaths, List.mem_insertionSort,
        decide_eq_true_eq, and_assoc]

/-- Whatever is written before the removals begin: a path that was not found, or that a row
named when the query was made, or that is not below the root, keeps its file. -/
theorem reconcile_keeps
    (h : path ∉ existing ∨ Names host injects path ∨ underRoot path host.root = false) :
    (reconcile host apply injects existing files).2 path = files path := by
  rw [reconcile_apply, if_neg]
  rintro ⟨-, hfound, hunnamed, hunder⟩
  rcases h with h | h | h
  · exact h hfound
  · exact hunnamed (mem_referenced.mpr ⟨h, hunder⟩)
  · simp [h] at hunder

/-- Of the files that there are when the removals begin, those go that were found and that no
row named when the query was made, even if their rows have been committed since. -/
theorem reconcile_eq_none_iff {found : Files} (hlists : Lists host.root found existing)
    (hfile : (files path).isSome) :
    (reconcile host true injects existing files).2 path = none ↔
      path ∈ existing ∧ ¬ Names host injects path := by
  rw [reconcile_apply]
  constructor
  · intro hgone
    split at hgone
    · rename_i hremoved
      obtain ⟨-, hfound, hunreferenced, hunder⟩ := hremoved
      exact ⟨hfound, fun hnamed => hunreferenced (mem_referenced.mpr ⟨hnamed, hunder⟩)⟩
    · rw [hgone] at hfile
      cases hfile
  · rintro ⟨hfound, hunnamed⟩
    exact if_pos ⟨rfl, hfound, fun h => hunnamed (mem_referenced.mp h).1,
      underRoot_of_isParentOf ((hlists.mem_iff path).mp hfound).1⟩

/-- A run that is applied while nobody writes leaves no file without a row. -/
theorem tidy_reconcile (hlists : Lists host.root files existing) :
    Tidy host injects (reconcile host true injects existing files).2 := by
  intro path hbelow hfile
  by_contra hunnamed
  rw [reconcile_apply] at hfile
  split at hfile
  · cases hfile
  · rename_i hkept
    exact hkept ⟨rfl, (hlists.mem_iff path).mpr ⟨hbelow, hfile⟩,
      fun hnamed => hunnamed (mem_referenced.mp hnamed).1, underRoot_of_isParentOf hbelow⟩

/-- Where every file has its row there is nothing to remove. -/
theorem reconcile_of_tidy (htidy : Tidy host injects files)
    (hlists : Lists host.root files existing) :
    (reconcile host apply injects existing files).2 = files ∧
      (reconcile host apply injects existing files).1.orphanFiles = [] := by
  have hnamed : ∀ path ∈ existing, path ∈ referenced host injects := by
    intro path hpath
    obtain ⟨hbelow, hfile⟩ := (hlists.mem_iff path).mp hpath
    exact mem_referenced.mpr ⟨htidy path hbelow hfile, underRoot_of_isParentOf hbelow⟩
  constructor
  · funext path
    rw [reconcile_apply, if_neg]
    rintro ⟨-, hfound, hunnamed, -⟩
    exact hunnamed (hnamed path hfound)
  · have hnone : existing.filter (· ∉ referenced host injects) = [] :=
      List.filter_eq_nil_iff.mpr fun path hpath => by simp [hnamed path hpath]
    rw [reconcile]
    dsimp only
    rw [hnone]
    rfl

/-- No row is reported exactly if each that names a path below the root has its file. -/
theorem missingFiles_eq_nil_iff (hlists : Lists host.root files existing) :
    (reconcile host apply injects existing files).1.missingFiles = [] ↔
      ∀ path, Names host injects path → underRoot path host.root →
        host.root.isParentOf path ∧ (files path).isSome := by
  have hsorted (texts : List String) : sortedStrings texts = [] ↔ texts = [] := by
    rw [sortedStrings, ← List.length_eq_zero_iff, List.length_insertionSort,
      List.length_eq_zero_iff]
  rw [reconcile]
  dsimp only
  rw [hsorted, List.map_eq_nil_iff, List.filter_eq_nil_iff]
  simp only [decide_eq_true_eq, not_not, mem_referenced, hlists.mem_iff, and_imp]

end IcebergTTX.Attachments
