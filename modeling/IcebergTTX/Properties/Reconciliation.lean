import IcebergTTX.Properties.Attachments
import IcebergTTX.Services.ReconcileAttachments
import Mathlib.Logic.Relation

/-!
# Interrupted uploads are cleared away

Requests that create injects with attachments can leave a part of an upload without a row, or a
row without its upload.  The command that reconciles the two removes the first kind and reports
the second.  Here requests and commands run one after the other, in any number and order, and
whatever is raised in the requests, each of which is one step; an inject may be deleted, and its
file taken away or left.

Main results:

- Theorem {lit}`leaves_create`: what a request leaves behind.
- Theorem {lit}`Kept.step`: what a request or a command keeps.
- Theorem {lit}`reconciliation_sound`: no file that a row names between requests is lost or
  changed, and a command at the end leaves no other.
-/

namespace IcebergTTX.Attachments

open Transactions

section

variable {host : Host} {plan : Plan Point Raised} {user : CurrentUser}
  {body : CreateInjectRequest} {exerciseId : Nat} {uuid : Uuid4} {file : UploadFile}
  {files : Files} {db : Db} {path : Path}

/-- A request changes no file but that of its upload, and adds no row or one that names it. -/
structure Confined (host : Host) (exerciseId : Nat) (uuid : Uuid4) (file : UploadFile)
    (before after : Site Files Db) : Prop where
  outside : ∀ path, path ≠ storedAt host exerciseId uuid file →
    after.outside path = before.outside path
  injects : after.committed.injects = before.committed.injects ∨
    ∃ row : Inject, row.attachmentPath = some (storedMeta host exerciseId uuid file).path ∧
      after.committed.injects = before.committed.injects ++ [row]

theorem put_outside_of_ne {content : Bytes} {site : Site Files Db} {other : Path}
    (h : other ≠ path) : (put path content site).outside other = site.outside other :=
  Function.update_of_ne h ..

theorem confined_put (content : Bytes) (site : Site Files Db) :
    Confined host exerciseId uuid file site
      (put (storedAt host exerciseId uuid file) content site) :=
  ⟨fun _ hother => put_outside_of_ne hother, .inl rfl⟩

/-- Whichever operations raise, the request is confined to its upload and its row. -/
theorem leaves_create (hfresh : files (storedAt host exerciseId uuid file) = none) :
    Confined host exerciseId uuid file ⟨files, db, db⟩
      ((create host plan user body exerciseId uuid (some file)).outcome ⟨files, db, db⟩).2 := by
  have hchecks : Leaves (fun _ site' => site' = ⟨files, db, db⟩)
      (statements plan .check (createChecks user body)) ⟨files, db, db⟩ :=
    leaves_statements_of_looks (looks_createChecks user body)
  show Leaves (fun _ after => Confined host exerciseId uuid file ⟨files, db, db⟩ after) _ _
  refine leaves_bind.mpr (hchecks.mono ?_)
  rintro answer site rfl
  cases answer with
  | error raised => exact ⟨fun _ _ => rfl, .inl rfl⟩
  | ok checked =>
      refine leaves_bind.mpr ((leaves_saveAttachment hfresh).mono ?_)
      rintro answer site hsaved
      cases hsaved with
      | discarded => exact ⟨fun _ _ => rfl, .inl rfl⟩
      | left _ _ raised content => exact confined_put content ⟨files, db, db⟩
      | stored =>
          refine (leaves_createRow storedMeta_path hfresh).mono ?_
          intro answer after hend
          have hkept (p : Prop) [Decidable p] : ∀ path,
              path ≠ storedAt host exerciseId uuid file →
                (if p then files
                  else (put (storedAt host exerciseId uuid file) file.bytes
                    ⟨files, db, db⟩).outside) path = files path := by
            intro path hpath
            split
            · rfl
            · exact put_outside_of_ne hpath
          cases huncommitted : raisesUncommitted plan with
          | some raised =>
              rw [huncommitted] at hend
              obtain ⟨hinjects, houtside⟩ := hend
              exact ⟨fun path hpath => houtside ▸ hkept _ path hpath, .inl hinjects⟩
          | none =>
              rw [huncommitted] at hend
              obtain ⟨⟨row, hrow, hinjects⟩, houtside⟩ := hend
              exact ⟨fun path hpath => houtside ▸ hkept _ path hpath, .inr ⟨row, hrow, hinjects⟩⟩

end

/-! ## Requests and commands -/

/-- One step on the files and the inject rows of all exercises: an upload to one of the exercises
under a new name, with the outcome of its request; a commit of another request; the file of an
inject that has been deleted is taken away; or the command.  Only injects with files of
{lit}`gone` are deleted. -/
inductive UpkeepStep (host : Host) (gone : Path → Prop) :
    Files × List Inject → Files × List Inject → Prop where
  | create (plan : Plan Point Raised) (user : CurrentUser) (body : CreateInjectRequest)
      (exerciseId : Nat) (uuid : Uuid4) (file : UploadFile) {files : Files}
      {others : List Inject} {db : Db} {after : Site Files Db}
      (hfresh : files (storedAt host exerciseId uuid file) = none)
      (hunnamed : ¬ Names host (others ++ db.injects) (storedAt host exerciseId uuid file))
      (hafter : ((create host plan user body exerciseId uuid (some file)).outcome
        ⟨files, db, db⟩).2 = after) :
    UpkeepStep host gone (files, others ++ db.injects)
      (after.outside, others ++ after.committed.injects)
  | commit {files : Files} {rows rows' : List Inject}
      (hnames : ∀ path, ¬ gone path → Names host rows path → Names host rows' path) :
    UpkeepStep host gone (files, rows) (files, rows')
  | delete {files : Files} {rows : List Inject} {path : Path} (hgone : gone path)
      (hbelow : host.root.isParentOf path) :
    UpkeepStep host gone (files, rows) (Function.update files path none, rows)
  | reconcile (apply : Bool) {files : Files} {rows : List Inject} {existing : List Path}
      (hlists : Lists host.root files existing) :
    UpkeepStep host gone (files, rows) ((reconcile host apply rows existing files).2, rows)

/-- What rows name they go on to name, and its files stay, as do those that are not below the
root. -/
structure Kept (host : Host) (gone : Path → Prop) (start state : Files × List Inject) : Prop where
  names : ∀ path, ¬ gone path → Names host start.2 path → Names host state.2 path
  named : ∀ path, ¬ gone path → Names host start.2 path → state.1 path = start.1 path
  outside : ∀ path, host.root.isParentOf path = false → state.1 path = start.1 path

section

variable {host : Host} {gone : Path → Prop} {files files' : Files}
  {rows rows' : List Inject} {existing : List Path}

theorem isParentOf_storedAt (host : Host) (exerciseId : Nat) (uuid : Uuid4) (file : UploadFile) :
    host.root.isParentOf (storedAt host exerciseId uuid file) :=
  isParentOf_storagePath host.workingDirectory

/-- Nothing has happened. -/
theorem Kept.refl (state : Files × List Inject) : Kept host gone state state :=
  ⟨fun _ _ => id, fun _ _ _ => rfl, fun _ _ => rfl⟩

/-- Step lemma: what has been kept is kept. -/
theorem Kept.step {start state state' : Files × List Inject} (h : Kept host gone start state)
    (hstep : UpkeepStep host gone state state') : Kept host gone start state' := by
  cases hstep with
  | @create plan user body exerciseId uuid file files others db after hfresh hunnamed hafter =>
      have hconfined : Confined host exerciseId uuid file ⟨files, db, db⟩ after :=
        hafter ▸ leaves_create hfresh
      have hsubset : others ++ db.injects ⊆ others ++ after.committed.injects := by
        rcases hconfined.injects with hsame | ⟨row, -, hadded⟩
        · exact hsame ▸ List.Subset.refl _
        · rw [hadded, ← List.append_assoc]
          exact List.subset_append_left _ _
      refine ⟨fun path hkept hpath => (h.names path hkept hpath).mono hsubset,
        fun path hkept hpath => ?_, fun path hpath => ?_⟩
      · have hother : path ≠ storedAt host exerciseId uuid file := by
          rintro rfl
          exact hunnamed (h.names _ hkept hpath)
        exact (hconfined.outside path hother).trans (h.named path hkept hpath)
      · have hother : path ≠ storedAt host exerciseId uuid file := by
          rintro rfl
          rw [isParentOf_storedAt] at hpath
          cases hpath
        exact (hconfined.outside path hother).trans (h.outside path hpath)
  | commit hnames =>
      exact ⟨fun path hkept hpath => hnames path hkept (h.names path hkept hpath), h.named,
        h.outside⟩
  | @delete files rows deleted hgone hbelow =>
      refine ⟨h.names, fun path hkept hpath => ?_, fun path hpath => ?_⟩
      · have hother : path ≠ deleted := by
          rintro rfl
          exact hkept hgone
        exact (Function.update_of_ne hother _ _).trans (h.named path hkept hpath)
      · have hother : path ≠ deleted := by
          rintro rfl
          rw [hbelow] at hpath
          cases hpath
        exact (Function.update_of_ne hother _ _).trans (h.outside path hpath)
  | reconcile apply hlists =>
      refine ⟨h.names, fun path hkept hpath => ?_, fun path hpath => ?_⟩
      · exact (reconcile_keeps (.inr (.inl (h.names path hkept hpath)))).trans
          (h.named path hkept hpath)
      · refine (reconcile_keeps (.inl fun hfound => ?_)).trans (h.outside path hpath)
        rw [((hlists.mem_iff path).mp hfound).1] at hpath
        cases hpath

/-- Run lemma. -/
theorem Kept.of_run {start state : Files × List Inject}
    (hrun : Relation.ReflTransGen (UpkeepStep host gone) start state) :
    Kept host gone start state := by
  induction hrun with
  | refl => exact Kept.refl start
  | tail _ hstep ih => exact ih.step hstep

/-- However many uploads are made and interrupted, injects are deleted, and however often the
command runs between them: what a row names between two requests it goes on to name, and its file
is neither lost nor changed by the requests and commands that follow, unless the inject is
deleted.  The command that is then applied keeps all files that rows name; leaves no file
below the root that no row names; has nothing to report exactly if each row whose path is under
the root has its file; finds no file to remove when it is run again; and leaves the files as they
were when there was no such file before, those of deleted injects apart, if no further one has
come to be named.  Where files are written before it removes what it found, those go that had no
row when it asked. -/
theorem reconciliation_sound
    (hrun : Relation.ReflTransGen (UpkeepStep host gone) (files, rows) (files', rows'))
    (hlists : Lists host.root files' existing) :
    (∀ path, ¬ gone path → Names host rows path →
      Names host rows' path ∧ files' path = files path) ∧
    (∀ (written : Files) (path : Path), (written path).isSome →
      ((reconcile host true rows' existing written).2 path = none ↔
        path ∈ existing ∧ ¬ Names host rows' path)) ∧
    ∀ report files'', reconcile host true rows' existing files' = (report, files'') →
      (∀ path, Names host rows' path → files'' path = files' path) ∧
      Tidy host rows' files'' ∧
      (report.missingFiles = [] ↔ ∀ path, Names host rows' path →
        underRoot path host.root → host.root.isParentOf path ∧ (files' path).isSome) ∧
      (∀ existing', Lists host.root files'' existing' →
        (reconcile host true rows' existing' files'').2 = files'' ∧
        (reconcile host true rows' existing' files'').1.orphanFiles = []) ∧
      (Tidy host rows files →
        (∀ path, Names host rows' path → Names host rows path) →
        ∀ path, ¬ gone path → files'' path = files path) := by
  have hkept := Kept.of_run hrun
  refine ⟨fun path hstays hpath =>
      ⟨hkept.names path hstays hpath, hkept.named path hstays hpath⟩,
    fun written path hfile => reconcile_eq_none_iff hlists hfile,
    fun report files'' hreconcile => ?_⟩
  have htidy : Tidy host rows' files'' := by
    have hreconciled : Tidy host rows' (reconcile host true rows' existing files').2 :=
      tidy_reconcile hlists
    rwa [hreconcile] at hreconciled
  have hnamed : ∀ path, Names host rows' path → files'' path = files' path := by
    intro path hpath
    have hsame : (reconcile host true rows' existing files').2 path = files' path :=
      reconcile_keeps (.inr (.inl hpath))
    rwa [hreconcile] at hsame
  refine ⟨hnamed, htidy, ?_, fun existing' => reconcile_of_tidy htidy,
    fun hbefore hsame path hstays => ?_⟩
  · rw [← missingFiles_eq_nil_iff hlists, hreconcile]
  · by_cases hpath : Names host rows path
    · exact (hnamed path (hkept.names path hstays hpath)).trans (hkept.named path hstays hpath)
    by_cases hbelow : host.root.isParentOf path
    · have hnone {content : Option Bytes} (h : ¬ content.isSome) : content = none := by
        simpa using h
      rw [hnone fun hfile => hpath (hsame path (htidy path hbelow hfile)),
        hnone fun hfile => hpath (hbefore path hbelow hfile)]
    · have houtside : (reconcile host true rows' existing files').2 path = files' path :=
        reconcile_keeps (.inl fun hfound => hbelow ((hlists.mem_iff path).mp hfound).1)
      rw [hreconcile] at houtside
      exact houtside.trans (hkept.outside path (by simpa using hbelow))

end

/-- A full disk leaves a part of an upload, and the command removes it. -/
theorem reconciliation_sound_sample :
    ∃ (files : Files) (rows : List Inject) (path : Path),
      Relation.ReflTransGen (UpkeepStep sampleHost fun _ => False)
        (sampleSite.outside, sampleSite.committed.injects) (files, rows) ∧
      (files path).isSome ∧ Lists sampleHost.root files [path] ∧
      (reconcile sampleHost true rows [path] files).2 = sampleSite.outside := by
  let path : Path := storedAt sampleHost 7 sampleUuid sampleUpload
  have hnone : ∀ inject ∈ sampleSite.committed.injects,
      nonEmpty inject.attachmentPath = none := by
    decide +kernel
  obtain ⟨after, hafter⟩ : ∃ after, ((create sampleHost diskFull sampleOwner sampleRequest 7
      sampleUuid (some sampleUpload)).outcome sampleSite).2 = after := ⟨_, rfl⟩
  have hleft : (after.outside path).isSome := hafter ▸ (by decide +kernel)
  have hinjects : after.committed.injects = sampleSite.committed.injects :=
    hafter ▸ (by decide +kernel)
  have hconfined : Confined sampleHost 7 sampleUuid sampleUpload sampleSite after :=
    hafter ▸ leaves_create rfl
  have hlists : Lists sampleHost.root after.outside [path] := by
    refine ⟨List.nodup_singleton path, fun other => ?_⟩
    rw [List.mem_singleton]
    constructor
    · rintro rfl
      exact ⟨isParentOf_storedAt sampleHost 7 sampleUuid sampleUpload, hleft⟩
    · rintro ⟨-, hfile⟩
      by_contra hother
      rw [hconfined.outside other hother] at hfile
      cases hfile
  have hrun : Relation.ReflTransGen (UpkeepStep sampleHost fun _ => False)
      (sampleSite.outside, sampleSite.committed.injects)
      (after.outside, after.committed.injects) := by
    refine .single (@UpkeepStep.create _ _ diskFull sampleOwner sampleRequest 7 sampleUuid
      sampleUpload sampleSite.outside [] sampleSite.committed after rfl ?_ hafter)
    rintro ⟨inject, hinject, text, htext, -⟩
    rw [hnone inject hinject] at htext
    cases htext
  refine ⟨after.outside, after.committed.injects, path, hrun, hleft, hlists, funext fun other => ?_⟩
  obtain ⟨-, -, -, -, hrestored⟩ := (reconciliation_sound hrun hlists).2.2 _ _ rfl
  refine hrestored (fun _ _ hfile => absurd hfile Bool.false_ne_true) (fun _ hnamed => ?_) other id
  rwa [hinjects] at hnamed

end IcebergTTX.Attachments
