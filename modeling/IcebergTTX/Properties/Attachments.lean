import IcebergTTX.Properties.Launch
import IcebergTTX.Routers.Attachments

/-!
# Attachments and their rows

A request that creates an inject with an attachment, each of whose operations may raise, before
it takes effect or after.  Two handlers take the file back.  The one around the upload is for
HTTP errors only, so a full disk or a cancellation leaves a part of the upload.  The one around
{lit}`create_inject` does not ask whether the row has been committed, so a refresh that fails
takes the file of a row that stays.

Main results:

- Definition {lit}`Together`: a row with its file, or neither.
- Inductive {lit}`Covered`: what the handlers make up for, said of what is raised.
- Theorem {lit}`leaves_saveAttachment`: the three ways in which storing an upload ends.
- Theorem {lit}`attachment_together_iff`: when row and file stand or fall together.
- Theorem {lit}`create_unplanned`: where nothing is raised, the request is the route on the
  database with the stored attachment.
-/

namespace IcebergTTX.Attachments

open Transactions

/-! ## Paths that are stored -/

/-- A part of a path that reads back as itself and leads down. -/
structure IsPlain (part : String) : Prop where
  slash : '/' ∉ part.toList
  letter : ∃ c ∈ part.toList, c ≠ '.'

namespace IsPlain

variable {part : String}

/-- A plain part is not empty. -/
theorem ne_empty (h : IsPlain part) : part ≠ "" := by
  rintro rfl
  obtain ⟨c, hc, -⟩ := h.letter
  simp at hc

/-- A plain part is not the current directory. -/
theorem ne_dot (h : IsPlain part) : part ≠ "." := by
  rintro rfl
  obtain ⟨c, hc, hdot⟩ := h.letter
  simp at hc
  exact hdot hc

/-- Nor is it the parent. -/
theorem ne_dots (h : IsPlain part) : part ≠ ".." := by
  rintro rfl
  obtain ⟨c, hc, hdot⟩ := h.letter
  simp at hc
  exact hdot hc

/-- A word of plain characters with a number or an underscore in it is plain. -/
theorem of_mem {c : Char} (hslash : '/' ∉ part.toList) (hc : c ∈ part.toList) (hdot : c ≠ '.') :
    IsPlain part :=
  ⟨hslash, c, hc, hdot⟩

/-- A number is a plain part. -/
theorem toString (n : Nat) : IsPlain (toString n) := by
  have hdigits : (ToString.toString n).toList = Nat.toDigits 10 n := Nat.toList_repr
  have hdigit : ∀ c ∈ (ToString.toString n).toList, c.isDigit := by
    intro c hc
    rw [hdigits] at hc
    exact Nat.isDigit_of_mem_toDigits (by decide) (by decide) hc
  obtain ⟨c, hc⟩ := List.exists_mem_of_ne_nil _ (hdigits ▸ Nat.toDigits_ne_nil)
  refine of_mem (fun hslash => absurd (hdigit _ hslash) (by decide)) hc ?_
  rintro rfl
  exact absurd (hdigit _ hc) (by decide)

end IsPlain

namespace Path

/-- A path of plain parts is read back. -/
theorem ofString_str {path : Path} (hne : path.parts ≠ [])
    (h : ∀ part ∈ path.parts, IsPlain part) : ofString path.str = path := by
  have hslash : ∀ part ∈ path.parts.map String.toList, '/' ∉ part := by
    intro part hpart
    obtain ⟨text, htext, rfl⟩ := List.mem_map.mp hpart
    exact (h text htext).slash
  have hsplit : path.str.toList.splitOn '/' = path.parts.map String.toList := by
    rw [str, if_neg hne, String.toList_intercalate]
    exact List.splitOn_intercalate '/' hslash (by simpa using hne)
  have hread : (path.parts.map String.toList).map String.ofList = path.parts := by
    simp [Function.comp_def]
  rw [ofString, hsplit, hread, List.filter_eq_self.mpr]
  exact fun part hpart => decide_eq_true ⟨(h part hpart).ne_empty, (h part hpart).ne_dot⟩

/-- A plain part is read as one part. -/
theorem ofString_plain {part : String} (h : IsPlain part) : ofString part = ⟨[part]⟩ := by
  have hstr : (⟨[part]⟩ : Path).str = part := by simp [str]
  have hread : ofString (⟨[part]⟩ : Path).str = ⟨[part]⟩ :=
    ofString_str (by simp) (by simpa using h)
  rwa [hstr] at hread

/-- A path of plain parts is looked up below the working directory. -/
theorem resolve_eq {path : Path} (h : ∀ part ∈ path.parts, IsPlain part)
    (workingDirectory : Path) :
    path.resolve workingDirectory = ⟨workingDirectory.parts ++ path.parts⟩ := by
  unfold resolve
  congr 1
  generalize workingDirectory.parts = done
  generalize path.parts = parts at h ⊢
  induction parts generalizing done with
  | nil => exact (List.append_nil done).symm
  | cons part rest ih =>
      have hpart : IsPlain part := h part List.mem_cons_self
      rw [List.foldl_cons, if_neg hpart.ne_dots,
        ih _ fun other hother => h other (List.mem_cons_of_mem part hother)]
      simp

end Path

/-- A safe filename has only characters of filenames. -/
theorem isFilenameChar_of_mem_safeFilename {filename : Option String} {c : Char}
    (hc : c ∈ (safeFilename filename).toList) : isFilenameChar c := by
  unfold safeFilename at hc
  dsimp only at hc
  split at hc
  · have hall : "attachment".toList.all isFilenameChar := by decide +kernel
    exact List.all_eq_true.mp hall c hc
  · rw [String.toList_ofList] at hc
    have hmem := (List.dropWhile_subset _) (List.rdropWhile_prefix _ _ |>.subset hc)
    rcases Text.collapse_symbols false _ c hmem with hkeep | rfl
    · exact hkeep
    · decide

variable {exerciseId : Nat} {uuid : Uuid4} {filename : Option String}

/-- The name of a stored file is a plain part. -/
theorem isPlain_storedName (uuid : Uuid4) (filename : Option String) :
    IsPlain (uuid.hex ++ "_" ++ safeFilename filename) := by
  refine .of_mem (c := '_') ?_ (by simp) (by decide)
  simp only [String.toList_append, List.mem_append, not_or]
  refine ⟨⟨fun h => absurd (uuid.digits _ h) (by decide), by decide⟩, fun h => ?_⟩
  exact absurd (isFilenameChar_of_mem_safeFilename h) (by decide)

/-- The parts of the path that an upload is stored under. -/
theorem storagePath_parts (exerciseId : Nat) (uuid : Uuid4) (filename : Option String) :
    ∃ filename', (storagePath exerciseId uuid filename).parts = ["uploads",
      "inject_attachments", toString exerciseId, uuid.hex ++ "_" ++ safeFilename filename'] := by
  have hroot : attachmentRoot = ⟨["uploads", "inject_attachments"]⟩ := by decide
  refine ⟨some (Path.ofString ((nonEmpty filename).getD "attachment")).name, ?_⟩
  rw [storagePath, storageDir, Path.child, Path.child, Path.ofString_plain (.toString exerciseId),
    Path.ofString_plain (isPlain_storedName uuid _), hroot]
  rfl

/-- The path of a stored file is of plain parts. -/
theorem isPlain_of_mem_storagePath :
    ∀ part ∈ (storagePath exerciseId uuid filename).parts, IsPlain part := by
  obtain ⟨filename', hparts⟩ := storagePath_parts exerciseId uuid filename
  have huploads : IsPlain "uploads" := .of_mem (c := 'u') (by decide) (by decide) (by decide)
  have hattachments : IsPlain "inject_attachments" :=
    .of_mem (c := 'i') (by decide) (by decide) (by decide)
  rw [hparts]
  simp only [List.mem_cons, List.not_mem_nil, or_false]
  rintro part (rfl | rfl | rfl | rfl)
  · exact huploads
  · exact hattachments
  · exact .toString exerciseId
  · exact isPlain_storedName uuid filename'

/-- The path that a row names is the path that was written. -/
theorem ofString_storagePath :
    Path.ofString (storagePath exerciseId uuid filename).str =
      storagePath exerciseId uuid filename := by
  refine Path.ofString_str ?_ isPlain_of_mem_storagePath
  obtain ⟨filename', hparts⟩ := storagePath_parts exerciseId uuid filename
  rw [hparts]
  exact List.cons_ne_nil _ _

/-- An upload is stored below the attachment root. -/
theorem isParentOf_storagePath (workingDirectory : Path) :
    (attachmentRoot.resolve workingDirectory).isParentOf
      ((storagePath exerciseId uuid filename).resolve workingDirectory) := by
  obtain ⟨filename', hparts⟩ := storagePath_parts exerciseId uuid filename
  have hroot : attachmentRoot.parts = ["uploads", "inject_attachments"] := by decide
  have hsplit : (storagePath exerciseId uuid filename).parts = attachmentRoot.parts ++
      [toString exerciseId, uuid.hex ++ "_" ++ safeFilename filename'] := by
    rw [hparts, hroot]
    rfl
  have hplain : ∀ part ∈ attachmentRoot.parts, IsPlain part := fun part hpart =>
    isPlain_of_mem_storagePath part (hsplit ▸ List.mem_append_left _ hpart)
  rw [Path.resolve_eq isPlain_of_mem_storagePath, Path.resolve_eq hplain, hsplit]
  refine decide_eq_true ⟨?_, fun heq => ?_⟩
  · exact (List.prefix_append_right_inj _).mpr (List.prefix_append _ _)
  · simp at heq

/-! ## The disk -/

section Disk

variable {path : Path} {content : Bytes} {site : Site Files Db}

/-- A file that is put is there. -/
@[simp]
theorem put_outside_self (path : Path) (content : Bytes) (site : Site Files Db) :
    (put path content site).outside path = some content :=
  Function.update_self ..

/-- An edit of a file that is put puts the edited one. -/
@[simp]
theorem edit_put (f : Bytes → Bytes) : edit path f (put path content site) =
    put path (f content) site := by
  simp [edit, put]

/-- A fresh file that is put and removed was never there. -/
@[simp]
theorem remove_put (hfresh : site.outside path = none) :
    remove path (put path content site) = site := by
  simp [remove, put, ← hfresh]

/-- What is removed is there no more. -/
theorem remove_outside (path : Path) (site : Site Files Db) :
    (remove path site).outside = Function.update site.outside path none :=
  rfl

/-- What is not there need not be removed. -/
theorem remove_of_fresh (hfresh : site.outside path = none) : remove path site = site := by
  simp [remove, ← hfresh]

end Disk

/-! ## What a plan comes to -/

/-- The points of the loop over the chunks, in order: a chunk is read and, below the cap,
written. -/
def copyPoints : Nat → Nat → List Bytes → List Point
  | n, _, [] => [.read n]
  | n, size, chunk :: rest =>
    .read n ::
      if size + chunk.length > maxAttachmentBytes then []
      else .write n :: copyPoints (n + 1) (size + chunk.length) rest

/-- What is raised for the size of an upload. -/
def raisesForSize (size : Nat) : Option Raised :=
  if size > maxAttachmentBytes then some tooLarge else none

variable (plan : Plan Point Raised) (file : UploadFile)

/-- What is raised from the opening of the file to its closing; the closing comes last, and
hides what was raised before. -/
def raisesWriting : Option Raised :=
  match plan.raises .openFile with
  | some raised => some raised
  | none =>
    (plan.raises .closeFile).or
      ((plan.raisesFirst (copyPoints 0 0 file.reads)).or (raisesForSize file.bytes.length))

/-- The upload is stored whole and the request goes on to the row. -/
structure Stored : Prop where
  mkdir : plan.raises .mkdir = none
  writing : raisesWriting plan file = none
  closeUpload : plan.raises .closeUpload = none

/-- The request fails before there is a file, or with an HTTP error while it is written and
the file is taken back. -/
inductive Discarded : Prop where
  | mkdir {raised : Raised} (h : plan.raises .mkdir = some raised)
  | openFile (h : plan.happens .openFile = false)
  | unlink {raised : Raised} (h : raisesWriting plan file = some raised)
      (hhttp : raised.isHttp) (hunlink : plan.happens .unlink)

/-- What keeps the row from being committed. -/
def raisesUncommitted : Option Raised :=
  (plan.raises .insert).or (if plan.happens .commit then none else plan.raises .commit)

/-- What is raised by {lit}`create_inject` though the row is committed. -/
def raisesCommitted : Option Raised :=
  (plan.raises .commit).or (plan.raises .refresh)

/-- The file can be taken back once it has been stored. -/
def Deletes : Prop :=
  plan.raises .resolve = none ∧ plan.happens .delete

instance : Decidable (Deletes plan) :=
  inferInstanceAs (Decidable (_ ∧ _))

/-- What goes wrong is covered by the handlers of the request. -/
inductive Covered : Prop where
  /-- The upload fails, and leaves no file. -/
  | discarded (h : Discarded plan file)
  /-- The row is not committed, and the handler takes the file back. -/
  | compensated {raised : Raised} (h : Stored plan file)
      (huncommitted : raisesUncommitted plan = some raised) (hcaught : raised.isException)
      (hdeletes : Deletes plan)
  /-- The row is committed, and no handler takes the file away. -/
  | kept (h : Stored plan file) (hcommitted : raisesUncommitted plan = none)
      (hkept : ∀ raised, raisesCommitted plan = some raised → raised.isException →
        ¬ Deletes plan)

/-! ## Storing the upload -/

section Storing

variable {plan : Plan Point Raised} {file : UploadFile} {path : Path} {site : Site Files Db}

/-- The loop over the chunks: below the cap and where nothing is raised, they are all written. -/
theorem leaves_copyChunks {n size : Nat} (digested content : Bytes) {chunks : List Bytes}
    (hsize : size ≤ maxAttachmentBytes) :
    Leaves (fun answer site' =>
      match (plan.raisesFirst (copyPoints n size chunks)).or
        (raisesForSize (size + chunks.flatten.length)) with
      | none =>
          answer = .ok (size + chunks.flatten.length, digested ++ chunks.flatten) ∧
            site' = put path (content ++ chunks.flatten) site
      | some raised => answer = .error raised ∧ ∃ content', site' = put path content' site)
      (copyChunks plan path n size digested chunks) (put path content site) := by
  induction chunks generalizing n size digested content with
  | nil =>
      refine leaves_bind.mpr (leaves_pass.mpr ?_)
      have hbelow : raisesForSize size = none := if_neg hsize.not_gt
      cases hread : plan.raises (.read n) with
      | none => simpa [copyPoints, hread, hbelow] using ⟨rfl, rfl⟩
      | some raised => simpa [copyPoints, hread] using ⟨content, rfl⟩
  | cons chunk rest ih =>
      refine leaves_bind.mpr (leaves_pass.mpr ?_)
      cases hread : plan.raises (.read n) with
      | some raised => simpa [copyPoints, hread] using ⟨content, rfl⟩
      | none =>
          by_cases hcap : size + chunk.length > maxAttachmentBytes
          · have habove : raisesForSize (size + (chunk :: rest).flatten.length) =
                some tooLarge := by
              refine if_pos ?_
              rw [List.flatten_cons, List.length_append]
              omega
            simp only [copyPoints, if_pos hcap, Plan.raisesFirst_cons, hread, Plan.raisesFirst_nil,
              Option.or_none, habove, Option.none_or]
            exact ⟨rfl, content, rfl⟩
          · simp only [copyPoints, if_neg hcap, Plan.raisesFirst_cons, hread, Option.none_or]
            refine leaves_bind.mpr (leaves_act (fun hwrite => ?_) fun raised done hwrite => ?_)
            · have hrest := ih (n := n + 1) (digested ++ chunk) (content ++ chunk)
                (not_lt.mp hcap)
              simpa [hwrite, List.flatten_cons, Nat.add_assoc] using hrest
            · simpa [hwrite] using ⟨_, rfl⟩

/-- The file is written whole, or not at all where it cannot be opened, or in part. -/
theorem leaves_writeFile :
    Leaves (fun answer site' =>
      match raisesWriting plan file with
      | none =>
          answer = .ok (file.bytes.length, file.bytes) ∧ site' = put path file.bytes site
      | some raised =>
          answer = .error raised ∧
            if plan.happens .openFile then ∃ content, site' = put path content site
            else site' = site)
      (writeFile plan path file) site := by
  refine leaves_bind.mpr (leaves_perform.mpr ?_)
  unfold raisesWriting
  cases hopen : plan.raises .openFile with
  | some raised =>
      refine ⟨rfl, ?_⟩
      split
      · exact ⟨[], rfl⟩
      · rfl
  | none =>
      have hhappens : plan.happens .openFile := Plan.happens_of_raises hopen
      simp only [if_pos hhappens]
      refine leaves_tryFinally.mpr ((leaves_copyChunks [] [] (Nat.zero_le _)).mono ?_)
      intro answer site' hcopy
      simp only [Nat.zero_add, List.nil_append] at hcopy
      have hwritten : ∃ content, site' = put path content site := by
        split at hcopy
        · exact ⟨_, hcopy.2⟩
        · exact hcopy.2
      refine leaves_act (fun hclose => ?_) fun raised done hclose => ?_
      · rw [hclose, Option.none_or]
        exact hcopy
      · obtain ⟨content, rfl⟩ := hwritten
        rw [hclose, Option.some_or]
        exact ⟨rfl, content.take done, edit_put _⟩

variable {host : Host} {exerciseId : Nat} {uuid : Uuid4}

/-- What the request knows of an upload that has been stored. -/
def storedMeta (host : Host) (exerciseId : Nat) (uuid : Uuid4) (file : UploadFile) :
    AttachmentMeta where
  filename := (Path.ofString ((nonEmpty file.filename).getD "attachment")).name
  contentType := normalizeContentType host file.contentType
  path := (storagePath exerciseId uuid file.filename).str
  size := file.bytes.length
  sha256 := host.sha256 file.bytes

/-- The row names the path that the file is stored under. -/
theorem storedMeta_path : (storedMeta host exerciseId uuid file).path =
    (storagePath exerciseId uuid file.filename).str := by
  rw [storedMeta]

/-- The absolute path of the file that an upload is stored in. -/
def storedAt (host : Host) (exerciseId : Nat) (uuid : Uuid4) (file : UploadFile) : Path :=
  (storagePath exerciseId uuid file.filename).resolve host.workingDirectory

/-- The ways in which {lit}`_save_attachment` ends. -/
inductive Saved (host : Host) (plan : Plan Point Raised) (exerciseId : Nat) (uuid : Uuid4)
    (file : UploadFile) (site : Site Files Db) :
    Except Raised (Option AttachmentMeta) → Site Files Db → Prop where
  | stored (h : Stored plan file) :
      Saved host plan exerciseId uuid file site
        (.ok (some (storedMeta host exerciseId uuid file)))
        (put (storedAt host exerciseId uuid file) file.bytes site)
  | discarded (h : Discarded plan file) (raised : Raised) :
      Saved host plan exerciseId uuid file site (.error raised) site
  | left (h : ¬ Stored plan file) (h' : ¬ Discarded plan file) (raised : Raised)
      (content : Bytes) :
      Saved host plan exerciseId uuid file site (.error raised)
        (put (storedAt host exerciseId uuid file) content site)

/-- When nothing raises on writing, the file is opened. -/
theorem raises_openFile_of_raisesWriting (h : raisesWriting plan file = none) :
    plan.raises .openFile = none := by
  unfold raisesWriting at h
  split at h
  · cases h
  · assumption

/-- An upload that is written whole is not given up. -/
theorem not_discarded (hmkdir : plan.raises .mkdir = none)
    (hwriting : raisesWriting plan file = none) : ¬ Discarded plan file := by
  have hopen := Plan.happens_of_raises (raises_openFile_of_raisesWriting hwriting)
  rintro (h | h | ⟨h, -⟩)
  · cases hmkdir.symm.trans h
  · cases hopen.symm.trans h
  · cases hwriting.symm.trans h

/-- What the upload raises, {lit}`_save_attachment` raises with its file taken back, or with
what is there of it. -/
theorem leaves_unlink {raised : Raised} {site' : Site Files Db}
    (hfresh : site.outside (storedAt host exerciseId uuid file) = none)
    (hmkdir : plan.raises .mkdir = none) (hwriting : raisesWriting plan file = some raised)
    (hfile : if plan.happens .openFile then
        ∃ content, site' = put (storedAt host exerciseId uuid file) content site
      else site' = site) :
    Leaves (fun answer site' => ∃ raised', answer = .error raised' ∧
        ∀ last, Saved host plan exerciseId uuid file site (.error last) site')
      (do
        if raised.isHttp then
          plan.perform .unlink (remove (storedAt host exerciseId uuid file))
        throw raised : Storing (Nat × Bytes)) site' := by
  have hback : raised.isHttp → plan.happens .unlink → ∀ last,
      Saved host plan exerciseId uuid file site (.error last)
        (remove (storedAt host exerciseId uuid file) site') := by
    intro hhttp hunlink last
    have hremoved : remove (storedAt host exerciseId uuid file) site' = site := by
      split at hfile
      · obtain ⟨content, rfl⟩ := hfile
        exact remove_put hfresh
      · rw [hfile]
        exact remove_of_fresh hfresh
    rw [hremoved]
    exact .discarded (.unlink hwriting hhttp hunlink) last
  have hthere : ¬ (raised.isHttp ∧ plan.happens .unlink) → ∀ last,
      Saved host plan exerciseId uuid file site (.error last) site' := by
    intro hnot last
    split at hfile
    · rename_i hopen
      obtain ⟨content, rfl⟩ := hfile
      refine .left (fun h => ?_) (fun h => ?_) last content
      · cases h.writing.symm.trans hwriting
      · cases h with
        | mkdir h => cases hmkdir.symm.trans h
        | openFile h => cases hopen.symm.trans h
        | unlink h hhttp hunlink =>
            cases hwriting.symm.trans h
            exact hnot ⟨hhttp, hunlink⟩
    · rename_i hopen
      rw [hfile]
      exact .discarded (.openFile (Bool.eq_false_of_not_eq_true hopen)) last
  by_cases hhttp : raised.isHttp
  · rw [if_pos hhttp]
    refine leaves_bind.mpr (leaves_perform.mpr ?_)
    by_cases hunlink : plan.happens .unlink
    · rw [if_pos hunlink]
      cases plan.raises .unlink with
      | none => exact ⟨raised, rfl, hback hhttp hunlink⟩
      | some last => exact ⟨last, rfl, hback hhttp hunlink⟩
    · rw [if_neg hunlink]
      have hthere := hthere fun h => hunlink h.2
      cases plan.raises .unlink with
      | none => exact ⟨raised, rfl, hthere⟩
      | some last => exact ⟨last, rfl, hthere⟩
  · rw [if_neg hhttp]
    exact ⟨raised, rfl, hthere fun h => hhttp h.1⟩

/-- An upload is stored, or leaves no file, or leaves a file that nothing refers to. -/
theorem leaves_saveAttachment (hfresh : site.outside (storedAt host exerciseId uuid file) = none) :
    Leaves (Saved host plan exerciseId uuid file site)
      (saveAttachment host plan exerciseId uuid (some file)) site := by
  refine leaves_bind.mpr (leaves_pass.mpr ?_)
  cases hmkdir : plan.raises .mkdir with
  | some raised => exact .discarded (.mkdir hmkdir) raised
  | none =>
      dsimp only
      refine leaves_bind.mpr (leaves_tryFinally.mpr (leaves_tryCatch.mpr ?_))
      refine leaves_writeFile.mono ?_
      intro answer site' hwrite
      cases hwriting : raisesWriting plan file with
      | none =>
          rw [hwriting] at hwrite
          obtain ⟨rfl, rfl⟩ := hwrite
          refine leaves_pass.mpr ?_
          cases hclose : plan.raises .closeUpload with
          | none => exact .stored ⟨hmkdir, hwriting, hclose⟩
          | some raised =>
              refine .left (fun h => ?_) (not_discarded hmkdir hwriting) raised file.bytes
              cases h.closeUpload.symm.trans hclose
      | some raised =>
          rw [hwriting] at hwrite
          obtain ⟨rfl, hfile⟩ := hwrite
          refine (leaves_unlink hfresh hmkdir hwriting hfile).mono ?_
          rintro answer site' ⟨raised', rfl, hsaved⟩
          refine leaves_pass.mpr ?_
          cases plan.raises .closeUpload with
          | none => exact hsaved raised'
          | some last => exact hsaved last

/-! ## Creating the row -/

variable {body : CreateInjectRequest} {exercise : Exercise} {targetTeams : Option (List String)}
  {groupId : Option String} {attachment : Option AttachmentMeta}

variable (body exercise targetTeams groupId attachment) in
/-- The statements of {lit}`create_inject`: one row under the id that it draws, committed and
read again. -/
theorem createInjectRefreshed_eq :
    ∃ row : Nat → Inject, (∀ id, (row id).attachmentPath = attachment.map (·.path)) ∧
      (∀ id, (row id).id = id) ∧
        createInjectRefreshed body exercise targetTeams groupId attachment =
          Prog.nextval fun id => Prog.write (·.insertInject (row id)) (Prog.commit
            (Prog.query fun s =>
              Prog.ret (((s.inject? id).map .ok).getD (.error .noResultFound)))) := by
  refine ⟨fun id => newInject id body.title body.content body.scenarioNodeId targetTeams groupId
    body.sequenceOrder none attachment (exercise.state ≠ .draft), fun _ => rfl, fun _ => rfl, ?_⟩
  refine congrArg Prog.nextval (funext fun id => congrArg (Prog.write _) (congrArg Prog.commit
    (congrArg Prog.query (funext fun s => ?_))))
  beta_reduce
  cases s.inject? id <;> rfl

/-- The row is committed or it is not, whatever is raised; no file changes. -/
theorem leaves_createInjectRefreshed :
    Leaves (fun answer site' => site'.outside = site.outside ∧
      match raisesUncommitted plan with
      | some raised =>
          answer = .error raised ∧ site'.committed.injects = site.committed.injects
      | none =>
          (∃ row : Inject, row.attachmentPath = attachment.map (·.path) ∧
            site'.committed.injects = site.view.injects ++ [row]) ∧
          match raisesCommitted plan with
          | some raised => answer = .error raised
          | none => ∃ inject, answer = .ok inject)
      (statements plan createPoint
        (createInjectRefreshed body exercise targetTeams groupId attachment)) site := by
  obtain ⟨row, hpath, hid, hprog⟩ := createInjectRefreshed_eq body exercise targetTeams groupId
    attachment
  unfold raisesUncommitted raisesCommitted
  rw [statements, hprog]
  refine leaves_bind.mpr (leaves_attempt_nextval.mpr ?_)
  generalize Ambient.next site.committed = id
  cases hinsert : plan.raises .insert with
  | some raised =>
      simp only [createPoint, hinsert, Option.some_or]
      split <;> exact ⟨rfl, trivial, rfl⟩
  | none =>
      simp only [createPoint, hinsert, Option.none_or]
      refine leaves_attempt_write.mpr ?_
      simp only [createPoint, hinsert]
      refine leaves_attempt_commit.mpr ?_
      simp only [createPoint]
      have hrow : ∃ row' : Inject, row'.attachmentPath = attachment.map (·.path) ∧
          (site.bump.write (·.insertInject (row id))).commit.committed.injects =
            site.view.injects ++ [row'] := ⟨row id, hpath id, rfl⟩
      cases hcommit : plan.raises .commit with
      | some raised =>
          by_cases hhappens : plan.happens .commit
          · simp only [if_pos hhappens, Option.some_or]
            exact ⟨rfl, hrow, trivial⟩
          · simp only [if_neg hhappens]
            exact ⟨rfl, trivial, rfl⟩
      | none =>
          simp only [if_pos (Plan.happens_of_raises hcommit), Option.none_or]
          refine leaves_attempt_query.mpr ?_
          simp only [createPoint]
          cases hrefresh : plan.raises .refresh with
          | some raised => exact ⟨rfl, hrow, rfl⟩
          | none =>
              obtain ⟨inject, hfound⟩ : ∃ inject,
                  (site.bump.write (·.insertInject (row id))).commit.view.inject? id =
                    some inject := by
                show ∃ inject, (site.bump.view.insertInject (row id)).inject? id = some inject
                rw [Db.inject?_insertInject, if_pos (hid id)]
                exact Option.isSome_iff_exists.mp (by simp)
              rw [hfound]
              exact ⟨rfl, hrow, inject, rfl⟩

/-! ## Taking the file back -/

/-- The stored file is taken back, or left where the disk cannot do it. -/
theorem leaves_deleteAttachmentPath {text : String}
    (htext : text = (storagePath exerciseId uuid file.filename).str) :
    Leaves (fun _ site' => site' =
        if Deletes plan then remove (storedAt host exerciseId uuid file) site else site)
      (deleteAttachmentPath host plan (some text)) site := by
  have hpath : Path.ofString text = storagePath exerciseId uuid file.filename := by
    rw [htext]
    exact ofString_storagePath
  have hnamed : nonEmpty (some text) = some text := by
    refine Option.filter_eq_some_iff.mpr ⟨rfl, decide_eq_true fun hempty => ?_⟩
    obtain ⟨filename', hparts⟩ := storagePath_parts exerciseId uuid file.filename
    rw [hempty] at hpath
    rw [← hpath] at hparts
    exact absurd hparts (by simp [Path.ofString])
  unfold deleteAttachmentPath
  rw [hnamed]
  simp only [hpath]
  refine leaves_tryCatch.mpr ?_
  refine Leaves.mono (Q := fun _ site' => site' =
    if Deletes plan then remove (storedAt host exerciseId uuid file) site else site) ?_ ?_
  · refine leaves_bind.mpr (leaves_pass.mpr ?_)
    cases hresolve : plan.raises .resolve with
    | some raised =>
        have hnot : ¬ Deletes plan := fun h => by cases h.1.symm.trans hresolve
        exact (if_neg hnot).symm
    | none =>
        dsimp only
        rw [if_pos (isParentOf_storagePath host.workingDirectory)]
        have hdeletes : Deletes plan ↔ plan.happens .delete := and_iff_right hresolve
        simp only [hdeletes]
        refine leaves_perform_bind.mpr ?_
        cases hdelete : plan.raises .delete with
        | some raised => rfl
        | none =>
            rw [if_pos (Plan.happens_of_raises hdelete)]
            refine leaves_pass.mpr ?_
            cases plan.raises .removeDirectory <;> rfl
  · rintro (e | a) site' hsite
    · by_cases hdisk : e.isDiskError
      · simp only [if_pos hdisk]
        exact hsite
      · simp only [if_neg hdisk]
        exact hsite
    · exact hsite

/-! ## The request -/

/-- The checks of a creation only look. -/
theorem looks_createChecks (user : CurrentUser) (body : CreateInjectRequest) :
    Looks (createChecks user body) := by
  refine looks_bind (looks_of_reads (reads_requireRole _ _)) fun _ => ?_
  refine looks_bind (looks_of_reads (reads_requireExerciseAccess _)) fun _ => ?_
  refine looks_bind (looks_of_reads (reads_requireOperationalMutability _)) fun _ => ?_
  refine looks_bind (looks_lockConfigurationOwner _) fun _ => ?_
  refine looks_bind (looks_of_reads (reads_requireOperationalMutability _)) fun _ => ?_
  refine looks_bind (looks_of_reads (reads_validateTeamIds _ _ _)) fun _ => ?_
  exact looks_bind (looks_of_reads (reads_validateGroupId _ _)) fun _ => trivial

/-- Statements that only look leave the site as it was. -/
theorem leaves_statements_of_looks {α : Type} {p : Request α} {point : Nat → Point}
    (hp : Looks p) : Leaves (fun _ site' => site' = site) (statements plan point p) site := by
  refine leaves_bind.mpr (leaves_attempt_of_looks hp fun answer => ?_)
  rcases answer with e | (e | a) <;> rfl

/-- What the handler of {lit}`create` does about what has been raised. -/
theorem leaves_compensate {raised : Raised} {stored : AttachmentMeta}
    (hstored : stored.path = (storagePath exerciseId uuid file.filename).str) :
    Leaves (fun answer site' => (∃ last, answer = .error last) ∧ site' =
        if raised.isException ∧ Deletes plan
        then remove (storedAt host exerciseId uuid file) site else site)
      (do
        if raised.isException then
          match some stored with
          | some stored => deleteAttachmentPath host plan (some stored.path)
          | none => pure ()
        throw raised : Storing Inject) site := by
  by_cases hcaught : raised.isException
  · simp only [hcaught, if_pos, true_and]
    refine leaves_bind.mpr ((leaves_deleteAttachmentPath hstored).mono ?_)
    rintro (last | a) site' hsite
    · exact ⟨⟨last, rfl⟩, hsite⟩
    · exact ⟨⟨raised, rfl⟩, hsite⟩
  · rw [if_neg hcaught, if_neg fun h => hcaught h.1]
    exact ⟨⟨raised, rfl⟩, rfl⟩

/-- Once the upload is stored, the row is committed or not, and the handler takes the file back
or leaves it. -/
theorem leaves_createRow {stored : AttachmentMeta}
    (hstored : stored.path = (storagePath exerciseId uuid file.filename).str)
    (hfresh : site.outside (storedAt host exerciseId uuid file) = none) :
    Leaves (fun _ site' =>
      match raisesUncommitted plan with
      | some raised =>
          site'.committed.injects = site.committed.injects ∧
            site'.outside = if raised.isException ∧ Deletes plan then site.outside
              else (put (storedAt host exerciseId uuid file) file.bytes site).outside
      | none =>
          (∃ row : Inject,
            row.attachmentPath = some stored.path ∧
              site'.committed.injects = site.view.injects ++ [row]) ∧
            site'.outside =
              if (∃ raised, raisesCommitted plan = some raised ∧ raised.isException) ∧
                Deletes plan then site.outside
              else (put (storedAt host exerciseId uuid file) file.bytes site).outside)
      (do
        let inject ←
          try
            statements plan createPoint (createInjectRefreshed body exercise targetTeams groupId
              (some stored))
          catch e =>
            if e.isException then
              match some stored with
              | some stored => deleteAttachmentPath host plan (some stored.path)
              | none => pure ()
            throw e
        plan.pass .payload
        pure inject) (put (storedAt host exerciseId uuid file) file.bytes site) := by
  refine leaves_bind.mpr (leaves_tryCatch.mpr (leaves_createInjectRefreshed.mono ?_))
  intro answer site' hcreated
  obtain ⟨houtside, hcreated⟩ := hcreated
  have hremoved : (remove (storedAt host exerciseId uuid file) site').outside = site.outside := by
    rw [remove_outside, houtside, ← remove_outside, remove_put hfresh]
  cases huncommitted : raisesUncommitted plan with
  | some raised =>
      rw [huncommitted] at hcreated
      obtain ⟨rfl, hinjects⟩ := hcreated
      refine (leaves_compensate hstored).mono ?_
      rintro answer site'' ⟨⟨last, rfl⟩, hsite⟩
      dsimp only
      by_cases hback : raised.isException ∧ Deletes plan
      · rw [if_pos hback] at hsite ⊢
        rw [hsite]
        exact ⟨hinjects, hremoved⟩
      · rw [if_neg hback] at hsite ⊢
        rw [hsite]
        exact ⟨hinjects, houtside⟩
  | none =>
      rw [huncommitted] at hcreated
      obtain ⟨hrow, hafter⟩ := hcreated
      cases hcommitted : raisesCommitted plan with
      | some raised =>
          rw [hcommitted] at hafter
          subst hafter
          refine (leaves_compensate hstored).mono ?_
          rintro answer site'' ⟨⟨last, rfl⟩, hsite⟩
          dsimp only
          simp only [Option.some.injEq, exists_eq_left']
          by_cases hback : raised.isException ∧ Deletes plan
          · rw [if_pos hback] at hsite ⊢
            rw [hsite]
            exact ⟨hrow, hremoved⟩
          · rw [if_neg hback] at hsite ⊢
            rw [hsite]
            exact ⟨hrow, houtside⟩
      | none =>
          rw [hcommitted] at hafter
          obtain ⟨inject, rfl⟩ := hafter
          have hback : ¬ ((∃ raised, (none : Option Raised) = some raised ∧ raised.isException) ∧
              Deletes plan) := by
            rintro ⟨⟨raised, hnone, -⟩, -⟩
            cases hnone
          rw [if_neg hback]
          refine leaves_bind.mpr (leaves_pass.mpr ?_)
          cases plan.raises .payload with
          | none => exact leaves_pure ⟨hrow, houtside⟩
          | some raised => exact ⟨hrow, houtside⟩

end Storing

/-! ## Rows and files -/

/-- The row has been committed and names a file with the uploaded bytes, or there is neither
a new row nor a new file. -/
def Together (host : Host) (file : UploadFile) (before after : Site Files Db) : Prop :=
  (∃ (row : Inject) (path : String), after.committed.injects = before.committed.injects ++ [row] ∧
    row.attachmentPath = some path ∧
      after.outside ((Path.ofString path).resolve host.workingDirectory) = some file.bytes) ∨
  (after.committed.injects = before.committed.injects ∧ after.outside = before.outside)

/-- The checks of the request let it through. -/
def Accepts (plan : Plan Point Raised) (user : CurrentUser) (body : CreateInjectRequest)
    (site : Site Files Db) : Prop :=
  ∃ checked, ((statements plan .check (createChecks user body)).outcome site).1 = .ok checked

section Requests

variable {host : Host} {plan : Plan Point Raised} {user : CurrentUser}
  {body : CreateInjectRequest} {exerciseId : Nat} {uuid : Uuid4} {file : UploadFile}
  {files : Files} {db : Db}

/-- A file that is there for the first time, without a row, stands alone. -/
theorem not_together_of_left {before after : Site Files Db} {path : Path} {content : Bytes}
    (hfresh : before.outside path = none) (hleft : after.outside path = some content)
    (hinjects : after.committed.injects = before.committed.injects) :
    ¬ Together host file before after := by
  rintro (⟨row, text, hrow, -⟩ | ⟨-, houtside⟩)
  · simp [hinjects] at hrow
  · rw [houtside, hfresh] at hleft
    cases hleft

/-- Where the request stores its upload, it ends as its handlers make it end. -/
theorem together_stored_iff {site after : Site Files Db} (hstored : Stored plan file)
    (hfresh : site.outside (storedAt host exerciseId uuid file) = none)
    (hend : match raisesUncommitted plan with
      | some raised =>
          after.committed.injects = site.committed.injects ∧
            after.outside = if raised.isException ∧ Deletes plan then site.outside
              else (put (storedAt host exerciseId uuid file) file.bytes site).outside
      | none =>
          (∃ row : Inject,
            row.attachmentPath = some (storedMeta host exerciseId uuid file).path ∧
              after.committed.injects = site.committed.injects ++ [row]) ∧
            after.outside =
              if (∃ raised, raisesCommitted plan = some raised ∧ raised.isException) ∧
                Deletes plan then site.outside
              else (put (storedAt host exerciseId uuid file) file.bytes site).outside) :
    Together host file site after ↔ Covered plan file := by
  have hput : (put (storedAt host exerciseId uuid file) file.bytes site).outside
      (storedAt host exerciseId uuid file) = some file.bytes := put_outside_self ..
  have hnot : ¬ Discarded plan file := not_discarded hstored.mkdir hstored.writing
  have hnamed : (Path.ofString (storedMeta host exerciseId uuid file).path).resolve
      host.workingDirectory = storedAt host exerciseId uuid file := by
    rw [storedMeta_path, ofString_storagePath, storedAt]
  cases huncommitted : raisesUncommitted plan with
  | some raised =>
      rw [huncommitted] at hend
      obtain ⟨hinjects, houtside⟩ := hend
      by_cases hback : raised.isException ∧ Deletes plan
      · rw [if_pos hback] at houtside
        refine iff_of_true (.inr ⟨hinjects, houtside⟩) ?_
        exact .compensated hstored huncommitted hback.1 hback.2
      · rw [if_neg hback] at houtside
        refine iff_of_false ?_ ?_
        · exact not_together_of_left hfresh (houtside ▸ hput) hinjects
        · rintro (h | ⟨h, hraised, hcaught, hdeletes⟩ | ⟨h, hcommitted, -⟩)
          · exact hnot h
          · cases huncommitted.symm.trans hraised
            exact hback ⟨hcaught, hdeletes⟩
          · cases huncommitted.symm.trans hcommitted
  | none =>
      rw [huncommitted] at hend
      obtain ⟨⟨row, hpath, hinjects⟩, houtside⟩ := hend
      by_cases hback : (∃ raised, raisesCommitted plan = some raised ∧ raised.isException) ∧
        Deletes plan
      · rw [if_pos hback] at houtside
        obtain ⟨⟨raised, hraised, hcaught⟩, hdeletes⟩ := hback
        refine iff_of_false ?_ ?_
        · rintro (⟨row', path, hinjects', hpath', hfile⟩ | ⟨hinjects', -⟩)
          · rw [hinjects] at hinjects'
            cases List.append_cancel_left hinjects'
            cases hpath.symm.trans hpath'
            rw [hnamed, houtside, hfresh] at hfile
            cases hfile
          · simp [hinjects'] at hinjects
        · rintro (h | ⟨h, huncommitted', -, -⟩ | ⟨h, -, hkept⟩)
          · exact hnot h
          · cases huncommitted.symm.trans huncommitted'
          · exact hkept raised hraised hcaught hdeletes
      · rw [if_neg hback] at houtside
        refine iff_of_true (.inl ⟨row, _, hinjects, hpath, ?_⟩) (.kept hstored huncommitted ?_)
        · rw [hnamed, houtside, hput]
        · exact fun raised hraised hcaught hdeletes =>
            hback ⟨⟨raised, hraised, hcaught⟩, hdeletes⟩

/-- A request that passes its checks. -/
theorem together_iff_covered (hfresh : files (storedAt host exerciseId uuid file) = none)
    (haccepts : Accepts plan user body ⟨files, db, db⟩) :
    Together host file ⟨files, db, db⟩
        ((create host plan user body exerciseId uuid (some file)).outcome ⟨files, db, db⟩).2 ↔
      Covered plan file := by
  obtain ⟨⟨exercise, targetTeams, groupId⟩, haccepted⟩ := haccepts
  have hchecks : Leaves (fun answer site' => site' = ⟨files, db, db⟩ ∧
      answer = .ok (exercise, targetTeams, groupId))
      (statements plan .check (createChecks user body)) ⟨files, db, db⟩ :=
    ⟨leaves_statements_of_looks (looks_createChecks user body), haccepted⟩
  show Leaves (fun _ after => Together host file ⟨files, db, db⟩ after ↔ Covered plan file) _ _
  refine leaves_bind.mpr (hchecks.mono ?_)
  rintro answer site ⟨rfl, rfl⟩
  refine leaves_bind.mpr ((leaves_saveAttachment hfresh).mono ?_)
  rintro answer site hsaved
  cases hsaved with
  | stored hstored =>
      refine (leaves_createRow storedMeta_path hfresh).mono ?_
      intro answer after hend
      exact together_stored_iff hstored hfresh hend
  | discarded hdiscarded raised =>
      exact iff_of_true (.inr ⟨rfl, rfl⟩) (.discarded hdiscarded)
  | left hnot hnot' raised content =>
      refine iff_of_false ?_ ?_
      · exact not_together_of_left hfresh (put_outside_self ..) rfl
      · rintro (h | ⟨h, -⟩ | ⟨h, -⟩)
        · exact hnot' h
        · exact hnot h
        · exact hnot h

/-- A request that its checks refuse, or that is interrupted in them, leaves everything. -/
theorem together_of_refused (hrefused : ¬ Accepts plan user body ⟨files, db, db⟩) :
    Together host file ⟨files, db, db⟩
      ((create host plan user body exerciseId uuid (some file)).outcome ⟨files, db, db⟩).2 := by
  have hchecks : Leaves (fun answer site' => site' = ⟨files, db, db⟩ ∧
      answer = ((statements plan .check (createChecks user body)).outcome ⟨files, db, db⟩).1)
      (statements plan .check (createChecks user body)) ⟨files, db, db⟩ :=
    ⟨leaves_statements_of_looks (looks_createChecks user body), rfl⟩
  show Leaves (fun _ after => Together host file ⟨files, db, db⟩ after) _ _
  refine leaves_bind.mpr (hchecks.mono ?_)
  rintro answer site ⟨rfl, hanswer⟩
  cases answer with
  | error raised => exact .inr ⟨rfl, rfl⟩
  | ok checked => exact absurd ⟨checked, hanswer.symm⟩ hrefused

/-- A request to create an inject with an attachment, whichever of its operations raise: the
row and the file stand or fall together exactly if its checks refuse it or its handlers cover
what goes wrong. -/
theorem attachment_together_iff (hfresh : files (storedAt host exerciseId uuid file) = none) :
    Together host file ⟨files, db, db⟩
        ((create host plan user body exerciseId uuid (some file)).outcome ⟨files, db, db⟩).2 ↔
      (Accepts plan user body ⟨files, db, db⟩ → Covered plan file) := by
  by_cases haccepts : Accepts plan user body ⟨files, db, db⟩
  · rw [together_iff_covered hfresh haccepts]
    exact ⟨fun h _ => h, fun h => h haccepts⟩
  · exact iff_of_true (together_of_refused haccepts) fun h => absurd h haccepts

/-! ## Nothing goes wrong -/

/-- Three parts of a request may be put together either way. -/
theorem request_bind_assoc {α β γ : Type} (p : Request α) (f : α → Request β)
    (g : β → Request γ) : (p >>= f) >>= g = p >>= fun a => f a >>= g := by
  refine (Prog.bind_assoc _ _ _).trans (congrArg (Prog.bind p) (funext fun answer => ?_))
  cases answer <;> rfl

/-- The route on the database, from its checks to its row. -/
theorem createInjectRoute_eq (attachment : Option AttachmentMeta) :
    createInjectRoute user { body with attachment } =
      createChecks user body >>= fun (exercise, targetTeams, groupId) =>
        createInject body.title body.content body.scenarioNodeId targetTeams groupId
          body.sequenceOrder attachment (exercise.state ≠ .draft) >>= fun id =>
            pure (.inject id) := by
  unfold createChecks createInjectRoute
  simp only [request_bind_assoc]
  rfl

/-- The second part of a request runs on what the first has left. -/
theorem exec_bind {α β : Type} (p : Request α) (f : α → Request β) (s v : Db) :
    Prog.exec (p >>= f : Request β) s v =
      match (Prog.exec p s v).value with
      | .ok a => Prog.exec (f a) (Prog.exec p s v).committed (Prog.exec p s v).view
      | .error e => ⟨.error e, (Prog.exec p s v).committed, (Prog.exec p s v).view⟩ := by
  refine (Prog.exec_bind p _ s v).trans ?_
  cases (Prog.exec p s v).value <;> rfl

/-- Where nothing raises, statements leave what they execute. -/
theorem leaves_statements_unplanned {α : Type} {p : Request α} {point : Nat → Point}
    {site : Site Files Db} {Q : Except Raised α → Site Files Db → Prop}
    (h : Q (match (Prog.exec p site.committed site.view).value with
        | .ok a => .ok a
        | .error failure => .error (.ofFailure failure))
      { site with
        committed := (Prog.exec p site.committed site.view).committed
        view := (Prog.exec p site.committed site.view).view }) :
    Leaves Q (statements (fun _ => none) point p) site := by
  refine leaves_bind.mpr (leaves_attempt_unplanned ?_)
  revert h
  generalize Prog.exec (p : Prog Db Row (Except Failure α)) site.committed site.view = o
  rcases o with ⟨failure | a, committed, view⟩ <;> exact id

/-- Where nothing raises, a file within the limit is stored. -/
theorem stored_unplanned (hsize : file.bytes.length ≤ maxAttachmentBytes) :
    Stored (fun _ => none) file where
  mkdir := rfl
  writing := by
    show ((Plan.raisesFirst (fun _ => none) (copyPoints 0 0 file.reads)).or
      (raisesForSize file.bytes.length)) = none
    rw [Plan.raisesFirst_unplanned, raisesForSize, if_neg hsize.not_gt]
    rfl
  closeUpload := rfl

/-- Reading the row again changes nothing. -/
theorem committed_createInjectRefreshed {exercise : Exercise} {targetTeams : Option (List String)}
    {groupId : Option String} {attachment : Option AttachmentMeta} (s v : Db) :
    (Prog.exec (createInjectRefreshed body exercise targetTeams groupId attachment) s v).committed =
      Prog.Outcome.committed (Prog.exec (createInject body.title body.content body.scenarioNodeId
        targetTeams groupId body.sequenceOrder attachment (exercise.state ≠ .draft) >>= fun id =>
          pure (.inject id) : Request Answer) s v) := by
  have hquiet := Request.quiet_selectOr .noResultFound (·.inject? (Ambient.next s))
  exact (congrArg Prog.Outcome.committed (hquiet.exec _ _)).trans rfl

/-- Where nothing is raised and the upload is not too large, the request does to the database
what the route does that is given the stored attachment. -/
theorem create_unplanned (hfresh : files (storedAt host exerciseId uuid file) = none)
    (hsize : file.bytes.length ≤ maxAttachmentBytes) :
    ((create host (fun _ => none) user body exerciseId uuid (some file)).outcome
        ⟨files, db, db⟩).2.committed =
      Prog.result (createInjectRoute user
        { body with attachment := some (storedMeta host exerciseId uuid file) }) db := by
  have hroute := congrArg Prog.Outcome.committed (exec_bind (createChecks user body)
    (fun (exercise, targetTeams, groupId) =>
      createInject body.title body.content body.scenarioNodeId targetTeams groupId
        body.sequenceOrder (some (storedMeta host exerciseId uuid file))
        (exercise.state ≠ .draft) >>= fun id => pure (Answer.inject id)) db db)
  rw [createInjectRoute_eq]
  refine Eq.trans ?_ hroute.symm
  show Leaves (fun _ (after : Site Files Db) => after.committed = _) _ _
  refine leaves_bind.mpr (leaves_statements_unplanned ?_)
  generalize Prog.exec (createChecks user body) db db = o
  dsimp only
  cases o.value with
  | error failure => rfl
  | ok checked =>
      obtain ⟨exercise, targetTeams, groupId⟩ := checked
      dsimp only
      rw [← committed_createInjectRefreshed]
      refine leaves_bind.mpr ((leaves_saveAttachment hfresh).mono ?_)
      rintro answer site hsaved
      cases hsaved with
      | discarded h => exact absurd h (not_discarded rfl (stored_unplanned hsize).writing)
      | left h => exact absurd (stored_unplanned hsize) h
      | stored =>
          refine leaves_bind.mpr (leaves_tryCatch.mpr ?_)
          have hcommit : Leaves (fun _ (after : Site Files Db) => after.committed =
              (Prog.exec (createInjectRefreshed body exercise targetTeams groupId
                (some (storedMeta host exerciseId uuid file))) o.committed o.view).committed)
              (statements (fun _ => none) createPoint (createInjectRefreshed body exercise
                targetTeams groupId (some (storedMeta host exerciseId uuid file))))
              (put (storedAt host exerciseId uuid file) file.bytes
                ⟨files, o.committed, o.view⟩) := leaves_statements_unplanned rfl
          refine (leaves_createInjectRefreshed.and hcommit).mono ?_
          rintro answer after ⟨⟨-, -, inject, rfl⟩, hcommitted⟩
          exact hcommitted

end Requests

/-! ## Samples -/

/-- A host in its directory. -/
def sampleHost : Host where
  workingDirectory := ⟨["app"]⟩
  sha256 _ := "digest"
  lower := id

def sampleUuid : Uuid4 where
  hex := "0123456789abcdef0123456789abcdef"
  digits := by
    have hall : "0123456789abcdef0123456789abcdef".toList.all
        (· ∈ "0123456789abcdef".toList) := by decide +kernel
    exact fun c hc => of_decide_eq_true (List.all_eq_true.mp hall c hc)
  length_eq := by decide +kernel

/-- An upload in two chunks. -/
def sampleUpload : UploadFile where
  filename := some "brief.txt"
  contentType := some "text/plain"
  reads := [[1, 2], [3]]
  nonempty := by decide

def sampleRequest : CreateInjectRequest where
  title := "Attachment"
  content := "Read the brief"

/-- The disk is full at the second chunk. -/
def diskFull : Plan Point Raised
  | .write 1 => some { raised := .os }
  | _ => none

/-- The connection is lost once the row is committed. -/
def connectionLost : Plan Point Raised
  | .refresh => some { raised := .exception }
  | _ => none

/-- The row is refused. -/
def rowRefused : Plan Point Raised
  | .insert => some { raised := .exception }
  | _ => none

/-- The site of a new exercise without files. -/
def sampleSite : Site Files Db where
  outside _ := none
  committed := sampleDraft [sampleNode]
  view := sampleDraft [sampleNode]

/-- A row that is refused takes its upload with it. -/
theorem attachment_together_sample :
    Together sampleHost sampleUpload sampleSite ((create sampleHost rowRefused sampleOwner
      sampleRequest 7 sampleUuid (some sampleUpload)).outcome sampleSite).2 :=
  (attachment_together_iff rfl).mpr fun _ =>
    .compensated ⟨rfl, by decide +kernel, rfl⟩ rfl rfl ⟨rfl, rfl⟩

/-- A full disk leaves half of an upload without its row, and a connection that is lost after
the commit leaves a row without its upload. -/
theorem attachment_apart :
    ¬ Together sampleHost sampleUpload sampleSite ((create sampleHost diskFull sampleOwner
        sampleRequest 7 sampleUuid (some sampleUpload)).outcome sampleSite).2 ∧
      ¬ Together sampleHost sampleUpload sampleSite ((create sampleHost connectionLost sampleOwner
        sampleRequest 7 sampleUuid (some sampleUpload)).outcome sampleSite).2 := by
  have haccepts : Accepts diskFull sampleOwner sampleRequest sampleSite := ⟨_, rfl⟩
  have haccepts' : Accepts connectionLost sampleOwner sampleRequest sampleSite := ⟨_, rfl⟩
  have hwriting : raisesWriting diskFull sampleUpload = some .os := by decide +kernel
  have hwriting' : raisesWriting connectionLost sampleUpload = none := by decide +kernel
  constructor
  · refine mt (together_iff_covered rfl haccepts).mp ?_
    rintro ((h | h | ⟨h, hhttp, -⟩) | ⟨h, -⟩ | ⟨h, -⟩)
    · cases h
    · cases h
    · cases hwriting.symm.trans h
      cases hhttp
    · cases hwriting.symm.trans h.writing
    · cases hwriting.symm.trans h.writing
  · refine mt (together_iff_covered rfl haccepts').mp ?_
    rintro (h | ⟨-, h, -⟩ | ⟨-, -, hkept⟩)
    · exact not_discarded rfl hwriting' h
    · cases h
    · exact hkept .exception rfl rfl ⟨rfl, rfl⟩

end IcebergTTX.Attachments
