import IcebergTTX.Routers.Requests
import IcebergTTX.Text.Slug
import IcebergTTX.Transactions.Attempts

/-!
# Attachments

The creation of an inject with an attachment, {lit}`app/routers/injects.py`: the upload goes to
a file first and the row is committed after it, with one handler that takes the file back when
the upload is refused and one for when the row cannot be created.  Every operation may raise
where a plan says so.  The form is given parsed.  Directories are left out.

Main results:

- Definition {lit}`saveAttachment`: the upload written to its file, chunk by chunk.
- Definition {lit}`deleteAttachmentPath`: the file taken back.
- Definition {lit}`create`: the request, with its handlers.
-/

namespace IcebergTTX.Attachments

open Transactions

/-! ## Paths -/

/-- A relative {lit}`pathlib.Path`, or an absolute one without its root: its parts. -/
structure Path where
  parts : List String
deriving DecidableEq

namespace Path

/-- {lit}`Path(text)`. -/
def ofString (text : String) : Path :=
  ⟨((text.toList.splitOn '/').map String.ofList).filter fun part => part ≠ "" ∧ part ≠ "."⟩

/-- {lit}`str(path)`. -/
def str (path : Path) : String :=
  if path.parts = [] then "." else "/".intercalate path.parts

/-- {lit}`path.name`. -/
def name (path : Path) : String :=
  path.parts.getLast?.getD ""

/-- {lit}`path / text`. -/
def child (path : Path) (text : String) : Path :=
  ⟨path.parts ++ (ofString text).parts⟩

/-- {lit}`path.resolve()` of a relative path, where no part is a symbolic link. -/
def resolve (path workingDirectory : Path) : Path :=
  ⟨path.parts.foldl (fun done part => if part = ".." then done.dropLast else done ++ [part])
    workingDirectory.parts⟩

/-- {lit}`path in other.parents`. -/
def isParentOf (path other : Path) : Bool :=
  path.parts <+: other.parts ∧ path ≠ other

end Path

/-- {lit}`ATTACHMENT_ROOT`. -/
def attachmentRoot : Path :=
  .ofString "uploads/inject_attachments"

/-- {lit}`MAX_ATTACHMENT_BYTES`. -/
def maxAttachmentBytes : Nat :=
  25 * 1024 * 1024

/-- {lit}`DEFAULT_ATTACHMENT_TYPE`. -/
def defaultAttachmentType : String :=
  "application/octet-stream"

/-- {lit}`ALLOWED_ATTACHMENT_TYPES`. -/
def allowedAttachmentTypes : List String :=
  ["application/pdf", "image/png", "image/jpeg", "image/gif", "text/plain", "text/csv",
    "application/json", "application/zip", "application/msword",
    "application/vnd.openxmlformats-officedocument.wordprocessingml.document",
    "application/vnd.ms-excel",
    "application/vnd.openxmlformats-officedocument.spreadsheetml.sheet",
    "application/vnd.ms-powerpoint",
    "application/vnd.openxmlformats-officedocument.presentationml.presentation"]

/-- {lit}`[A-Za-z0-9._-]`. -/
def isFilenameChar (c : Char) : Bool :=
  c.isAlphanum ∨ c = '.' ∨ c = '_' ∨ c = '-'

/-- {lit}`_safe_filename`. -/
def safeFilename (filename : Option String) : String :=
  let original := (Path.ofString ((nonEmpty filename).getD "attachment")).name
  let stripped (c : Char) : Bool := c = '.' ∨ c = '_'
  let cleaned := ((Text.collapse isFilenameChar '_' false original.toList).dropWhile
    stripped).rdropWhile stripped
  if cleaned = [] then "attachment" else String.ofList cleaned

/-- {lit}`uuid4()`. -/
structure Uuid4 where
  hex : String
  digits : ∀ c ∈ hex.toList, c ∈ "0123456789abcdef".toList
  length_eq : hex.length = 32

/-- The directory of an exercise. -/
def storageDir (exerciseId : Nat) : Path :=
  attachmentRoot.child (toString exerciseId)

/-- The path that an upload is stored under. -/
def storagePath (exerciseId : Nat) (uuid : Uuid4) (filename : Option String) : Path :=
  let original := (Path.ofString ((nonEmpty filename).getD "attachment")).name
  (storageDir exerciseId).child (uuid.hex ++ "_" ++ safeFilename (some original))

/-! ## The disk -/

abbrev Bytes := List UInt8

/-- The files by their absolute paths. -/
abbrev Files := Path → Option Bytes

/-- What the process that serves the request has. -/
structure Host where
  workingDirectory : Path
  sha256 : Bytes → String
  lower : String → String

/-- An upload: its headers, and what its reads return before the empty one. -/
structure UploadFile where
  filename : Option String
  contentType : Option String
  reads : List Bytes
  nonempty : ∀ chunk ∈ reads, chunk ≠ []

/-- The uploaded bytes. -/
def UploadFile.bytes (file : UploadFile) : Bytes :=
  file.reads.flatten

/-- {lit}`_normalize_content_type`. -/
def normalizeContentType (host : Host) (contentType : Option String) : String :=
  let base := match nonEmpty contentType with
    | some text => host.lower (strip (String.ofList (text.toList.takeWhile (· ≠ ';'))))
    | none => ""
  if base ∈ allowedAttachmentTypes then base else defaultAttachmentType

/-! ## What can be raised -/

/-- What is raised, as far as handlers tell it apart: {lit}`HTTPException`, {lit}`OSError`,
{lit}`ValueError`, another {lit}`Exception`, or a {lit}`BaseException` that is none, such as
a cancellation. -/
inductive Raised where
  | http (status : Nat) (detail : String)
  | os
  | value
  | exception
  | baseException
deriving DecidableEq

namespace Raised

/-- {lit}`except HTTPException`. -/
def isHttp : Raised → Bool
  | http _ _ => true
  | _ => false

/-- {lit}`except (OSError, ValueError)`. -/
def isDiskError (raised : Raised) : Bool :=
  raised = os ∨ raised = value

/-- {lit}`except Exception`. -/
def isException (raised : Raised) : Bool :=
  raised ≠ baseException

/-- What the services raise: an HTTP error, or an error inside the server. -/
def ofFailure (failure : Failure) : Raised :=
  if failure.status = 500 then exception else http failure.status failure.detail

end Raised

/-- The points at which the request can raise. -/
inductive Point where
  /-- A statement before the upload is read. -/
  | check (statement : Nat)
  | mkdir
  | openFile
  | read (chunk : Nat)
  | write (chunk : Nat)
  | closeFile
  | unlink
  | closeUpload
  | insert
  | commit
  | refresh
  | resolve
  | delete
  | removeDirectory
  | payload
deriving DecidableEq

/-! ## The disk, operation by operation -/

/-- The operations on the disk and on the database of the exercise. -/
abbrev Storing : Type → Type :=
  Attempt (Site Files Db) Raised

/-- The site with this file. -/
def put (path : Path) (content : Bytes) (site : Site Files Db) : Site Files Db :=
  { site with outside := Function.update site.outside path (some content) }

/-- The site with the content of this file changed. -/
def edit (path : Path) (f : Bytes → Bytes) (site : Site Files Db) : Site Files Db :=
  { site with outside := Function.update site.outside path ((site.outside path).map f) }

/-- The site without this file. -/
def remove (path : Path) (site : Site Files Db) : Site Files Db :=
  { site with outside := Function.update site.outside path none }

section Routes

variable (host : Host) (plan : Plan Point Raised)

/-- Run statements of the request, whose points have these names. -/
def statements {α : Type} (point : Nat → Point) (p : Request α) : Storing α := do
  match ← Prog.attempt plan point p 0 with
  | .ok a => pure a
  | .error failure => throw (.ofFailure failure)

/-! ## Storing an upload -/

/-- What is raised for an upload above the cap. -/
def tooLarge : Raised :=
  .http 413 "Attachment is too large"

/-- The loop over the chunks, with the size so far and the bytes that the digest was fed. -/
def copyChunks (path : Path) : Nat → Nat → Bytes → List Bytes → Storing (Nat × Bytes)
  | n, size, digested, [] => do
    plan.pass (.read n)
    pure (size, digested)
  | n, size, digested, chunk :: rest => do
    plan.pass (.read n)
    if size + chunk.length > maxAttachmentBytes then throw tooLarge
    else
      plan.act (.write n) (edit path (· ++ chunk)) fun done => edit path (· ++ chunk.take done)
      copyChunks path (n + 1) (size + chunk.length) (digested ++ chunk) rest

/-- {lit}`with storage_path.open("wb") as out`: the file is closed in every case. -/
def writeFile (path : Path) (file : UploadFile) : Storing (Nat × Bytes) := do
  plan.perform .openFile (put path [])
  try copyChunks plan path 0 0 [] file.reads
  finally plan.act .closeFile id fun done => edit path (·.take done)

/-- {lit}`_save_attachment`. -/
def saveAttachment (exerciseId : Nat) (uuid : Uuid4) :
    Option UploadFile → Storing (Option AttachmentMeta)
  | none => pure none
  | some file => do
    let originalFilename := (Path.ofString ((nonEmpty file.filename).getD "attachment")).name
    plan.pass .mkdir
    let path := storagePath exerciseId uuid file.filename
    let target := path.resolve host.workingDirectory
    let (size, digested) ←
      try writeFile plan target file
      catch e =>
        if e.isHttp then plan.perform .unlink (remove target)
        throw e
      finally plan.pass .closeUpload
    pure (some
      { filename := originalFilename, contentType := normalizeContentType host file.contentType
        path := path.str, size, sha256 := host.sha256 digested })

/-- {lit}`_delete_attachment_path`: a path outside the root is left alone, and an error of the
disk is passed over. -/
def deleteAttachmentPath (attachmentPath : Option String) : Storing Unit :=
  match nonEmpty attachmentPath with
  | none => pure ()
  | some text =>
    try
      plan.pass .resolve
      let root := attachmentRoot.resolve host.workingDirectory
      let resolved := (Path.ofString text).resolve host.workingDirectory
      if root.isParentOf resolved then
        plan.perform .delete (remove resolved)
        plan.pass .removeDirectory
      else throw .value
    catch e => if e.isDiskError then pure () else throw e

/-! ## The request -/

/-- The checks of {lit}`create`: the exercise, the target teams and the group of the inject. -/
def createChecks (user : CurrentUser) (body : CreateInjectRequest) :
    Request (Exercise × Option (List String) × Option String) := do
  requireRole .facilitator user
  let exercise ← requireExerciseAccess user
  requireOperationalMutability exercise
  let (_, exercise) ← lockConfigurationOwner exercise
  requireOperationalMutability exercise
  let targetTeams ← validateTeamIds exercise body.targetTeams "target_teams"
  let groupId ← validateGroupId exercise body.groupId
  pure (exercise, targetTeams, createdGroup groupId targetTeams)

/-- {lit}`create_inject` with its {lit}`session.refresh`. -/
def createInjectRefreshed (body : CreateInjectRequest) (exercise : Exercise)
    (targetTeams : Option (List String)) (groupId : Option String)
    (attachment : Option AttachmentMeta) : Request Inject := do
  let id ← createInject body.title body.content body.scenarioNodeId targetTeams groupId
    body.sequenceOrder attachment (exercise.state ≠ .draft)
  Request.selectOr .noResultFound (·.inject? id)

/-- The points of the statements of {lit}`create_inject`: an id and the row, the commit, and
the refresh. -/
def createPoint : Nat → Point
  | 0 | 1 => .insert
  | 2 => .commit
  | _ => .refresh

/-- {lit}`create`. -/
def create (user : CurrentUser) (body : CreateInjectRequest) (exerciseId : Nat) (uuid : Uuid4)
    (attachment : Option UploadFile) : Storing Inject := do
  let (exercise, targetTeams, groupId) ← statements plan .check (createChecks user body)
  let attachmentMeta ← saveAttachment host plan exerciseId uuid attachment
  let inject ←
    try
      statements plan createPoint
        (createInjectRefreshed body exercise targetTeams groupId attachmentMeta)
    catch e =>
      if e.isException then
        match attachmentMeta with
        | some stored => deleteAttachmentPath host plan (some stored.path)
        | none => pure ()
      throw e
  plan.pass .payload
  pure inject

end Routes

end IcebergTTX.Attachments
