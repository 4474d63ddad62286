import GufoBlob.File.Pathlib

/-!
# The file backend

`FileBlob` of `sync/file.py`. The object has one field, the resolved root directory, and no mutable
state; the file system is the environment. `aio/file.py` runs the same object on threads
(`AsyncWrapper`).
-/

namespace GufoBlob

open Text Interaction File

/-- The fields of a `FileBlob`. -/
structure FileBlob where
  root : Path

/-- Code of a `FileBlob`. -/
abbrev FileProg := Program fs Unit PyExc

namespace FileBlob

/-- An `OSError` of a method of `Path`. -/
def raising {α : Type} : Except FileErr α → FileProg α
  | .ok a => .pure a
  | .error e => .raise (.osError e)

def mkdir (p : Path) : FileProg Unit := .call (.mkdir p) raising

def writeBytes (p : Path) (data : Bytes) : FileProg Unit := .call (.writeBytes p data) raising

def readBytes (p : Path) : FileProg Bytes := .call (.readBytes p) raising

def unlink (p : Path) : FileProg Unit := .call (.unlink p) raising

def pathExists (p : Path) : FileProg Bool := .call (.exists' p) raising

def isFile (p : Path) : FileProg Bool := .call (.isFile p) raising

def isDir (p : Path) : FileProg Bool := .call (.isDir p) raising

def rglob (p : Path) : FileProg (List Path) := .call (.rglob p) raising

/-- `Path(root).resolve()`, where a relative path starts at the working directory. -/
def resolveRoot (cwd : Path) (root : Str) : Except PyExc Path :=
  resolve (if root.head? = some '/' then [] else cwd) root

/-- `FileBlob(root)`. -/
def init (cwd : Path) (root : Str) : FileProg FileBlob := do
  let path ← Program.ofExcept (resolveRoot cwd root)
  if !(← pathExists path) then
    .raise (.blobError ("invalid root directory: " ++ fmt root))
  else if !(← isDir path) then
    .raise (.blobError ("invalid root directory: " ++ fmt root))
  else
    return ⟨path⟩

variable (b : FileBlob)

/-- `_resolve`. -/
def resolve (key : Str) : Except PyExc Path :=
  if key.isEmpty || key.head? = some '/' then
    .error (.blobError ("invalid key: " ++ fmt key))
  else do
    let path ← File.resolve b.root key
    if b.root.isPrefixOf path then
      return path
    else
      throw (.blobError ("key escapes storage root: " ++ fmt key))

/-- `except FileNotFoundError as e: raise KeyError(key) from e`. -/
def notFound {α : Type} (key : Str) : PyExc → FileProg α
  | .osError .fileNotFound => .raise (.keyError key)
  | e => .raise e

/-! ## Operations -/

def put (key : Str) (data : Bytes) : FileProg Unit := do
  let path ← Program.ofExcept (b.resolve key)
  mkdir path.dropLast
  writeBytes path data

def get (key : Str) : FileProg Bytes := do
  let path ← Program.ofExcept (b.resolve key)
  (readBytes path).tryCatch (notFound key)

def delete (key : Str) : FileProg Unit := do
  let path ← Program.ofExcept (b.resolve key)
  (unlink path).tryCatch (notFound key)

def exists' (key : Str) : FileProg Bool := do
  let path ← Program.ofExcept (b.resolve key)
  pathExists path

/-- `base` of `scan`. -/
def scanBase (pre : Str) : Except PyExc Path := if pre.isEmpty then .ok b.root else b.resolve pre

/-- One iteration of the loop of `scan`. -/
def scanEntry (p : Path) : Gen fs Unit PyExc Str Unit := do
  if ← (isFile p).embed then
    Program.yield (relativePosix b.root p)
  else
    return ()

def scan (pre : Str) : Gen fs Unit PyExc Str Unit := do
  let base ← Program.ofExcept (b.scanBase pre)
  if !(← (pathExists base).embed) then
    return ()
  else if ← (isFile base).embed then
    Program.yield (relativePosix b.root base)
  else do
    let ps ← (rglob base).embed
    Program.forEach ps b.scanEntry

/-- `gufo.blob.sync.file.FileBlob`. -/
def backend : BlobBase fs Unit where
  put := b.put
  get := b.get
  delete := b.delete
  exists' := b.exists'
  scan := b.scan

end FileBlob

end GufoBlob
