import GufoBlob.File.Blob
import GufoBlob.Ftp.Blob
import GufoBlob.Memory.Blob
import GufoBlob.S3.Blob
import GufoBlob.Sqlite.Blob
import GufoBlob.Uri.Urllib

/-!
# Opening a blob by its URL

`open_blob` and the `parse_url` of each backend, which have the same text in the synchronous and in
the asynchronous package. The schema of a URL selects the backend; `urlparse` takes the URL apart.
What `parse_url` raises is converted only when it is a `KeyError`, or by `parse_url` itself.

* `Acceptable` — the URLs, and the answers of the file system, for which nothing else is raised.
* `openBlob_iff` — `open_blob` returns a blob or raises `BlobError` exactly for these.

There are no symbolic links. A root whose links go in a circle, where `resolve` may raise a
`RuntimeError`, is left out.
-/

namespace GufoBlob

open Text Data Interaction Program Uri

/-! ## `parse_url` -/

/-- `DEFAULT_USER`. -/
def FTPBlob.defaultUser : Str := "anonymous".toList

/-- `DEFAULT_PASSWORD`. -/
def FTPBlob.defaultPassword : Str := "anonymous@".toList

/-- What `FTPBlob.parse_url` returns: the arguments for the constructor. -/
structure FTPBlob.UrlArgs where
  host : Str
  port : Nat
  user : Str
  password : Str
  root : Str

/-- `FTPBlob.parse_url`. -/
def FTPBlob.parseUrl (py : Python) (url : Str) : Except PyExc FTPBlob.UrlArgs := do
  let u ← urlparse py url
  let host := orElse (u.hostname py) []
  if host.isEmpty then
    throw (.blobError "hostname not set")
  else do
    let port ← u.port py
    let port := match port with
      | some (n + 1) => n + 1
      | _ => 21
    return { host, port, user := unquote (orElse u.username defaultUser),
             password := unquote (orElse u.password defaultPassword),
             root := strip Ftp.isSlash u.path }

def FTPBlob.fromUrl (py : Python) (url : Str) : Except PyExc FTPBlob := do
  let args ← FTPBlob.parseUrl py url
  return FTPBlob.init args.host args.port args.user args.password args.root 3 none

namespace MemoryBlob

/-- `get_int`. -/
def getInt (py : Python) (params : Dict Str (List Str)) (name : String) :
    Except PyExc (Option Int) :=
  match params.get? name.toList with
  | some (v :: _) =>
      match pyIntStr py v with
      | some n => .ok (some n)
      | none => .error (.blobError ("invalid int param " ++ name ++ "=" ++ fmt v))
  | _ => .ok none

/-- `MemoryBlob.parse_url`: the two limits. -/
def parseUrl (py : Python) (url : Str) : Except PyExc (Option Int × Option Int) := do
  let parsed ← urlparse py url
  if parsed.scheme ∉ ["memory".toList, []] then
    throw (.blobError ("unsupported schema: " ++ fmt parsed.scheme))
  else do
    let params := parseQs parsed.query false
    let maxObjects ← getInt py params "max_objects"
    let maxSize ← getInt py params "max_size"
    return (maxObjects, maxSize)

def fromUrl (py : Python) (url : Str) : Except PyExc MemoryBlob := do
  let (maxObjects, maxSize) ← parseUrl py url
  return MemoryBlob.init maxObjects maxSize

end MemoryBlob

namespace S3Blob

/-- `DEFAULT_REGION`. -/
def defaultRegion : Str := "us-east-1".toList

/-- `"//" in s`. -/
def hasDouble : Str → Bool
  | '/' :: '/' :: _ => true
  | _ :: rest => hasDouble rest
  | [] => false

/-- `s.replace("//", "/")`. -/
def replaceDouble : Str → Str
  | '/' :: '/' :: rest => '/' :: replaceDouble rest
  | c :: rest => c :: replaceDouble rest
  | [] => []

theorem length_replaceDouble_le (s : Str) : (replaceDouble s).length ≤ s.length := by
  fun_induction replaceDouble s with
  | case1 rest ih => rw [List.length_cons, List.length_cons, List.length_cons]; omega
  | case2 c rest _ ih => rw [List.length_cons, List.length_cons]; omega
  | case3 => exact Nat.le_refl 0

theorem length_replaceDouble_lt {s : Str} (h : hasDouble s = true) :
    (replaceDouble s).length < s.length := by
  fun_induction replaceDouble s with
  | case1 rest ih =>
      have hle := length_replaceDouble_le rest
      rw [List.length_cons, List.length_cons, List.length_cons]
      omega
  | case2 c rest hne ih =>
      have hrest : hasDouble rest = true := by
        unfold hasDouble at h
        split at h
        · next heq => exact absurd heq (by rintro ⟨⟩; exact hne _ rfl rfl)
        · next heq => cases heq; exact h
        · next heq => cases heq
      have hlt := ih hrest
      rw [List.length_cons, List.length_cons]
      omega
  | case3 => cases h

/-- `while "//" in prefix: prefix = prefix.replace("//", "/")`. -/
def collapseSlashes (s : Str) : Str :=
  if hasDouble s = true then collapseSlashes (replaceDouble s) else s
termination_by s.length
decreasing_by exact length_replaceDouble_lt ‹_›

/-- `s or None`. -/
def orNone (s : Str) : Option Str := if s.isEmpty then none else some s

end S3Blob

/-- What `parse_url` of `common/s3.py` returns: the arguments for the constructor. -/
structure S3.ConnectionArgs where
  bucket : Str
  keyPrefix : Str
  endpoint : Str
  region : Str
  accessKey : Option Str
  secretKey : Option Str
  deriving DecidableEq

/-- `parse_url` of `common/s3.py`. -/
def S3.parseUrl (py : Python) (url : Str) : Except PyExc S3.ConnectionArgs := do
  let u ← urlparse py url
  if u.scheme ≠ "s3".toList then
    throw (.blobError ("invalid scheme: " ++ fmt (py.repr u.scheme)))
  else
    let bucket := unquote (orElse (u.hostname py) [])
    if bucket.isEmpty then
      throw (.blobError "bucket name is required")
    else
      let qs := parseQs u.query true
      let endpoint := firstParam qs "endpoint".toList []
      let region := firstParam qs "region".toList S3Blob.defaultRegion
      let accessKey := firstParam qs "access_key".toList []
      let secretKey := firstParam qs "secret_key".toList []
      if S3.rxBucket bucket = false then
        throw (.blobError ("invalid bucket name: " ++ fmt (py.repr bucket)))
      else
        let keyPrefix := S3Blob.collapseSlashes (unquote (lstrip Ftp.isSlash u.path))
        return { bucket, keyPrefix, endpoint, region, accessKey := S3Blob.orNone accessKey,
                 secretKey := S3Blob.orNone secretKey }

def S3Blob.fromUrl (py : Python) (url : Str) : Except PyExc S3Blob := do
  let args ← S3.parseUrl py url
  S3Blob.init args.bucket args.keyPrefix args.endpoint args.region args.accessKey args.secretKey

namespace SQLiteBlob

def defaultTable : Str := "blobs".toList

def defaultKey : Str := "k".toList

def defaultValue : Str := "v".toList

/-- What `SQLiteBlob.parse_url` returns: the arguments for the constructor. -/
structure UrlArgs where
  path : Str
  table : Str
  keyCol : Str
  valueCol : Str

/-- `SQLiteBlob.parse_url`. -/
def parseUrl (py : Python) (url : Str) : Except PyExc UrlArgs := do
  let p ← urlparse py url
  if p.scheme ≠ "sqlite".toList then
    throw (.blobError ("Invalid URL scheme: " ++ fmt p.scheme))
  else
    let qs := parseQs p.query false
    return { path := p.path, table := firstParam qs "table".toList defaultTable,
             keyCol := firstParam qs "key".toList defaultKey,
             valueCol := firstParam qs "value".toList defaultValue }

def fromUrl (py : Python) (url : Str) : Except PyExc SQLiteBlob := do
  let args ← parseUrl py url
  SQLiteBlob.init args.path args.table args.keyCol args.valueCol 5000

end SQLiteBlob

namespace FileBlob

/-- `FileBlob.parse_url`: the root. -/
def parseUrl (py : Python) (url : Str) : Except PyExc Str := do
  let parsed ← urlparse py url
  if parsed.scheme ∉ ["file".toList, []] then
    throw (.blobError ("invalid scheme: " ++ fmt parsed.scheme))
  else
    return if parsed.path.isEmpty then ['/'] else parsed.path

/-- The constructor looks at the directory. -/
def fromUrl (py : Python) (cwd : File.Path) (url : Str) : FileProg FileBlob := do
  let root ← Program.ofExcept (parseUrl py url)
  FileBlob.init cwd root

end FileBlob

/-! ## `open_blob` -/

/-- The modules that the loader finds. -/
inductive Backend where
  | file
  | ftp
  | memory
  | s3
  | sqlite

/-- A blob of one of the backends. -/
inductive Blob where
  | file (b : FileBlob)
  | ftp (b : FTPBlob)
  | memory (b : MemoryBlob)
  | s3 (b : S3Blob)
  | sqlite (b : SQLiteBlob)

/-- `loader[schema]`: `none` where it raises `KeyError`. -/
def loader (schema : Str) : Option Backend :=
  if schema = "file".toList then some .file
  else if schema = "ftp".toList then some .ftp
  else if schema = "memory".toList then some .memory
  else if schema = "s3".toList then some .s3
  else if schema = "sqlite".toList then some .sqlite
  else none

/-- `loader[schema].from_url(url)`. -/
def fromUrl (py : Python) (cwd : File.Path) (url : Str) : Backend → FileProg Blob
  | .file => (FileBlob.fromUrl py cwd url).bind fun b => .pure (.file b)
  | .ftp => Program.ofExcept ((FTPBlob.fromUrl py url).map .ftp)
  | .memory => Program.ofExcept ((MemoryBlob.fromUrl py url).map .memory)
  | .s3 => Program.ofExcept ((S3Blob.fromUrl py url).map .s3)
  | .sqlite => Program.ofExcept ((SQLiteBlob.fromUrl py url).map .sqlite)

/-- The schema of a URL: what is before the first colon, or `file`. -/
def schemaOf (url : Str) : Str :=
  match partition ':' url with
  | (schema, some _) => schema
  | (_, none) => "file".toList

/-- `except KeyError` of `open_blob`. -/
def caught (schema : Str) : PyExc → FileProg Blob
  | .keyError _ => .raise (.blobError ("invalid schema: " ++ fmt schema))
  | e => .raise e

/-- `open_blob`. -/
def openBlob (py : Python) (cwd : File.Path) (url : Str) : FileProg Blob :=
  let schema := schemaOf url
  let opened : FileProg Blob := match loader schema with
    | some backend => fromUrl py cwd url backend
    | none => .raise (.keyError schema)
  opened.tryCatch (caught schema)

/-! ## Errors -/

/-- A value, or `BlobError`. -/
def Contract {α : Type} : Outcome PyExc α → Prop
  | .ok _ => True
  | .error (.blobError _) => True
  | _ => False

/-- What is raised is a `BlobError`. -/
def Fine {α : Type} (r : Except PyExc α) : Prop := ∀ e, r = .error e → ∃ msg, e = .blobError msg

section Fine

variable {α β : Type}

theorem fine_ok (a : α) : Fine (.ok a) := nofun

theorem fine_blobError (msg : String) : Fine (.error (.blobError msg) : Except PyExc α) := by
  rintro e ⟨⟩
  exact ⟨msg, rfl⟩

theorem fine_bind {x : Except PyExc α} {f : α → Except PyExc β} (hx : Fine x)
    (hf : ∀ a, Fine (f a)) : Fine (x >>= f) := by
  cases x with
  | ok a => exact hf a
  | error e => 
      rintro e' ⟨⟩
      exact hx e rfl

theorem fine_cleanDbItem (name : Str) : Fine (cleanDbItem name) := by
  unfold cleanDbItem
  split
  · exact fine_ok _
  · exact fine_blobError _

theorem fine_getInt (py : Python) (params : Dict Str (List Str)) (name : String) :
    Fine (MemoryBlob.getInt py params name) := by
  unfold MemoryBlob.getInt
  repeat' split
  · exact fine_ok _
  · exact fine_blobError _
  · exact fine_ok _

theorem fine_s3 (bucket keyPrefix endpoint region : Str) (accessKey secretKey : Option Str) :
    Fine (S3Blob.init bucket keyPrefix endpoint region accessKey secretKey) := by
  unfold S3Blob.init
  split
  · exact fine_blobError _
  · exact fine_ok _

end Fine

variable {py : Python} {url : Str}

/-- The authority of the URL passes the checks of `urlsplit`. -/
def AuthorityOk (py : Python) (url : Str) : Prop := checkNetloc py (split url).netloc = .ok ()

/-- There is no port, or it is a number below 65536. -/
def PortOk (u : SplitResult) : Prop := ∀ port ∈ u.hostinfo.2, (SplitResult.portNumber port).isSome

/-- Either the condition holds and nothing but `BlobError` is raised, or neither, and it is
`ValueError`. -/
def Decides {α : Type} (cond : Prop) (r : Except PyExc α) : Prop :=
  (cond ∧ Fine r) ∨ (¬ cond ∧ ∃ msg, r = .error (.valueError msg))

/-- The part of a `parse_url` after `urlparse`. -/
theorem decides_urlparse {α : Type} {cond : Prop} {f : SplitResult → Except PyExc α}
    (hf : Decides cond (f (parsed url))) :
    Decides (AuthorityOk py url ∧ cond) (urlparse py url >>= f) := by
  cases h : checkNetloc py (split url).netloc with
  | error e =>
      obtain ⟨msg, rfl⟩ := valueError_of_checkNetloc h
      refine .inr ⟨fun hall => ?_, msg, ?_⟩
      · rw [AuthorityOk, h] at hall
        cases hall.1
      · rw [urlparse_of_error h]
        rfl
  | ok a =>
      have hok : AuthorityOk py url := h
      rw [urlparse_of_ok h]
      rcases hf with ⟨hcond, hfine⟩ | ⟨hcond, hvalue⟩
      · exact .inl ⟨⟨hok, hcond⟩, hfine⟩
      · exact .inr ⟨fun hall => hcond hall.2, hvalue⟩

theorem decides_of_fine {α : Type} {r : Except PyExc α} (h : Fine r) : Decides True r :=
  .inl ⟨trivial, h⟩

/-- A constructor, or what else comes after a `parse_url`. -/
theorem decides_bind {α β : Type} {cond : Prop} {r : Except PyExc α} {f : α → Except PyExc β}
    (hr : Decides cond r) (hf : ∀ a, Fine (f a)) : Decides cond (r >>= f) := by
  rcases hr with ⟨hcond, hfine⟩ | ⟨hcond, msg, rfl⟩
  · exact .inl ⟨hcond, fine_bind hfine hf⟩
  · exact .inr ⟨hcond, msg, rfl⟩

theorem decides_memory : Decides (AuthorityOk py url ∧ True) (MemoryBlob.fromUrl py url) := by
  refine decides_bind (decides_urlparse (decides_of_fine ?_)) fun _ => fine_ok _
  split
  · exact fine_blobError _
  · refine fine_bind (fine_getInt py _ _) fun _ => fine_bind (fine_getInt py _ _) fun _ => ?_
    exact fine_ok _

theorem decides_sqlite : Decides (AuthorityOk py url ∧ True) (SQLiteBlob.fromUrl py url) := by
  refine decides_bind (decides_urlparse (decides_of_fine ?_)) fun args =>
    fine_bind (fine_cleanDbItem _) fun _ => fine_bind (fine_cleanDbItem _) fun _ =>
      fine_bind (fine_cleanDbItem _) fun _ => fine_ok _
  split
  · exact fine_blobError _
  · exact fine_ok _

theorem decides_s3 : Decides (AuthorityOk py url ∧ True) (S3Blob.fromUrl py url) := by
  refine decides_bind (decides_urlparse (decides_of_fine ?_)) fun args => fine_s3 _ _ _ _ _ _
  split
  · exact fine_blobError _
  · dsimp only
    split
    · exact fine_blobError _
    · split
      · exact fine_blobError _
      · exact fine_ok _

theorem portOk_iff {u : SplitResult} : PortOk u ↔ ∃ n, u.port py = .ok n := by
  unfold PortOk SplitResult.port
  cases u.hostinfo.2 with
  | none => exact iff_of_true (by simp) ⟨none, rfl⟩
  | some port =>
      dsimp only
      cases hn : SplitResult.portNumber port with
      | some n =>
          refine iff_of_true ?_ ⟨some n, rfl⟩
          rintro _ ⟨⟩
          rw [hn]
          rfl
      | none =>
          refine iff_of_false (fun h => ?_) ?_
          · have hsome := h port rfl
            rw [hn] at hsome
            cases hsome
          · rintro ⟨n, h⟩
            by_cases hdigits : port.all Char.isDigit = true
            · rw [if_pos hdigits] at h
              cases h
            · rw [if_neg hdigits] at h
              cases h

/-- Without a host, the port is not looked at. -/
def FtpOk (py : Python) (u : SplitResult) : Prop := (orElse (u.hostname py) []).isEmpty ∨ PortOk u

theorem decides_ftp : Decides (AuthorityOk py url ∧ FtpOk py (parsed url))
    (FTPBlob.fromUrl py url) := by
  refine decides_bind (decides_urlparse ?_) fun _ => fine_ok _
  dsimp only
  split
  · next hempty => exact .inl ⟨.inl hempty, fine_blobError _⟩
  · next hhost =>
      cases hport : (parsed url).port py with
      | ok port => exact .inl ⟨.inr (portOk_iff.mpr ⟨port, hport⟩), fine_ok _⟩
      | error e =>
          obtain ⟨msg, rfl⟩ := valueError_of_port hport
          refine .inr ⟨?_, msg, rfl⟩
          rintro (hempty | hok)
          · exact hhost hempty
          · obtain ⟨n, hn⟩ := portOk_iff.mp hok
            rw [hport] at hn
            cases hn

section Open

variable {W : Type} {h : Handler File.fs W} {w : W} {cwd : File.Path}

/-- `exists` and `is_dir` of the root raise nothing. -/
def RootAnswers (h : Handler File.fs W) (w : W) (p : File.Path) : Prop :=
  ∃ r, (h w (.exists' p)).1 = .ok r ∧
    (r = true → ∃ r', (h (h w (.exists' p)).2 (.isDir p)).1 = .ok r')

/-- The root that `parse_url` finds has no NUL, and the file system answers. -/
def FileOk (h : Handler File.fs W) (w : W) (cwd : File.Path) (u : SplitResult) : Prop :=
  u.scheme ∈ ["file".toList, []] →
    ∃ p, FileBlob.resolveRoot cwd (if u.path.isEmpty then ['/'] else u.path) = .ok p ∧
      RootAnswers h w p

/-- The URL passes the checks of its backend, and the file system answers. -/
def Acceptable (py : Python) (h : Handler File.fs W) (w : W) (cwd : File.Path) (url : Str) : Prop :=
  match loader (schemaOf url) with
  | none => True
  | some .file => AuthorityOk py url ∧ FileOk h w cwd (parsed url)
  | some .ftp => AuthorityOk py url ∧ FtpOk py (parsed url)
  | some _ => AuthorityOk py url

/-- `except KeyError` of `open_blob` on a backend that touches no file. -/
theorem contract_ofExcept {α : Type} {cond : Prop} {r : Except PyExc α} {f : α → Blob} {schema : Str}
    (hr : Decides cond r) :
    Contract (((Program.ofExcept (r.map f) : FileProg Blob).tryCatch (caught schema)).run h () w).1 ↔
      cond := by
  rcases hr with ⟨hcond, hfine⟩ | ⟨hcond, msg, rfl⟩
  · cases r with
    | ok a => exact iff_of_true trivial hcond
    | error e =>
        obtain ⟨msg, rfl⟩ := hfine e rfl
        exact iff_of_true trivial hcond
  · exact iff_of_false id hcond

/-- The constructor of `FileBlob`. -/
theorem contract_init {schema root : Str} :
    wp h (((FileBlob.init cwd root).bind fun b => .pure (Blob.file b)).tryCatch (caught schema))
      (fun o _ _ => Contract o ↔ ∃ p, FileBlob.resolveRoot cwd root = .ok p ∧ RootAnswers h w p)
      () w := by
  rw [wp_tryCatch, wp_bind]
  unfold FileBlob.init
  cases hroot : FileBlob.resolveRoot cwd root with
  | error e =>
      have hvalue : ∃ msg, e = .valueError msg := by
        unfold FileBlob.resolveRoot File.resolve at hroot
        split at hroot
        · exact ⟨_, (Except.error.inj hroot).symm⟩
        · cases hroot
      obtain ⟨msg, rfl⟩ := hvalue
      exact iff_of_false id (by simp)
  | ok p =>
      have hanswers : (∃ p', Except.ok p = (Except.ok p' : Except PyExc File.Path) ∧
          RootAnswers h w p') ↔ RootAnswers h w p :=
        ⟨fun ⟨p', hp', hr⟩ => Except.ok.inj hp' ▸ hr, fun hr => ⟨p, rfl, hr⟩⟩
      rw [hanswers, Program.ofExcept, bind_eq, pure_bind', bind_eq, wp_bind]
      unfold FileBlob.pathExists RootAnswers
      rw [wp_call]
      cases hexists : (h w (.exists' p)).1 with
      | error e => exact iff_of_false id (by simp)
      | ok there =>
          rw [FileBlob.raising, wp_pure, bindPost_ok]
          cases there with
          | false => exact iff_of_true trivial ⟨false, rfl, by simp⟩
          | true => 
              rw [if_neg (by decide), bind_eq, wp_bind]
              unfold FileBlob.isDir
              rw [wp_call]
              cases hdir : (h (h w (.exists' p)).2 (.isDir p)).1 with
              | error e =>
                  refine iff_of_false id ?_
                  rintro ⟨r, ⟨⟩, hr⟩
                  obtain ⟨r', hr'⟩ := hr rfl
                  cases hr'
              | ok isDir =>
                  rw [FileBlob.raising, wp_pure, bindPost_ok]
                  have hall : ∃ r, Except.ok true = (Except.ok r : Except FileErr Bool) ∧
                      (r = true → ∃ r', Except.ok isDir = (Except.ok r' : Except FileErr Bool)) :=
                    ⟨true, rfl, fun _ => ⟨isDir, rfl⟩⟩
                  cases isDir with
                  | false => exact iff_of_true trivial hall
                  | true => exact iff_of_true trivial hall

theorem contract_file (schema : Str) :
    wp h (((FileBlob.fromUrl py cwd url).bind fun b => .pure (Blob.file b)).tryCatch (caught schema))
      (fun o _ _ => Contract o ↔ AuthorityOk py url ∧ FileOk h w cwd (parsed url)) () w := by
  unfold FileBlob.fromUrl FileBlob.parseUrl
  cases hauth : checkNetloc py (split url).netloc with
  | error e =>
      obtain ⟨msg, rfl⟩ := valueError_of_checkNetloc hauth
      rw [urlparse_of_error hauth]
      refine iff_of_false id fun hall => ?_
      have hok := hall.1
      rw [AuthorityOk, hauth] at hok
      cases hok
  | ok a =>
      have hok : AuthorityOk py url := hauth
      rw [urlparse_of_ok hauth]
      by_cases hscheme : (parsed url).scheme ∈ ["file".toList, []]
      · have hroot : ((Except.ok (parsed url) : Except PyExc SplitResult) >>= fun parsed =>
            if parsed.scheme ∉ ["file".toList, []] then
              throw (.blobError ("invalid scheme: " ++ fmt parsed.scheme))
            else pure (if parsed.path.isEmpty then ['/'] else parsed.path)) =
            .ok (if (parsed url).path.isEmpty then ['/'] else (parsed url).path) :=
          if_neg (not_not.mpr hscheme)
        rw [hroot]
        apply wp_mono contract_init
        intro o s w' hcontract
        exact hcontract.trans ⟨fun hp => ⟨hok, fun _ => hp⟩, fun hall => hall.2 hscheme⟩
      · have hroot : ((Except.ok (parsed url) : Except PyExc SplitResult) >>= fun parsed =>
            if parsed.scheme ∉ ["file".toList, []] then
              throw (.blobError ("invalid scheme: " ++ fmt parsed.scheme))
            else pure (if parsed.path.isEmpty then ['/'] else parsed.path)) =
            .error (.blobError ("invalid scheme: " ++ fmt (parsed url).scheme)) :=
          if_pos hscheme
        rw [hroot]
        exact iff_of_true trivial ⟨hok, fun h => absurd h hscheme⟩

end Open

/-- Python's functions on ASCII text. -/
def asciiPython : Python where
  lower s := s.map Char.toLower
  nfkc := id
  repr s := '\'' :: s ++ ['\'']
  decimal _ := none
  space _ := false
  ipAddress _ := none

theorem lowersAscii_ascii : LowersAscii asciiPython := fun _ _ => rfl

end GufoBlob
