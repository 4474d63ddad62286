import GufoBlob.Base
import GufoBlob.Data.FileTree
import GufoBlob.Text.Split

/-!
# Paths and files of `pathlib`

What the file backend uses of Python's `pathlib`, on a file system without symbolic links. A
resolved path is the list of its components, none of which is empty, `.` or `..`. The interface `fs`
has one call for each method of `Path` that touches the file system; `disk` answers them from a
`FileTree`.

`mkdir(parents=True, exist_ok=True)` is written out, because it goes up to the parent of the path
and beyond: `touches` says which paths a method touches.
-/

namespace GufoBlob

open Text Data Interaction

namespace File

/-! ## Paths -/

/-- A name that a directory entry can have. -/
def IsComponent (c : Str) : Prop := c ≠ [] ∧ c ≠ ['.'] ∧ c ≠ ['.', '.'] ∧ '/' ∉ c

instance (c : Str) : Decidable (IsComponent c) := inferInstanceAs (Decidable (_ ∧ _))

abbrev Component := { c : Str // IsComponent c }

/-- An absolute path that is resolved, without its leading `/`. -/
abbrev Path := List Component

/-- What is between the slashes of a path. -/
def names (s : Str) : List Str := s.splitOn '/'

/-- `Path(s).parts` of a relative path: empty names and `.` are dropped. -/
def parts (s : Str) : List Str := (names s).filter fun c => !(c.isEmpty || c = ['.'])

/-- One step of `os.path.realpath` where there are no links. -/
def realpathStep (p : Path) (c : Str) : Path :=
  if c = ['.', '.'] then p.dropLast
  else if h : IsComponent c then p ++ [⟨c, h⟩]
  else p

/-- `(p / s).resolve()`, for `s` without a leading slash. The system call that looks at a component
refuses a NUL. -/
def resolve (p : Path) (s : Str) : Except PyExc Path :=
  if '\x00' ∈ s then .error (.valueError "embedded null byte")
  else .ok ((parts s).foldl realpathStep p)

/-- `p.relative_to(root).as_posix()`, for `p` below `root` or equal to it. -/
def relativePosix (root p : Path) : Str :=
  match p.drop root.length with
  | [] => ['.']
  | rel => ['/'].intercalate (rel.map Subtype.val)

/-! ## File system calls -/

inductive FsOp where
  /-- `p.mkdir(parents=True, exist_ok=True)`. -/
  | mkdir (p : Path)
  | writeBytes (p : Path) (data : Bytes)
  | readBytes (p : Path)
  | unlink (p : Path)
  | exists' (p : Path)
  | isFile (p : Path)
  | isDir (p : Path)
  /-- `list(p.rglob("*"))`. -/
  | rglob (p : Path)

/-- The file system, as `pathlib` shows it. -/
abbrev fs : Interface where
  Op := FsOp
  Ans
    | .mkdir _ => Except FileErr Unit
    | .writeBytes _ _ => Except FileErr Unit
    | .readBytes _ => Except FileErr Bytes
    | .unlink _ => Except FileErr Unit
    | .exists' _ => Except FileErr Bool
    | .isFile _ => Except FileErr Bool
    | .isDir _ => Except FileErr Bool
    | .rglob _ => Except FileErr (List Path)

/-- The directories and files of a machine. -/
abbrev Disk := FileTree Component Bytes

/-- The `OSError` for a failed system call. -/
def fileErr : TreeError → FileErr
  | .notFound => .fileNotFound
  | .notDirectory => .notADirectory
  | .isDirectory => .isADirectory
  | .alreadyExists => .fileExists

/-- Where `mkdir` ended, and the paths it was called for or that it tested. -/
structure Made where
  result : Except FileErr Unit
  disk : Disk
  touched : List Path

/-- `os.mkdir` failed with `e`: `if not exist_ok or not self.is_dir(): raise`. -/
def existOk (t : Disk) (p : Path) (e : TreeError) : Made :=
  if t.isDir p then ⟨.ok (), t, [p, p]⟩ else ⟨.error (fileErr e), t, [p, p]⟩

/-- `p.mkdir(parents=False, exist_ok=True)`. -/
def mkdirOne (t : Disk) (p : Path) : Made :=
  match t.mkdir p with
  | .ok t' => ⟨.ok (), t', [p]⟩
  | .error .notFound => ⟨.error .fileNotFound, t, [p]⟩
  | .error e => existOk t p e

/-- `p.mkdir(parents=True, exist_ok=True)`, where `n` is the number of parents to go up. -/
def mkdirParents : Nat → Disk → Path → Made
  | 0, t, p => mkdirOne t p
  | n + 1, t, p =>
      match t.mkdir p with
      | .ok t' => ⟨.ok (), t', [p]⟩
      | .error .notFound =>
          let above := mkdirParents n t p.dropLast
          match above.result with
          | .error e => ⟨.error e, above.disk, p :: above.touched⟩
          | .ok _ =>
              let made := mkdirOne above.disk p
              { made with touched := p :: (above.touched ++ made.touched) }
      | .error e => existOk t p e

def mkdir (t : Disk) (p : Path) : Made := mkdirParents p.length t p

/-- `p.exists()`: what is missing, or is below a file, does not exist. -/
def pathExists (t : Disk) (p : Path) : Bool := (t.node p).isSome

/-- A change of the disk that may fail. -/
def changed (t : Disk) : Except TreeError Disk → Except FileErr Unit × Disk
  | .ok t' => (.ok (), t')
  | .error e => (.error (fileErr e), t)

/-- A file system that only fails for the reasons that the shape of the tree gives. -/
def disk : Handler fs Disk
  | t, .mkdir p => ((mkdir t p).result, (mkdir t p).disk)
  | t, .writeBytes p data => changed t (t.write p data)
  | t, .readBytes p => ((t.read p).mapError fileErr, t)
  | t, .unlink p => changed t (t.unlink p)
  | t, .exists' p => (.ok (pathExists t p), t)
  | t, .isFile p => (.ok (t.isFile p), t)
  | t, .isDir p => (.ok (t.isDir p), t)
  | t, .rglob p => (.ok (t.below p), t)

/-- The paths that a method touches. `rglob` lists the directory and those below it. -/
def touches (t : Disk) : FsOp → List Path
  | .mkdir p => (mkdir t p).touched
  | .writeBytes p _ => [p]
  | .readBytes p => [p]
  | .unlink p => [p]
  | .exists' p => [p]
  | .isFile p => [p]
  | .isDir p => [p]
  | .rglob p => p :: (t.below p).filter fun q => t.isDir q

/-! ## Resolving -/

/-- What a name does to a path that is put together so far. -/
theorem realpathStep_parts (p : Path) (c : Str) (hc : c.isEmpty || c = ['.']) :
    realpathStep p c = p := by
  have hno : ¬ IsComponent c := by
    rintro ⟨hne, hdot, -, -⟩
    simp only [Bool.or_eq_true, List.isEmpty_iff, decide_eq_true_eq] at hc
    exact hc.elim hne hdot
  have hdots : c ≠ ['.', '.'] := by
    rintro rfl
    simp at hc
  unfold realpathStep
  rw [if_neg hdots, dif_neg hno]

theorem realpathStep_up (p : Path) : realpathStep p ['.', '.'] = p.dropLast := if_pos rfl

theorem realpathStep_component (p : Path) {c : Str} (hc : IsComponent c) :
    realpathStep p c = p ++ [⟨c, hc⟩] := by
  unfold realpathStep
  rw [if_neg hc.2.2.1, dif_pos hc]

/-- The names that `pathlib` drops would change nothing. -/
theorem foldl_parts (p : Path) (l : List Str) :
    (l.filter fun c => !(c.isEmpty || c = ['.'])).foldl realpathStep p =
      l.foldl realpathStep p := by
  induction l generalizing p with
  | nil => rfl
  | cons c l ih =>
      by_cases hc : c.isEmpty || c = ['.']
      · rw [List.filter_cons_of_neg (by simp [hc]), ih, List.foldl_cons,
          realpathStep_parts p c hc]
      · rw [List.filter_cons_of_pos (by simpa using hc), List.foldl_cons, ih, List.foldl_cons]

end File

end GufoBlob
