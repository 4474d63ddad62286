import GufoBlob.Data.Dict
import Mathlib.Data.List.Infix

/-!
# File trees

A file system without links: a finite tree of directories and files, each named by the path from the
root to it. The invariant of the structure is that whatever exists lies in a directory. The
operations are those of a system call interface, and fail for the reasons that the shape of a tree
gives: something on the way is missing or is not a directory, or the path itself names the wrong
kind of thing.

Each operation has one lemma about when it succeeds and one about the tree that it leaves, in terms
of `node`.
-/

namespace GufoBlob.Data

/-- What a path names. -/
inductive Node (β : Type) where
  | dir
  | file (data : β)
  deriving DecidableEq

/-- Why an operation fails. -/
inductive TreeError where
  | notFound
  | notDirectory
  | isDirectory
  | alreadyExists
  deriving DecidableEq

/-- What lies above a path is its parent or lies above that. -/
theorem prefix_dropLast {κ : Type} {p q : List κ} (hqp : q <+: p) (hne : q ≠ p) : q <+: p.dropLast := by
  have hp : p ≠ [] := by
    rintro rfl
    exact hne (List.prefix_nil.mp hqp)
  rw [← List.dropLast_concat_getLast hp] at hqp hne
  exact (List.prefix_concat_iff.mp hqp).resolve_left hne

variable {κ β : Type} [DecidableEq κ]

/-- What is in a tree, apart from its root. -/
structure FileTree (κ β : Type) [DecidableEq κ] where
  nodes : Dict (List κ) (Node β)
  parent : ∀ p x, p ++ [x] ∈ nodes → p = [] ∨ nodes.get? p = some .dir

namespace FileTree

/-- What a path names, if anything. -/
def node (t : FileTree κ β) (p : List κ) : Option (Node β) :=
  if p = [] then some .dir else t.nodes.get? p

/-- A tree with nothing in it. -/
def empty : FileTree κ β := ⟨.empty, fun _ _ h => nomatch h⟩

def isFile (t : FileTree κ β) (p : List κ) : Bool :=
  match t.node p with
  | some (.file _) => true
  | _ => false

def isDir (t : FileTree κ β) (p : List κ) : Bool :=
  match t.node p with
  | some .dir => true
  | _ => false

/-- Some file is in the way to `p`. -/
def fileAbove (t : FileTree κ β) (p : List κ) : Bool := p.inits.dropLast.any t.isFile

/-- Follows a path. -/
def lookup (t : FileTree κ β) (p : List κ) : Except TreeError (Node β) :=
  match t.node p with
  | some n => .ok n
  | none => .error (if t.fileAbove p then .notDirectory else .notFound)

/-- The paths below a directory. -/
def below (t : FileTree κ β) (p : List κ) : List (List κ) :=
  t.nodes.keys.filter fun q => decide (p <+: q ∧ q ≠ p)

@[simp] theorem node_nil (t : FileTree κ β) : t.node [] = some .dir := if_pos rfl

theorem isFile_iff {t : FileTree κ β} {p : List κ} :
    t.isFile p = true ↔ ∃ d, t.node p = some (.file d) := by
  unfold isFile
  split <;> grind

theorem isDir_iff {t : FileTree κ β} {p : List κ} : t.isDir p = true ↔ t.node p = some .dir := by
  unfold isDir
  split <;> grind

theorem ne_nil_of_isFile {t : FileTree κ β} {p : List κ} (h : t.isFile p = true) : p ≠ [] := by
  rintro rfl
  rw [isFile_iff, node_nil] at h
  cases h.choose_spec

theorem isFile_empty (p : List κ) : (empty : FileTree κ β).isFile p = false := by
  rw [Bool.eq_false_iff, ne_eq, isFile_iff]
  rintro ⟨d, hd⟩
  unfold node at hd
  split at hd
  · cases hd
  · cases hd

/-- Whatever exists lies in a directory. -/
theorem node_parent {t : FileTree κ β} {p : List κ} {x : κ} (h : t.node (p ++ [x]) ≠ none) :
    t.node p = some .dir := by
  have hmem : p ++ [x] ∈ t.nodes := by
    by_contra hno
    exact h (by rw [node, if_neg (by simp), Dict.get?_eq_none_iff.mpr hno])
  rcases t.parent p x hmem with rfl | hdir
  · exact node_nil t
  · unfold node
    split
    · rfl
    · exact hdir

/-- Everything on the way to an existing path is a directory. -/
theorem node_above {t : FileTree κ β} {p q : List κ} (hqp : q <+: p) (hne : q ≠ p)
    (h : t.node p ≠ none) : t.node q = some .dir := by
  obtain ⟨r, rfl⟩ := hqp
  induction r using List.reverseRecOn with
  | nil => exact absurd (List.append_nil q).symm hne
  | append_singleton r x ih =>
      have hdir : t.node (q ++ r) = some .dir := by
        apply node_parent (x := x)
        rwa [List.append_assoc]
      cases r with
      | nil => rwa [List.append_nil] at hdir
      | cons y r => exact ih (by simp) (by simp [hdir])

theorem fileAbove_iff {t : FileTree κ β} {p : List κ} :
    t.fileAbove p = true ↔ ∃ q, q <+: p ∧ q ≠ p ∧ t.isFile q = true := by
  have hmem : ∀ q, q ∈ p.inits.dropLast ↔ q <+: p ∧ q ≠ p := by
    intro q
    induction p using List.reverseRecOn with
    | nil => simp
    | append_singleton p x _ =>
        have hinits : (p ++ [x]).inits.dropLast = p.inits := by
          rw [List.inits_append]
          simp [List.dropLast_append_of_ne_nil]
        rw [hinits, List.mem_inits]
        constructor
        · intro hq
          refine ⟨hq.trans (List.prefix_append p [x]), ?_⟩
          rintro rfl
          have hlen := hq.length_le
          rw [List.length_append, List.length_singleton] at hlen
          omega
        · rintro ⟨hq, hne⟩
          exact (List.prefix_concat_iff.mp hq).resolve_left hne
  unfold fileAbove
  rw [List.any_eq_true]
  constructor
  · rintro ⟨q, hq, hfile⟩
    exact ⟨q, ((hmem q).mp hq).1, ((hmem q).mp hq).2, hfile⟩
  · rintro ⟨q, hqp, hne, hfile⟩
    exact ⟨q, (hmem q).mpr ⟨hqp, hne⟩, hfile⟩

theorem lookup_of_node {t : FileTree κ β} {p : List κ} {n : Node β} (h : t.node p = some n) :
    t.lookup p = .ok n := by
  unfold lookup
  rw [h]

theorem lookup_of_none {t : FileTree κ β} {p : List κ} (h : t.node p = none) :
    t.lookup p = .error (if t.fileAbove p then .notDirectory else .notFound) := by
  unfold lookup
  rw [h]

theorem mem_below {t : FileTree κ β} {p q : List κ} :
    q ∈ t.below p → p <+: q ∧ q ≠ p := by
  intro h
  simpa using (List.mem_filter.mp h).2

/-- A file lies below a directory or it does not: the list of the paths below is complete. -/
theorem mem_below_of_file {t : FileTree κ β} {p q : List κ} (hq : t.isFile q = true)
    (hpq : p <+: q) (hne : q ≠ p) : q ∈ t.below p := by
  obtain ⟨d, hd⟩ := isFile_iff.mp hq
  have hmem : q ∈ t.nodes := by
    by_contra hno
    simp [node, ne_nil_of_isFile hq, Dict.get?_eq_none_iff.mpr hno] at hd
  exact List.mem_filter.mpr ⟨hmem, by simp [hpq, hne]⟩

theorem nodup_below (t : FileTree κ β) (p : List κ) : (t.below p).Nodup := t.nodes.nodup.filter _

/-! ## Changing a tree -/

/-- Puts `n` at `p`, in a directory, and not in place of one. -/
def insert (t : FileTree κ β) (p : List κ) (x : κ) (n : Node β) (hdir : t.isDir p = true)
    (hnot : t.isDir (p ++ [x]) = false) : FileTree κ β where
  nodes := t.nodes.set (p ++ [x]) n
  parent := by
    intro q y hmem
    have hnode : ∀ q, t.node q = some .dir → q = [] ∨ (t.nodes.set (p ++ [x]) n).get? q =
        some .dir := by
      intro q hq
      by_cases hnil : q = []
      · exact .inl hnil
      · have hne : q ≠ p ++ [x] := by
          rintro rfl
          rw [isDir_iff.mpr hq] at hnot
          cases hnot
        right
        rw [Dict.get?_set, if_neg hne]
        simpa [node, hnil] using hq
    by_cases hq : q ++ [y] = p ++ [x]
    · obtain ⟨rfl, -⟩ := List.append_inj' hq rfl
      exact hnode q (isDir_iff.mp hdir)
    · apply hnode q
      apply node_parent (x := y)
      intro hnone
      apply absurd hmem
      rw [← Dict.get?_eq_none_iff, Dict.get?_set, if_neg hq]
      simpa [node] using hnone

theorem node_insert (t : FileTree κ β) (p : List κ) (x : κ) (n : Node β) (hdir hnot)
    (q : List κ) :
    (t.insert p x n hdir hnot).node q = if q = p ++ [x] then some n else t.node q := by
  unfold node insert
  by_cases hnil : q = []
  · subst hnil
    simp
  · rw [if_neg hnil, if_neg hnil, Dict.get?_set]

/-- Removes what is at `p`, which is not a directory. -/
def remove (t : FileTree κ β) (p : List κ) (hnot : t.isDir p = false) : FileTree κ β where
  nodes := t.nodes.erase p
  parent := by
    intro q y hmem
    have hget : (t.nodes.erase p).get? (q ++ [y]) ≠ none := by
      rwa [ne_eq, Dict.get?_eq_none_iff, not_not]
    rw [Dict.get?_erase] at hget
    have hne : q ++ [y] ≠ p := fun h => hget (if_pos h)
    rw [if_neg hne] at hget
    have hdir : t.node q = some .dir := node_parent (x := y) (by simpa [node] using hget)
    by_cases hnil : q = []
    · exact .inl hnil
    · have hqp : q ≠ p := by
        rintro rfl
        rw [isDir_iff.mpr hdir] at hnot
        cases hnot
      right
      rw [Dict.get?_erase, if_neg hqp]
      simpa [node, hnil] using hdir

theorem node_remove (t : FileTree κ β) (p : List κ) (hnot) (q : List κ) :
    (t.remove p hnot).node q = if q = p then none else t.node q := by
  have hp : p ≠ [] := by
    rintro rfl
    rw [isDir_iff.mpr (node_nil t)] at hnot
    cases hnot
  unfold node remove
  by_cases hnil : q = []
  · subst hnil
    simp [Ne.symm hp]
  · rw [if_neg hnil, if_neg hnil, Dict.get?_erase]

/-! ## System calls -/

/-- Creates what is not there, in the directory that it is to lie in. -/
def create (t : FileTree κ β) (p : List κ) (n : Node β) : Except TreeError (FileTree κ β) :=
  match p.getLast? with
  | none => .error .isDirectory
  | some x =>
      if h : t.isDir p.dropLast = true ∧ t.isDir (p.dropLast ++ [x]) = false then
        .ok (t.insert p.dropLast x n h.1 h.2)
      else .error .notFound

/-- `mkdir(2)`. -/
def mkdir (t : FileTree κ β) (p : List κ) : Except TreeError (FileTree κ β) :=
  match t.lookup p with
  | .ok _ => .error .alreadyExists
  | .error .notFound => t.create p .dir
  | .error e => .error e

/-- Opening a file for writing, and writing it. -/
def write (t : FileTree κ β) (p : List κ) (data : β) : Except TreeError (FileTree κ β) :=
  match t.lookup p with
  | .ok .dir => .error .isDirectory
  | .ok (.file _) => t.create p (.file data)
  | .error .notFound => t.create p (.file data)
  | .error e => .error e

/-- Opening a file and reading it. -/
def read (t : FileTree κ β) (p : List κ) : Except TreeError β :=
  match t.lookup p with
  | .ok .dir => .error .isDirectory
  | .ok (.file data) => .ok data
  | .error e => .error e

/-- `unlink(2)`. -/
def unlink (t : FileTree κ β) (p : List κ) : Except TreeError (FileTree κ β) :=
  match t.lookup p with
  | .error e => .error e
  | .ok _ => if h : t.isDir p = false then .ok (t.remove p h) else .error .isDirectory

theorem create_of_dir {t : FileTree κ β} {p : List κ} (hp : p ≠ [])
    (hdir : t.node p.dropLast = some .dir) (hnot : t.isDir p = false) (n : Node β) :
    ∃ t', t.create p n = .ok t' ∧ ∀ q, t'.node q = if q = p then some n else t.node q := by
  have hlast := List.dropLast_concat_getLast hp
  have hdir := isDir_iff.mpr hdir
  rw [← hlast] at hnot
  unfold create
  rw [List.getLast?_eq_some_getLast hp]
  dsimp only
  rw [dif_pos ⟨hdir, hnot⟩]
  refine ⟨_, rfl, fun q => ?_⟩
  rw [node_insert, hlast]

theorem create_of_not_dir {t : FileTree κ β} {p : List κ} (hp : p ≠ [])
    (hdir : t.node p.dropLast ≠ some .dir) (n : Node β) : t.create p n = .error .notFound := by
  unfold create
  rw [List.getLast?_eq_some_getLast hp]
  exact dif_neg fun h => hdir (isDir_iff.mp h.1)

theorem read_of_file {t : FileTree κ β} {p : List κ} {d : β} (h : t.node p = some (.file d)) :
    t.read p = .ok d := by
  unfold read
  rw [lookup_of_node h]

theorem read_of_none {t : FileTree κ β} {p : List κ} (h : t.node p = none)
    (hno : t.fileAbove p = false) : t.read p = .error .notFound := by
  unfold read
  rw [lookup_of_none h, hno]
  rfl

theorem unlink_of_file {t : FileTree κ β} {p : List κ} {d : β} (h : t.node p = some (.file d)) :
    ∃ t', t.unlink p = .ok t' ∧ ∀ q, t'.node q = if q = p then none else t.node q := by
  have hnot : t.isDir p = false := by
    unfold isDir
    rw [h]
  unfold unlink
  rw [lookup_of_node h]
  dsimp only
  rw [dif_pos hnot]
  exact ⟨_, rfl, node_remove t p hnot⟩

theorem unlink_of_none {t : FileTree κ β} {p : List κ} (h : t.node p = none)
    (hno : t.fileAbove p = false) : t.unlink p = .error .notFound := by
  unfold unlink
  rw [lookup_of_none h, hno]
  rfl

theorem write_of_isDir {t : FileTree κ β} {p : List κ} (h : t.node p = some .dir) (data : β) :
    t.write p data = .error .isDirectory := by
  unfold write
  rw [lookup_of_node h]

theorem write_of_dir {t : FileTree κ β} {p : List κ} (hp : p ≠ [])
    (hdir : t.node p.dropLast = some .dir) (hnot : t.isDir p = false) (data : β) :
    ∃ t', t.write p data = .ok t' ∧
      ∀ q, t'.node q = if q = p then some (.file data) else t.node q := by
  have hcreate := create_of_dir hp hdir hnot (.file data)
  cases h : t.node p with
  | some n =>
      cases n with
      | dir => exact absurd (isDir_iff.mpr h) (by simp [hnot])
      | file d =>
          unfold write
          rwa [lookup_of_node h]
  | none =>
      have hno : t.fileAbove p = false := by
        rw [Bool.eq_false_iff, ne_eq, fileAbove_iff]
        rintro ⟨q, hqp, hne, hfile⟩
        obtain ⟨d, hd⟩ := isFile_iff.mp hfile
        have hq := prefix_dropLast hqp hne
        by_cases heq : q = p.dropLast
        · rw [heq, hdir] at hd
          cases hd
        · rw [node_above hq heq (by rw [hdir]; exact nofun)] at hd
          cases hd
      unfold write
      rw [lookup_of_none h, hno]
      exact hcreate

@[ext] theorem ext {t t' : FileTree κ β} (h : t.nodes = t'.nodes) : t = t' := by
  cases t
  cases t'
  simpa using h

/-- Unlinking a file that was not there before gives the tree back. -/
theorem unlink_write {t t' : FileTree κ β} {p : List κ} {data : β} (h : t.node p = none)
    (hwrite : t.write p data = .ok t') : t'.unlink p = .ok t := by
  have hp : p ≠ [] := by
    rintro rfl
    simp at h
  have hnodes : t'.nodes = t.nodes.set p (.file data) := by
    unfold write at hwrite
    rw [lookup_of_none h] at hwrite
    cases habove : t.fileAbove p with
    | true => simp [habove] at hwrite
    | false =>
        simp only [habove, Bool.false_eq_true, if_false, create,
          List.getLast?_eq_some_getLast hp] at hwrite
        split at hwrite
        · cases hwrite
          simp [insert, List.dropLast_concat_getLast hp]
        · cases hwrite
  have hnode : t'.node p = some (.file data) := by
    simp [node, hp, hnodes, Dict.get?_set]
  have hnew : p ∉ t.nodes := by
    rw [← Dict.get?_eq_none_iff]
    simpa [node, hp] using h
  have hfile : t'.isDir p = false := by simp [isDir, hnode]
  unfold unlink
  simp only [lookup_of_node hnode, hfile, dif_pos]
  congr 1
  apply ext
  simp [remove, hnodes, Dict.erase_set hnew]

/-- No file lies at or above `p`. -/
def Clear (t : FileTree κ β) (p : List κ) : Prop := ∀ q, q <+: p → t.isFile q = false

theorem Clear.prefix {t : FileTree κ β} {p q : List κ} (h : t.Clear p) (hq : q <+: p) : t.Clear q :=
  fun r hr => h r (hr.trans hq)

theorem Clear.fileAbove {t : FileTree κ β} {p : List κ} (h : t.Clear p) :
    t.fileAbove p = false := by
  rw [Bool.eq_false_iff, ne_eq, fileAbove_iff]
  rintro ⟨q, hqp, -, hfile⟩
  rw [h q hqp] at hfile
  cases hfile

theorem Clear.node {t : FileTree κ β} {p : List κ} (h : t.Clear p) :
    t.node p = some .dir ∨ t.node p = none := by
  cases hp : t.node p with
  | none => exact .inr rfl
  | some n =>
      cases n with
      | dir => exact .inl rfl
      | file d =>
          have hfile := h p (List.prefix_refl p)
          rw [isFile_iff.mpr ⟨d, hp⟩] at hfile
          cases hfile

theorem mkdir_of_exists {t : FileTree κ β} {p : List κ} {n : Node β} (h : t.node p = some n) :
    t.mkdir p = .error .alreadyExists := by
  unfold mkdir
  rw [lookup_of_node h]

/-- `mkdir` where nothing is in the way: it needs the directory that the new one is to lie in. -/
theorem mkdir_of_none {t : FileTree κ β} {p : List κ} (hclear : t.Clear p) (h : t.node p = none) :
    (t.node p.dropLast = some .dir ∧ ∃ t', t.mkdir p = .ok t' ∧
      ∀ q, t'.node q = if q = p then some .dir else t.node q) ∨
    (t.node p.dropLast ≠ some .dir ∧ t.mkdir p = .error .notFound) := by
  have hp : p ≠ [] := by
    rintro rfl
    rw [node_nil] at h
    cases h
  have hnot : t.isDir p = false := by
    unfold isDir
    rw [h]
  unfold mkdir
  rw [lookup_of_none h, hclear.fileAbove]
  by_cases hdir : t.node p.dropLast = some .dir
  · exact .inl ⟨hdir, create_of_dir hp hdir hnot _⟩
  · exact .inr ⟨hdir, create_of_not_dir hp hdir _⟩

/-- The directories on the way to `p` are in `t'`, and otherwise it is the tree `t`. -/
def Reaches (t t' : FileTree κ β) (p : List κ) : Prop :=
  ∀ q, t'.node q = if q <+: p then some .dir else t.node q

theorem reaches_nil (t : FileTree κ β) : t.Reaches t [] := by
  intro q
  split
  · next hq =>
      rw [List.prefix_nil.mp hq]
      exact node_nil t
  · rfl

/-- One step further: the directory is made, or it is there. -/
theorem Reaches.mkdir {t t₁ : FileTree κ β} {p : List κ} {x : κ} (h : t.Reaches t₁ p)
    (hfile : t.isFile (p ++ [x]) = false) :
    ∃ t₂, t.Reaches t₂ (p ++ [x]) ∧
      (t₁.mkdir (p ++ [x]) = .ok t₂ ∨ t₂ = t₁ ∧ ∃ e, t₁.mkdir (p ++ [x]) = .error e) := by
  have hlonger : ¬ p ++ [x] <+: p := fun hp => absurd hp.length_le (by simp)
  have hnode : t₁.node (p ++ [x]) = t.node (p ++ [x]) := (h _).trans (if_neg hlonger)
  have hnext : ∀ t₂ : FileTree κ β, t₂.node (p ++ [x]) = some .dir →
      (∀ q, q ≠ p ++ [x] → t₂.node q = t₁.node q) → t.Reaches t₂ (p ++ [x]) := by
    intro t₂ hdir hother q
    by_cases hq : q = p ++ [x]
    · rw [hq, hdir, if_pos (List.prefix_refl _)]
    · have hiff : q <+: p ++ [x] ↔ q <+: p := by
        rw [List.prefix_concat_iff]
        exact or_iff_right hq
      rw [hother q hq, h q]
      simp only [hiff]
  cases hx : t₁.node (p ++ [x]) with
  | some n =>
      -- what is there is a directory, since it was no file before
      cases n with
      | dir => exact ⟨t₁, hnext t₁ hx fun _ _ => rfl, .inr ⟨rfl, _, mkdir_of_exists hx⟩⟩
      | file d =>
          rw [hnode] at hx
          exact absurd (isFile_iff.mpr ⟨d, hx⟩) (by simp [hfile])
  | none =>
      -- nothing is there, and nothing but directories above it
      have hp : t₁.node p = some .dir := (h p).trans (if_pos (List.prefix_refl p))
      have hclear : t₁.Clear (p ++ [x]) := by
        intro q hq
        rw [Bool.eq_false_iff, ne_eq, isFile_iff]
        rintro ⟨d, hd⟩
        rcases List.prefix_concat_iff.mp hq with rfl | hqp
        · rw [hx] at hd
          cases hd
        · rw [h q, if_pos hqp] at hd
          cases hd
      rcases mkdir_of_none hclear hx with ⟨-, t₂, hmkdir, ht₂⟩ | ⟨hnot, -⟩
      · refine ⟨t₂, hnext t₂ ?_ fun q hq => ?_, .inl hmkdir⟩
        · rw [ht₂, if_pos rfl]
        · rw [ht₂, if_neg hq]
      · rw [List.dropLast_concat] at hnot
        exact absurd hp hnot

/-- Nothing is above a file but directories. -/
theorem clear_of_file {t : FileTree κ β} {p : List κ} (h : t.isFile p = true) :
    t.isDir p = false ∧ t.fileAbove p = false := by
  obtain ⟨d, hd⟩ := isFile_iff.mp h
  constructor
  · unfold isDir
    rw [hd]
  · rw [Bool.eq_false_iff, ne_eq, fileAbove_iff]
    rintro ⟨q, hqp, hne, hq⟩
    obtain ⟨d', hd'⟩ := isFile_iff.mp hq
    rw [node_above hqp hne (by rw [hd]; exact nofun)] at hd'
    cases hd'

/-- Reading gives the data of a file, and fails in three ways. -/
theorem read_cases (t : FileTree κ β) (p : List κ) :
    (∃ d, t.node p = some (.file d) ∧ t.read p = .ok d) ∨
      (t.node p = some .dir ∧ t.read p = .error .isDirectory) ∨
      (t.node p = none ∧ t.fileAbove p = true ∧ t.read p = .error .notDirectory) ∨
      (t.node p = none ∧ t.fileAbove p = false ∧ t.read p = .error .notFound) := by
  cases h : t.node p with
  | none =>
      unfold read
      rw [lookup_of_none h]
      cases habove : t.fileAbove p with
      | true => exact .inr (.inr (.inl ⟨rfl, rfl, rfl⟩))
      | false => exact .inr (.inr (.inr ⟨rfl, rfl, rfl⟩))
  | some n =>
      unfold read
      rw [lookup_of_node h]
      cases n with
      | dir => exact .inr (.inl ⟨rfl, rfl⟩)
      | file d => exact .inl ⟨d, rfl, rfl⟩

/-- Unlinking removes a file, and fails in the same three ways. -/
theorem unlink_cases (t : FileTree κ β) (p : List κ) :
    (∃ d, t.node p = some (.file d) ∧ ∃ t', t.unlink p = .ok t') ∨
      (t.node p = some .dir ∧ t.unlink p = .error .isDirectory) ∨
      (t.node p = none ∧ t.fileAbove p = true ∧ t.unlink p = .error .notDirectory) ∨
      (t.node p = none ∧ t.fileAbove p = false ∧ t.unlink p = .error .notFound) := by
  cases h : t.node p with
  | none =>
      unfold unlink
      rw [lookup_of_none h]
      cases habove : t.fileAbove p with
      | true => exact .inr (.inr (.inl ⟨rfl, rfl, rfl⟩))
      | false => exact .inr (.inr (.inr ⟨rfl, rfl, rfl⟩))
  | some n =>
      cases n with
      | dir =>
          have hdir := isDir_iff.mpr h
          refine .inr (.inl ⟨rfl, ?_⟩)
          unfold unlink
          rw [lookup_of_node h]
          exact dif_neg (by simp [hdir])
      | file d =>
          obtain ⟨t', hunlink, -⟩ := unlink_of_file h
          exact .inl ⟨d, rfl, t', hunlink⟩

/-! ## Listing a directory -/

/-- What is directly in a directory: the names, and whether they name directories. -/
def entries (t : FileTree κ β) (p : List κ) : List (κ × Bool) :=
  t.nodes.keys.filterMap fun q =>
    match q.getLast? with
    | some x => if q.dropLast = p then some (x, t.isDir q) else none
    | none => none

theorem mem_entries {t : FileTree κ β} {p : List κ} {x : κ} {d : Bool} :
    (x, d) ∈ t.entries p ↔ t.node (p ++ [x]) ≠ none ∧ t.isDir (p ++ [x]) = d := by
  have hkeys : p ++ [x] ∈ t.nodes.keys ↔ t.node (p ++ [x]) ≠ none := by
    unfold node
    rw [if_neg (by simp), ne_eq, Dict.get?_eq_none_iff, not_not]
    rfl
  unfold entries
  rw [List.mem_filterMap, ← hkeys]
  constructor
  · rintro ⟨q, hq, heq⟩
    induction q using List.reverseRecOn with
    | nil => cases heq
    | append_singleton q y _ =>
        rw [List.getLast?_concat, List.dropLast_concat] at heq
        grind
  · rintro ⟨hmem, hd⟩
    exact ⟨p ++ [x], hmem, by simp [hd]⟩

/-- A directory has every name once. -/
theorem nodup_entries (t : FileTree κ β) (p : List κ) : ((t.entries p).map Prod.fst).Nodup := by
  have hname : ∀ q x, q.getLast? = some x → q.dropLast = p → q = p ++ [x] := by
    intro q x hx hp
    rw [← hp, List.dropLast_append_getLast? x hx]
  unfold entries
  rw [List.map_filterMap]
  apply List.Nodup.filterMap _ t.nodes.nodup
  intro q q' x hx hx'
  grind

/-- Trees in which every path names the same have the same entries, if not in the same order. -/
theorem perm_entries {t t' : FileTree κ β} (h : t.node = t'.node) (p : List κ) :
    (t.entries p).Perm (t'.entries p) := by
  rw [List.perm_ext_iff_of_nodup (t.nodup_entries p).of_map (t'.nodup_entries p).of_map]
  rintro ⟨x, d⟩
  rw [mem_entries, mem_entries]
  unfold isDir
  rw [h]

end FileTree

end GufoBlob.Data
