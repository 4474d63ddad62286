import GufoBlob.File.Unified

/-!
# The calls of the file backend

What each call returns on a disk that only fails for the shape of its tree, and the tree that it
leaves. A key is plain when it is made of names other than `.` and `..` with single slashes between
them: such a key is the relative path of one place below the root.

* `put_cases`, `delete_cases` — the ends of a call that changes the tree: one that fails leaves it
  as it is.
* `mem_listed` — `scan` yields the files at or below its base.
* `resolve_plain`, `relativePosix_plain` — from a plain key to its path and back.
-/

namespace GufoBlob

open Text Data Interaction Program File

namespace File

theorem mkdir_of_dir {t : Disk} {p : Path} (h : t.node p = some .dir) :
    mkdir t p = ⟨.ok (), t, [p, p]⟩ := by
  have hexists := FileTree.mkdir_of_exists h
  unfold mkdir
  cases p.length with
  | zero => simp [mkdirParents, mkdirOne, hexists, existOk_dir h]
  | succ n => simp [mkdirParents, hexists, existOk_dir h]

/-! ## Names and paths -/

/-- The key is made of names other than `.` and `..`, with single slashes between them. -/
def PlainKey (key : Str) : Prop := ∀ c ∈ names key, c ≠ [] ∧ c ≠ ['.'] ∧ c ≠ ['.', '.']

instance (key : Str) : Decidable (PlainKey key) := inferInstanceAs (Decidable (∀ c ∈ _, _))

/-- `q` is the path of the key below the root. -/
def Spells (key : Str) (q : Path) : Prop := q.map Subtype.val = names key

theorem PlainKey.spells {key : Str} (h : PlainKey key) : ∃ q, Spells key q := by
  have hname : ∀ c ∈ names key, IsComponent c := by
    intro c hc
    obtain ⟨hne, hdot, hdots⟩ := h c hc
    exact ⟨hne, hdot, hdots, notMem_of_mem_splitOn hc⟩
  exact ⟨(names key).pmap Subtype.mk hname, by simp [Spells, List.map_pmap]⟩

section Spells

variable {key : Str} {q : Path}

theorem Spells.plain (h : Spells key q) : PlainKey key := by
  intro c hc
  rw [← h] at hc
  obtain ⟨x, -, rfl⟩ := List.mem_map.mp hc
  exact ⟨x.2.1, x.2.2.1, x.2.2.2.1⟩

theorem Spells.ne_nil (h : Spells key q) : q ≠ [] := by
  rintro rfl
  exact List.splitOn_ne_nil '/' key h.symm

theorem Spells.intercalate (h : Spells key q) : ['/'].intercalate (q.map Subtype.val) = key := by
  rw [h]
  exact List.intercalate_splitOn '/'

/-- Every path but the root has a key. -/
theorem spells_intercalate (hq : q ≠ []) : Spells (['/'].intercalate (q.map Subtype.val)) q := by
  have hname : ∀ c ∈ q.map Subtype.val, '/' ∉ c := by
    intro c hc
    obtain ⟨x, -, rfl⟩ := List.mem_map.mp hc
    exact x.2.2.2.2
  have hne : q.map Subtype.val ≠ [] := fun h => hq (List.map_eq_nil_iff.mp h)
  exact (List.splitOn_intercalate '/' hname hne).symm

theorem Spells.injective {key' : Str} (h : Spells key q) (h' : Spells key' q) : key = key' :=
  h.intercalate.symm.trans h'.intercalate

theorem Spells.unique {q' : Path} (h : Spells key q) (h' : Spells key q') : q = q' :=
  List.map_injective_iff.mpr Subtype.val_injective (h.trans h'.symm)

/-- A NUL of the key is in one of its names. -/
theorem Spells.nul_iff (h : Spells key q) : '\x00' ∈ key ↔ ∃ c ∈ q, '\x00' ∈ c.val := by
  have hflat : '\x00' ∈ key ↔ '\x00' ∈ (names key).flatten := by
    unfold names
    rw [flatten_splitOn, List.mem_filter]
    simp
  rw [hflat, ← h]
  simp

/-- Neither empty nor absolute. -/
theorem PlainKey.head (h : PlainKey key) : key ≠ [] ∧ key.head? ≠ some '/' := by
  have hno : [] ∉ names key := fun hc => (h [] hc).1 rfl
  cases key with
  | nil => simp [names] at hno
  | cons c key =>
      refine ⟨by simp, ?_⟩
      rintro hc
      obtain rfl : c = '/' := by simpa using hc
      exact hno (by simp [names, List.splitOn_eq_splitOnP, List.splitOnP_cons_eq_if_modifyHead])

theorem Spells.parts (h : Spells key q) : parts key = q.map Subtype.val := by
  unfold File.parts
  rw [h, List.filter_eq_self]
  intro c hc
  obtain ⟨hne, hdot, -⟩ := h.plain c hc
  simp [hne, hdot]

end Spells

theorem foldl_components (p q : Path) : (q.map Subtype.val).foldl realpathStep p = p ++ q := by
  induction q generalizing p with
  | nil => simp
  | cons c q ih =>
      rw [List.map_cons, List.foldl_cons, realpathStep_component p c.2, ih]
      simp

theorem relativePosix_append {root q : Path} (hq : q ≠ []) :
    relativePosix root (root ++ q) = ['/'].intercalate (q.map Subtype.val) := by
  unfold relativePosix
  rw [List.drop_left]
  cases q with
  | nil => exact absurd rfl hq
  | cons c q => rfl

end File

namespace FileBlob

variable {b : FileBlob} {t : Disk} {key : Str} {p q : Path}

theorem resolve_of_parts (hkey : key ≠ [] ∧ key.head? ≠ some '/') (hnul : '\x00' ∉ key)
    (hparts : parts key = q.map Subtype.val) : b.resolve key = .ok (b.root ++ q) := by
  have hfold : File.resolve b.root key = .ok (b.root ++ q) := by
    rw [File.resolve, if_neg hnul, hparts, foldl_components]
  unfold resolve
  rw [if_neg (by simp [hkey.1, hkey.2]), hfold]
  simp [Bind.bind, Except.bind, Pure.pure, Except.pure]

/-- A plain key has the path that it spells. -/
theorem resolve_plain (h : Spells key q) (hnul : '\x00' ∉ key) :
    b.resolve key = .ok (b.root ++ q) := resolve_of_parts h.plain.head hnul h.parts

theorem resolve_nul (h : PlainKey key) (hnul : '\x00' ∈ key) :
    b.resolve key = .error (.valueError "embedded null byte") := by
  unfold resolve
  rw [if_neg (by simp [h.head])]
  simp [File.resolve, hnul, Bind.bind, Except.bind]

theorem nul_of_resolve (h : PlainKey key) (hp : b.resolve key = .ok p) : '\x00' ∉ key := by
  intro hnul
  simp [resolve_nul h hnul] at hp

/-- The path of a plain key, spelt out. -/
theorem spells_of_resolve (h : PlainKey key) (hp : b.resolve key = .ok p) :
    ∃ q, Spells key q ∧ p = b.root ++ q := by
  obtain ⟨q, hq⟩ := h.spells
  refine ⟨q, hq, ?_⟩
  have hpath := resolve_plain (b := b) hq (nul_of_resolve h hp)
  simpa [hp] using hpath

theorem relativePosix_plain (h : Spells key q) : relativePosix b.root (b.root ++ q) = key := by
  rw [relativePosix_append h.ne_nil, h.intercalate]

/-- Two plain keys with one path are one key. -/
theorem resolve_injective {key' : Str} (h : PlainKey key) (h' : PlainKey key')
    (hp : b.resolve key = .ok p) (hp' : b.resolve key' = .ok p) : key = key' := by
  obtain ⟨q, hq, rfl⟩ := spells_of_resolve h hp
  obtain ⟨q', hq', heq⟩ := spells_of_resolve h' hp'
  obtain rfl := List.append_cancel_left heq
  exact hq.injective hq'

/-! ## Changing the tree -/

/-- `put` makes the parent of the path, then writes. -/
theorem run_put_eq (hp : b.resolve key = .ok p) (data : Bytes) :
    b.onDisk (.put key data) t = match (File.mkdir t p.dropLast).result with
      | .error e => (.error (.osError e), (), (File.mkdir t p.dropLast).disk)
      | .ok _ => match (File.mkdir t p.dropLast).disk.write p data with
          | .ok t' => (.ok .none, (), t')
          | .error e => (.error (.osError (fileErr e)), (), (File.mkdir t p.dropLast).disk) := by
  show Program.run disk ((b.put key data).bind _) () t = _
  unfold put
  rw [hp]
  show Program.run disk (((raising (File.mkdir t p.dropLast).result).bind fun _ =>
    writeBytes p data).bind _) () (File.mkdir t p.dropLast).disk = _
  obtain ⟨result, t₁, touched⟩ := File.mkdir t p.dropLast
  cases result with
  | error e => rfl
  | ok u =>
      show Program.run disk ((raising (changed t₁ (t₁.write p data)).1).bind _) ()
        (changed t₁ (t₁.write p data)).2 = _
      cases t₁.write p data with
      | ok t' => rfl
      | error e => rfl

/-- `put` stores the data and makes the directories above, or fails and changes nothing. -/
theorem put_cases (hp : b.resolve key = .ok p) (data : Bytes) :
    (t.isDir p = false ∧ t.fileAbove p = false ∧
        ∃ t', b.onDisk (.put key data) t = (.ok .none, (), t') ∧
          ∀ q, t'.node q = if q = p then some (.file data)
            else if q <+: p.dropLast then some .dir else t.node q) ∨
      ((t.isDir p = true ∨ t.fileAbove p = true) ∧
        ∃ e, b.onDisk (.put key data) t = (.error (.osError e), (), t)) := by
  rw [run_put_eq hp]
  -- A file above the path fails `mkdir`; a directory at it fails the write, after `mkdir` found its
  -- parent there.
  cases habove : t.fileAbove p with
  | true =>
      obtain ⟨q, hqp, hne, hq⟩ := FileTree.fileAbove_iff.mp habove
      obtain ⟨e, he, hdisk⟩ := mkdir_of_file (Data.prefix_dropLast hqp hne) hq
      exact .inr ⟨.inr rfl, e, by simp [he, hdisk]⟩
  | false =>
      cases hdir : t.isDir p with
      | true =>
          have hnode := FileTree.isDir_iff.mp hdir
          have hparent : t.node p.dropLast = some .dir := by
            by_cases heq : p.dropLast = p
            · rw [heq, hnode]
            · exact FileTree.node_above (List.dropLast_prefix p) heq (by simp [hnode])
          refine .inr ⟨.inl rfl, fileErr .isDirectory, ?_⟩
          simp [mkdir_of_dir hparent, FileTree.write_of_isDir hnode]
      | false =>
          obtain ⟨hresult, t', hwrite, ht'⟩ := mkdir_write hdir habove data
          exact .inl ⟨rfl, rfl, t', by simp [hresult, hwrite], ht'⟩

/-- `delete` removes a file, or fails and changes nothing. -/
theorem delete_cases (hp : b.resolve key = .ok p) :
    (t.isFile p = true ∧ ∃ t', b.onDisk (.delete key) t = (.ok .none, (), t') ∧
        ∀ q, t'.node q = if q = p then none else t.node q) ∨
      (t.isFile p = false ∧ ∃ e, b.onDisk (.delete key) t = (.error e, (), t)) := by
  rw [run_delete hp]
  rcases FileTree.unlink_cases t p with ⟨d, hd, -⟩ | ⟨h, herr⟩ | ⟨h, -, herr⟩ | ⟨h, -, herr⟩
  · obtain ⟨t', hok, ht'⟩ := FileTree.unlink_of_file hd
    exact .inl ⟨FileTree.isFile_iff.mpr ⟨d, hd⟩, t', by simp [hok], ht'⟩
  · exact .inr ⟨by simp [FileTree.isFile, h], _, by rw [herr]⟩
  · exact .inr ⟨by simp [FileTree.isFile, h], _, by rw [herr]⟩
  · exact .inr ⟨by simp [FileTree.isFile, h], _, by rw [herr]⟩

/-- A key that has no path is refused by every operation. -/
theorem onDisk_unresolved {e : PyExc} (h : b.resolve key = .error e) (data : Bytes) :
    b.onDisk (.put key data) t = (.error e, (), t) ∧ b.onDisk (.get key) t = (.error e, (), t) ∧
      b.onDisk (.delete key) t = (.error e, (), t) ∧
      b.onDisk (.exists' key) t = (.error e, (), t) := by
  refine ⟨?_, ?_, ?_, ?_⟩
  · show Program.run disk ((b.put key data).bind _) () t = _
    unfold put
    rw [h]
    rfl
  · show Program.run disk ((b.get key).bind _) () t = _
    unfold get
    rw [h]
    rfl
  · show Program.run disk ((b.delete key).bind _) () t = _
    unfold delete
    rw [h]
    rfl
  · show Program.run disk ((b.exists' key).bind _) () t = _
    unfold exists'
    rw [h]
    rfl

/-! ## Reading the tree -/

theorem run_exists (hp : b.resolve key = .ok p) :
    b.onDisk (.exists' key) t = (.ok (.bool (File.pathExists t p)), (), t) := by
  show Program.run disk ((b.exists' key).bind _) () t = _
  unfold exists'
  rw [hp]
  rfl

/-- What `scan` yields for the base `p`. -/
def listed (b : FileBlob) (t : Disk) (p : Path) : List Str :=
  if File.pathExists t p then
    if t.isFile p then [relativePosix b.root p]
    else ((t.below p).filter fun q => t.isFile q).map (relativePosix b.root)
  else []

theorem wp_scanFiles (l : List Path) (xs : List Str) :
    wp (collecting disk) (Program.forEach l b.scanEntry)
      (fun o _ w => o = .ok () ∧
        w = (t, xs ++ (l.filter fun q => t.isFile q).map (relativePosix b.root))) () (t, xs) := by
  induction l generalizing xs with
  | nil => simp [Program.forEach]
  | cons p l ih =>
      rw [Program.forEach, wp_bind]
      rw [show b.scanEntry p = ((isFile p).embed.bind fun r =>
        if r then Program.yield (relativePosix b.root p) else .pure ()) from rfl, wp_bind, wp_embed]
      unfold isFile
      rw [wp_call, show disk t (.isFile p) = (.ok (t.isFile p), t) from rfl]
      cases hfile : t.isFile p with
      | true => simpa [raising, hfile] using ih (xs ++ [relativePosix b.root p])
      | false => simpa [raising, hfile] using ih xs

theorem run_scan {pre : Str} (hp : b.scanBase pre = .ok p) :
    b.onDisk (.scan pre) t = (.ok (.keys (b.listed t p)), (), t) := by
  have hcollect : wp disk (b.scan pre).collect
      (fun o _ w => o = .ok (b.listed t p) ∧ w = t) () t := by
    rw [wp_collect]
    unfold scan
    rw [hp, Program.ofExcept, bind_eq, pure_bind', bind_eq, wp_bind, wp_embed]
    unfold pathExists
    rw [wp_call, show disk t (.exists' p) = (.ok (File.pathExists t p), t) from rfl]
    -- the three ways of `listed`: nothing, a file, or the files below a directory
    cases hexists : File.pathExists t p with
    | false => simp [listed, hexists, raising]
    | true =>
        unfold isFile
        simp only [raising, wp_pure, bindPost_ok, Bool.not_true, Bool.false_eq_true, if_false,
          bind_eq, wp_bind, wp_embed, wp_call]
        rw [show disk t (.isFile p) = (.ok (t.isFile p), t) from rfl]
        cases hfile : t.isFile p with
        | true => simp [listed, hexists, hfile]
        | false =>
            unfold rglob
            simp only [raising, wp_pure, bindPost_ok, Bool.false_eq_true, if_false, wp_bind,
              wp_embed, wp_call]
            rw [show disk t (.rglob p) = (.ok (t.below p), t) from rfl]
            simp only [wp_pure, bindPost_ok]
            apply wp_mono (wp_scanFiles (t.below p) [])
            rintro o s w ⟨rfl, rfl⟩
            simp [listed, hexists, hfile]
  show wp disk ((b.scan pre).collect.bind fun ks => .pure (Value.keys ks))
    (fun o s w => (o, s, w) = (.ok (.keys (b.listed t p)), (), t)) () t
  rw [wp_bind]
  apply wp_mono hcollect
  rintro o s w ⟨rfl, rfl⟩
  rfl

end FileBlob

end GufoBlob
