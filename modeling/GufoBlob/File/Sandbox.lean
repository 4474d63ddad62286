import GufoBlob.File.Blob
import GufoBlob.Interaction.Compositional

/-!
# The sandbox of the file backend

`_resolve` accepts the keys whose path lies at or below the root, and the root itself is among them
(the key `.`). `put` then creates the parent of the path, which for the root lies outside.

* `mem_touches_mkdir` — `mkdir(parents=True)` goes up no further than to a directory that exists.
* `sandboxed_iff` — a call resolves its key as documented and stays at or below the root exactly when
  its key has no NUL and it is no `put` of the root itself.
* `not_sandboxed_dot` — `put(".", b"")` tests the parent of the root.
-/

namespace GufoBlob

open Text Data Interaction Program File

namespace File

/-! ## What the file system keeps -/

theorem dir_of_create {t t' : Disk} {p q : Path} {n : Node Bytes} (h : t.create p n = .ok t')
    (hq : t.node q = some .dir) : t'.node q = some .dir := by
  unfold FileTree.create at h
  split at h
  · cases h
  · next x _ =>
      split at h
      · next hdir =>
          obtain rfl := Except.ok.inj h
          have hne : q ≠ p.dropLast ++ [x] := by
            rintro rfl
            rw [FileTree.isDir_iff.mpr hq] at hdir
            cases hdir.2
          rw [FileTree.node_insert, if_neg hne, hq]
      · cases h

theorem dir_of_mkdir {t t' : Disk} {p q : Path} (h : t.mkdir p = .ok t')
    (hq : t.node q = some .dir) : t'.node q = some .dir := by
  unfold FileTree.mkdir at h
  split at h
  · cases h
  · exact dir_of_create h hq
  · cases h

theorem dir_of_write {t t' : Disk} {p q : Path} {data : Bytes} (h : t.write p data = .ok t')
    (hq : t.node q = some .dir) : t'.node q = some .dir := by
  unfold FileTree.write at h
  split at h
  · cases h
  · exact dir_of_create h hq
  · exact dir_of_create h hq
  · cases h

theorem dir_of_unlink {t t' : Disk} {p q : Path} (h : t.unlink p = .ok t')
    (hq : t.node q = some .dir) : t'.node q = some .dir := by
  unfold FileTree.unlink at h
  split at h
  · cases h
  · split at h
    · next hnot =>
        obtain rfl := Except.ok.inj h
        have hne : q ≠ p := by
          rintro rfl
          rw [FileTree.isDir_iff.mpr hq] at hnot
          cases hnot
        rw [FileTree.node_remove, if_neg hne, hq]
    · cases h

theorem dir_of_existOk {t : Disk} {p q : Path} {e : TreeError} (hq : t.node q = some .dir) :
    (existOk t p e).disk.node q = some .dir := by
  unfold existOk
  split <;> exact hq

theorem dir_of_mkdirOne {t : Disk} {p q : Path} (hq : t.node q = some .dir) :
    (mkdirOne t p).disk.node q = some .dir := by
  unfold mkdirOne
  split
  · next h => exact dir_of_mkdir h hq
  · exact hq
  · exact dir_of_existOk hq

theorem dir_of_mkdirParents {n : Nat} {t : Disk} {p q : Path} (hq : t.node q = some .dir) :
    (mkdirParents n t p).disk.node q = some .dir := by
  induction n generalizing p with
  | zero => exact dir_of_mkdirOne hq
  | succ n ih =>
      unfold mkdirParents
      split
      · next h => exact dir_of_mkdir h hq
      · dsimp only
        split
        · exact ih
        · exact dir_of_mkdirOne ih
      · exact dir_of_existOk hq

/-- No method removes or replaces a directory. -/
theorem dir_stable {t : Disk} {q : Path} (o : FsOp) (hq : t.node q = some .dir) :
    (disk t o).2.node q = some .dir := by
  have hchanged : ∀ r : Except TreeError Disk, (∀ t', r = .ok t' → t'.node q = some .dir) →
      (changed t r).2.node q = some .dir := by
    intro r hr
    unfold changed
    cases r with
    | ok t' => exact hr t' rfl
    | error e => exact hq
  cases o with
  | mkdir p => exact dir_of_mkdirParents hq
  | writeBytes p data => exact hchanged _ fun t' h => dir_of_write h hq
  | unlink p => exact hchanged _ fun t' h => dir_of_unlink h hq
  | _ => exact hq

/-! ## What the file system touches -/

/-- The path that a method is called on. -/
def FsOp.path : FsOp → Path
  | .mkdir p => p
  | .writeBytes p _ => p
  | .readBytes p => p
  | .unlink p => p
  | .exists' p => p
  | .isFile p => p
  | .isDir p => p
  | .rglob p => p

theorem mem_touched_mkdirOne {t : Disk} {p q : Path} (h : q ∈ (mkdirOne t p).touched) : q = p := by
  unfold mkdirOne existOk at h
  split at h
  · simpa using h
  · simpa using h
  · split at h <;> simpa using h

/-- `mkdir(parents=True)` goes up no further than to a directory that exists. -/
theorem mem_touches_mkdir {t : Disk} {root p q : Path} (hroot : t.node root = some .dir)
    (hp : root <+: p) (n : Nat) (hq : q ∈ (mkdirParents n t p).touched) : root <+: q := by
  induction n generalizing p with
  | zero => exact mem_touched_mkdirOne hq ▸ hp
  | succ n ih =>
      unfold mkdirParents at hq
      split at hq
      · obtain rfl : q = p := by simpa using hq
        exact hp
      · next hmissing =>
          have hne : root ≠ p := by
            rintro rfl
            unfold FileTree.mkdir at hmissing
            rw [FileTree.lookup_of_node hroot] at hmissing
            cases hmissing
          have hparent : root <+: p.dropLast := by
            have hpne : p ≠ [] := by
              rintro rfl
              exact hne (List.prefix_nil.mp hp)
            rw [← List.dropLast_concat_getLast hpne] at hp hne
            exact (List.prefix_concat_iff.mp hp).resolve_left hne
          dsimp only at hq
          split at hq
          · rcases List.mem_cons.mp hq with rfl | hq
            · exact hp
            · exact ih hparent hq
          · rcases List.mem_cons.mp hq with rfl | hq
            · exact hp
            · rcases List.mem_append.mp hq with hq | hq
              · exact ih hparent hq
              · exact mem_touched_mkdirOne hq ▸ hp
      · unfold existOk at hq
        have hqp : q = p := by split at hq <;> simpa using hq
        exact hqp ▸ hp

/-- A method called at or below a directory touches nothing else. -/
theorem mem_touches {t : Disk} {root q : Path} (hroot : t.node root = some .dir) {o : FsOp}
    (ho : root <+: o.path) (hq : q ∈ touches t o) : root <+: q := by
  cases o with
  | mkdir p => exact mem_touches_mkdir hroot ho _ hq
  | rglob p =>
      rcases List.mem_cons.mp hq with rfl | hq
      · exact ho
      · exact ho.trans (FileTree.mem_below (List.mem_filter.mp hq).1).1
  | _ =>
      obtain rfl := List.mem_singleton.mp hq
      exact ho

theorem self_mem_touched_mkdir (n : Nat) (t : Disk) (p : Path) :
    p ∈ (mkdirParents n t p).touched := by
  have hone : p ∈ (mkdirOne t p).touched := by
    unfold mkdirOne existOk
    split
    · simp
    · simp
    · split <;> simp
  cases n with
  | zero => exact hone
  | succ n =>
      unfold mkdirParents existOk
      split
      · simp
      · dsimp only
        split <;> simp
      · split <;> simp

/-- A disk, and the paths that were touched so far. -/
structure Watched where
  disk : Disk
  touched : List Path

def watching : Handler fs Watched
  | w, o => ((disk w.disk o).1, ⟨(disk w.disk o).2, w.touched ++ touches w.disk o⟩)

end File

namespace FileBlob

variable (b : FileBlob)

/-! ## Normalised paths -/

/-- Empty, `.` and `..` components removed, one after the other. -/
def removeDots : List Str → List Str → List Str
  | done, [] => done
  | done, c :: cs =>
      if c = [] ∨ c = ['.'] then removeDots done cs
      else if c = ['.', '.'] then removeDots done.dropLast cs
      else removeDots (done ++ [c]) cs

/-- The normalised components of `root/key`. -/
def normalised (key : Str) : List Str := removeDots [] (b.root.map Subtype.val ++ names key)

/-- The keys that are documented to be valid. -/
structure Valid (key : Str) : Prop where
  nonempty : key ≠ []
  relative : key.head? ≠ some '/'
  inside : b.root.map Subtype.val <+: b.normalised key

/-- `_resolve` gives the normalised path of a valid key, and `BlobError` for any other. -/
def Resolves (key : Str) : Prop :=
  match b.resolve key with
  | .ok p => b.Valid key ∧ p.map Subtype.val = b.normalised key ∧ ['.', '.'] ∉ p.map Subtype.val
  | .error e => ¬ b.Valid key ∧ ∃ msg, e = .blobError msg

variable {b}

/-- The names between slashes are components, apart from the special ones. -/
theorem foldl_realpathStep (p : Path) {l : List Str} (hl : ∀ c ∈ l, '/' ∉ c) :
    (l.foldl realpathStep p).map Subtype.val = removeDots (p.map Subtype.val) l := by
  induction l generalizing p with
  | nil => rfl
  | cons c l ih =>
      have hrest := fun p => ih p fun c hc => hl c (List.mem_cons_of_mem _ hc)
      rw [List.foldl_cons, removeDots]
      by_cases hskip : c = [] ∨ c = ['.']
      · rw [if_pos hskip, realpathStep_parts p c (by simpa using hskip), hrest]
      · rw [if_neg hskip]
        by_cases hup : c = ['.', '.']
        · subst hup
          rw [if_pos rfl, realpathStep_up, hrest, List.map_dropLast]
        · have hc : IsComponent c :=
            ⟨fun h => hskip (.inl h), fun h => hskip (.inr h), hup, hl c List.mem_cons_self⟩
          rw [if_neg hup, realpathStep_component p hc, hrest, List.map_append]
          rfl

theorem removeDots_append (done : List Str) (p : Path) (l : List Str) :
    removeDots done (p.map Subtype.val ++ l) = removeDots (done ++ p.map Subtype.val) l := by
  induction p generalizing done with
  | nil => simp
  | cons c p ih =>
      obtain ⟨hne, hdot, hdots, -⟩ := c.2
      rw [List.map_cons, List.cons_append, removeDots, if_neg (not_or.mpr ⟨hne, hdot⟩),
        if_neg hdots, ih, List.append_assoc]
      rfl

/-- `resolve` on the components of a key is their normalisation. -/
theorem resolve_eq_normalised (key : Str) :
    ((parts key).foldl realpathStep b.root).map Subtype.val = b.normalised key := by
  unfold parts normalised
  rw [foldl_parts, removeDots_append, List.nil_append]
  apply foldl_realpathStep
  exact fun c hc => notMem_of_mem_splitOn hc

theorem prefix_map_val_iff {p q : Path} :
    p.map Subtype.val <+: q.map Subtype.val ↔ p <+: q := by
  constructor
  · intro h
    rw [List.prefix_iff_eq_take, List.length_map, ← List.map_take] at h
    rw [List.prefix_iff_eq_take]
    exact List.map_injective_iff.mpr Subtype.val_injective h
  · exact fun h => h.map Subtype.val

/-- What `_resolve` does with a key that the file system can take. -/
theorem resolve_cases {key : Str} (hnul : '\x00' ∉ key) :
    (b.Valid key ∧ b.resolve key = .ok ((parts key).foldl realpathStep b.root)) ∨
      (¬ b.Valid key ∧ ∃ msg, b.resolve key = .error (.blobError msg)) := by
  unfold resolve
  split
  · next hinvalid =>
      right
      refine ⟨fun hv => ?_, _, rfl⟩
      simp only [Bool.or_eq_true, List.isEmpty_iff, decide_eq_true_eq] at hinvalid
      exact hinvalid.elim hv.nonempty hv.relative
  · next hvalid =>
      simp only [Bool.or_eq_true, List.isEmpty_iff, decide_eq_true_eq, not_or] at hvalid
      have hok : File.resolve b.root key = .ok ((parts key).foldl realpathStep b.root) :=
        if_neg hnul
      have hinside : b.root <+: (parts key).foldl realpathStep b.root ↔
          b.root.map Subtype.val <+: b.normalised key := by
        rw [← prefix_map_val_iff, resolve_eq_normalised]
      rw [hok]
      by_cases hpre : b.root <+: (parts key).foldl realpathStep b.root
      · left
        refine ⟨⟨hvalid.1, hvalid.2, hinside.mp hpre⟩, ?_⟩
        exact if_pos (List.isPrefixOf_iff_prefix.mpr hpre)
      · right
        refine ⟨fun hv => hpre (hinside.mpr hv.inside), "key escapes storage root: " ++ fmt key, ?_⟩
        exact if_neg fun h => hpre (List.isPrefixOf_iff_prefix.mp h)

/-- A key that starts with a slash is rejected before anything else. -/
theorem resolve_absolute {key : Str} (h : key.head? = some '/') :
    ¬ b.Valid key ∧ ∃ msg, b.resolve key = .error (.blobError msg) := by
  refine ⟨fun hv => hv.relative h, "invalid key: " ++ fmt key, ?_⟩
  unfold resolve
  rw [if_pos (by simp [h])]

/-- `_resolve` does what it should unless it lets the `ValueError` for a NUL through. -/
theorem resolves_iff (key : Str) : b.Resolves key ↔ ('\x00' ∉ key ∨ key.head? = some '/') := by
  constructor
  · intro hres
    by_contra hno
    obtain ⟨hnul, hrel⟩ := not_or.mp hno
    have hnul : '\x00' ∈ key := not_not.mp hnul
    have hne : key ≠ [] := List.ne_nil_of_mem hnul
    have hvalue : b.resolve key = .error (.valueError "embedded null byte") := by
      unfold resolve File.resolve
      rw [if_neg (by simp [hne, hrel]), if_pos hnul]
      rfl
    unfold Resolves at hres
    rw [hvalue] at hres
    obtain ⟨-, msg, hmsg⟩ := hres
    cases hmsg
  · intro hkey
    unfold Resolves
    rcases hkey with hnul | hhead
    · rcases resolve_cases (b := b) hnul with ⟨hvalid, hok⟩ | ⟨hinvalid, msg, herr⟩
      · rw [hok]
        refine ⟨hvalid, resolve_eq_normalised key, fun hdots => ?_⟩
        obtain ⟨c, -, hc⟩ := List.mem_map.mp hdots
        exact c.2.2.2.1 hc
      · rw [herr]
        exact ⟨hinvalid, msg, rfl⟩
    · obtain ⟨hinvalid, msg, herr⟩ := resolve_absolute (b := b) hhead
      rw [herr]
      exact ⟨hinvalid, msg, rfl⟩

/-- A resolved path lies at or below the root. -/
theorem root_prefix_of_resolve {key : Str} {p : Path} (h : b.resolve key = .ok p) :
    b.root <+: p := by
  unfold resolve at h
  split at h
  · cases h
  · obtain ⟨q, -, hq⟩ := except_bind_eq_ok_iff.mp h
    split at hq
    · next hpre =>
        obtain rfl := Except.ok.inj hq
        exact List.isPrefixOf_iff_prefix.mp hpre
    · cases hq

/-! ## The paths that a call touches -/

/-- The root is a directory, and everything touched lies at or below it. -/
structure Inside (b : FileBlob) (w : Watched) : Prop where
  root : w.disk.node b.root = some .dir
  touched : ∀ p ∈ w.touched, b.root <+: p

/-- The program stays at or below the root. -/
abbrev Stays {α : Type} (b : FileBlob) (p : FileProg α) : Prop :=
  Preserves watching (fun _ => Inside b) p

theorem Inside.step {w : Watched} (hw : Inside b w) {o : FsOp} (ho : b.root <+: o.path) :
    Inside b (watching w o).2 := by
  refine ⟨dir_stable o hw.root, fun p hp => ?_⟩
  rcases List.mem_append.mp hp with hp | hp
  · exact hw.touched p hp
  · exact mem_touches hw.root ho hp

theorem stays_call {α : Type} {o : FsOp} {k : fs.Ans o → FileProg α} (ho : b.root <+: o.path)
    (hk : ∀ r, Stays b (k r)) : Stays b (.call o k) :=
  preserves_call (fun _ _ hw => hw.step ho) hk

theorem stays_raising {α : Type} (r : Except FileErr α) : Stays b (raising r) := by
  cases r with
  | ok a => exact preserves_pure a
  | error e => exact preserves_raise _

theorem stays_notFound {α : Type} (key : Str) (e : PyExc) :
    Stays b (notFound key e : FileProg α) := by
  unfold notFound
  split <;> exact preserves_raise _

/-- A program that starts with `_resolve`. -/
theorem stays_resolve {α : Type} {key : Str} {f : Path → FileProg α}
    (hf : ∀ p, b.resolve key = .ok p → Stays b (f p)) :
    Stays b ((Program.ofExcept (b.resolve key)).bind f) := by
  cases h : b.resolve key with
  | ok p => exact hf p h
  | error e => exact preserves_raise e

/-- Only the parent of the root lies outside. -/
theorem root_prefix_dropLast {p : Path} (hp : b.root <+: p) (hne : b.root ≠ [] → p ≠ b.root) :
    b.root <+: p.dropLast := by
  by_cases hroot : b.root = []
  · rw [hroot]
    exact List.nil_prefix
  · have hpne : p ≠ [] := by
      rintro rfl
      exact hroot (List.prefix_nil.mp hp)
    have hne := hne hroot
    rw [← List.dropLast_concat_getLast hpne] at hp hne
    exact (List.prefix_concat_iff.mp hp).resolve_left (Ne.symm hne)

theorem stays_scanEntry {p : Path} (hp : b.root <+: p) : Generates (Stays b) (b.scanEntry p) := by
  have hP : Compositional (Stays b) := preserves_compositional _ _
  apply hP.generates_embed_bind (stays_call (o := .isFile p) hp stays_raising)
  intro file
  split
  · exact hP.generates_yield _
  · exact hP.generates_pure

/-- `rglob` lists paths below the directory. -/
theorem stays_rglob {base : Path} (hbase : b.root <+: base) :
    Stays b ((rglob base).bind fun ps => (Program.forEach ps b.scanEntry).collect) := by
  intro s w hw
  have hP : Compositional (Stays b) := preserves_compositional _ _
  have hentries : Stays b (Program.forEach (w.disk.below base) b.scanEntry).collect := by
    apply (hP.generates_forEach fun p hp => stays_scanEntry ?_).1
    exact hbase.trans (FileTree.mem_below hp).1
  exact hentries s _ (hw.step (o := .rglob base) hbase)

theorem stays_scan (pre : Str) : Stays b (b.scan pre).collect := by
  have hbase : ∀ base, b.scanBase pre = .ok base → b.root <+: base := by
    intro base h
    unfold scanBase at h
    split at h
    · obtain rfl := Except.ok.inj h
      exact List.prefix_refl _
    · exact root_prefix_of_resolve h
  unfold scan
  cases h : b.scanBase pre with
  | error e => exact preserves_raise e
  | ok base =>
      have hbase := hbase base h
      rw [Program.ofExcept, bind_eq, pure_bind', bind_eq, collect_embed_bind]
      apply preserves_bind (stays_call (o := .exists' base) hbase stays_raising)
      intro found
      split
      · exact preserves_pure _
      · rw [bind_eq, collect_embed_bind]
        apply preserves_bind (stays_call (o := .isFile base) hbase stays_raising)
        intro file
        split
        · exact preserves_pure _
        · rw [bind_eq, collect_embed_bind]
          exact stays_rglob hbase

theorem stays_perform {c : Call}
    (hc : ∀ key data, c = .put key data → b.root ≠ [] → b.resolve key ≠ .ok b.root) :
    Stays b (b.backend.perform c) := by
  cases c with
  | open' => exact preserves_pure _
  | close => exact preserves_pure _
  | put key data =>
      apply preserves_bind _ fun _ => preserves_pure _
      apply stays_resolve
      intro p hp
      have hpre := root_prefix_of_resolve hp
      -- only the parent of the root itself is outside
      have hparent : b.root <+: p.dropLast := by
        apply root_prefix_dropLast hpre
        rintro hroot rfl
        exact hc key data rfl hroot hp
      apply preserves_bind (stays_call (o := .mkdir p.dropLast) hparent stays_raising)
      exact fun _ => stays_call (o := .writeBytes p data) hpre stays_raising
  | get key =>
      apply preserves_bind _ fun _ => preserves_pure _
      apply stays_resolve
      intro p hp
      apply preserves_tryCatch _ (stays_notFound key)
      exact stays_call (o := .readBytes p) (root_prefix_of_resolve hp) stays_raising
  | delete key =>
      apply preserves_bind _ fun _ => preserves_pure _
      apply stays_resolve
      intro p hp
      apply preserves_tryCatch _ (stays_notFound key)
      exact stays_call (o := .unlink p) (root_prefix_of_resolve hp) stays_raising
  | exists' key =>
      apply preserves_bind _ fun _ => preserves_pure _
      apply stays_resolve
      intro p hp
      exact stays_call (o := .exists' p) (root_prefix_of_resolve hp) stays_raising
  | scan pre => exact preserves_bind (stays_scan pre) fun _ => preserves_pure _

/-! ## What a call touches -/

/-- The paths that a call touches on the disk `t`. -/
def touchedBy (b : FileBlob) (c : Call) (t : Disk) : List Path :=
  ((b.backend.perform c).run watching () ⟨t, []⟩).2.2.touched

/-- The key or the prefix of a call. -/
def callKey : Call → Option Str
  | .open' => none
  | .close => none
  | .put key _ => some key
  | .get key => some key
  | .delete key => some key
  | .exists' key => some key
  | .scan pre => some pre

/-- The sandbox holds for a call: its key is resolved as documented, and all that it touches lies at
or below the root. -/
structure Sandboxed (b : FileBlob) (t : Disk) (c : Call) : Prop where
  resolves : ∀ key, callKey c = some key → b.Resolves key
  below : ∀ p ∈ touchedBy b c t, b.root <+: p

/-- `put` of the root itself tests and creates its parent. -/
theorem parent_mem_touchedBy {key : Str} {data : Bytes} {t : Disk} (h : b.resolve key = .ok b.root) :
    b.root.dropLast ∈ touchedBy b (.put key data) t := by
  have hstable : ∀ (w : Watched) (o : FsOp), b.root.dropLast ∈ w.touched →
      b.root.dropLast ∈ (watching w o).2.touched :=
    fun w o hw => List.mem_append_left _ hw
  have hput : wp watching (b.put key data) (fun _ _ w => b.root.dropLast ∈ w.touched) ()
      ⟨t, []⟩ := by
    unfold put
    rw [h]
    show wp watching ((mkdir _).bind _) _ _ _
    apply wp_bind_of_stable hstable
    show wp watching (.call _ _) _ _ _
    rw [wp_call]
    apply preserves_of_stable hstable
    exact List.mem_append_right _ (self_mem_touched_mkdir _ t _)
  show wp watching ((b.put key data).bind _) (fun _ _ w => b.root.dropLast ∈ w.touched) () ⟨t, []⟩
  exact wp_bind_of_stable hstable hput

/-- **The sandbox holds exactly for the keys without NUL, but for a `put` of the root**: on every
tree in which the root of the blob is a directory, a call resolves its key as documented and writes,
reads, removes, tests and lists only paths at or below the root exactly when the key has no NUL (or
is rejected for its leading slash), and the call is not a `put` whose key resolves to a root that has
a parent. -/
theorem sandboxed_iff (b : FileBlob) (t : Disk) (hroot : t.node b.root = some .dir) (c : Call) :
    Sandboxed b t c ↔
      (∀ key, callKey c = some key → '\x00' ∉ key ∨ key.head? = some '/') ∧
        ∀ key data, c = .put key data → b.root ≠ [] → b.resolve key ≠ .ok b.root := by
  constructor
  · rintro ⟨hres, hbelow⟩
    refine ⟨fun key hkey => (resolves_iff key).mp (hres key hkey), ?_⟩
    rintro key data rfl hne hself
    have hlen := (hbelow _ (parent_mem_touchedBy hself)).length_le
    have hpos := List.length_pos_of_ne_nil hne
    rw [List.length_dropLast] at hlen
    omega
  · rintro ⟨hnul, hput⟩
    refine ⟨fun key hkey => (resolves_iff key).mpr (hnul key hkey), ?_⟩
    have hstart : Inside b ⟨t, []⟩ := ⟨hroot, fun p hp => nomatch hp⟩
    exact (stays_perform hput () ⟨t, []⟩ hstart).touched

/-- A blob with the root `/r`. -/
def sample : FileBlob := ⟨[⟨['r'], by decide⟩]⟩

/-- A disk with nothing but the directory `/r`. -/
def sampleDisk : Disk :=
  FileTree.empty.insert [] ⟨['r'], by decide⟩ .dir (by decide) (by decide)

theorem sandboxed_iff_get : Sandboxed sample sampleDisk (.get ['a']) := by
  apply (sandboxed_iff sample sampleDisk (by decide) _).mpr
  refine ⟨?_, by simp⟩
  rintro key ⟨⟩
  exact .inl (by decide)

/-- `put(".", b"")` makes and tests the parent of the root before it fails. -/
theorem not_sandboxed_dot : touchedBy sample (.put ['.'] []) sampleDisk = [[], [], sample.root] ∧
    ¬ Sandboxed sample sampleDisk (.put ['.'] []) := by
  have htouched : touchedBy sample (.put ['.'] []) sampleDisk = [[], [], sample.root] := by decide
  refine ⟨htouched, fun hsandboxed => ?_⟩
  have hparent := hsandboxed.below [] (by rw [htouched]; exact List.mem_cons_self)
  exact absurd hparent (by decide)

end FileBlob

end GufoBlob
