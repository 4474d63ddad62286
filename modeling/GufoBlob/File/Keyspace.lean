import GufoBlob.File.Sandbox
import GufoBlob.Memory.Spec

/-!
# The key space of the file backend

A key of a `FileBlob` is a path in a tree of directories. Two keys with one path share their data,
and a key cannot be stored at a directory or below a file. `Apart` says of a key that nothing of the
kind is the case; while it holds of every key in use, the backend gives the results of a
`MemoryBlob` without limits, which is a flat map.

* `node_mkdirParents` — what `mkdir(parents=True)` leaves.
* `Keyed.step` — an operation on a key that is apart does on the tree what it does on the map.
* `flat_iff` — a sequence of operations on keys that are apart gives the results of the map, and the
  next operation does so exactly when its key is apart.
* `not_flat_alias`, `not_flat_nested` — two keys with one path, and a key below another one.
-/

namespace GufoBlob

open Text Data Interaction Program File

namespace File

theorem mkdirOne_ok {t t' : Disk} {p : Path} (h : t.mkdir p = .ok t') :
    mkdirOne t p = ⟨.ok (), t', [p]⟩ := by
  unfold mkdirOne
  rw [h]

theorem existOk_dir {t : Disk} {p : Path} (h : t.node p = some .dir) (e : TreeError) :
    existOk t p e = ⟨.ok (), t, [p, p]⟩ := if_pos (FileTree.isDir_iff.mpr h)

/-- A tree in which `p` and all that lies above it are directories. -/
def Paved (t : Disk) (p : Path) (t' : Disk) : Prop :=
  ∀ q, t'.node q = if q <+: p then some .dir else t.node q

theorem paved_of_dir {t : Disk} {p : Path} (h : t.node p = some .dir) : Paved t p t := by
  intro q
  split
  · next hq =>
      by_cases hqp : q = p
      · rw [hqp, h]
      · exact FileTree.node_above hq hqp (by simp [h])
  · rfl

/-- One directory more at the end of a path that is there. -/
theorem paved_step {t t₁ t₂ : Disk} {p : Path} (hp : p ≠ []) (h₁ : Paved t p.dropLast t₁)
    (h₂ : ∀ q, t₂.node q = if q = p then some .dir else t₁.node q) : Paved t p t₂ := by
  have hpre : ∀ q, q <+: p ↔ q = p ∨ q <+: p.dropLast := by
    intro q
    conv_lhs => rw [← List.dropLast_concat_getLast hp]
    conv_rhs => rw [← List.dropLast_concat_getLast hp, List.dropLast_concat]
    exact List.prefix_concat_iff
  intro q
  rw [h₂ q, h₁ q]
  grind

/-- `mkdir(parents=True, exist_ok=True)` succeeds where no file is in the way, and makes the missing
directories and nothing else. -/
theorem node_mkdirParents {n : Nat} {t : Disk} {p : Path} (hn : p.length ≤ n) (hclear : t.Clear p) :
    (mkdirParents n t p).result = .ok () ∧ Paved t p (mkdirParents n t p).disk := by
  induction n generalizing t p with
  | zero =>
      obtain rfl : p = [] := List.eq_nil_of_length_eq_zero (by omega)
      have hroot := FileTree.node_nil t
      unfold mkdirParents mkdirOne
      rw [FileTree.mkdir_of_exists hroot]
      simp only [existOk_dir hroot]
      exact ⟨trivial, paved_of_dir hroot⟩
  | succ n ih =>
      unfold mkdirParents
      rcases hclear.node with hdir | hnone
      · rw [FileTree.mkdir_of_exists hdir]
        simp only [existOk_dir hdir]
        exact ⟨trivial, paved_of_dir hdir⟩
      · have hp : p ≠ [] := by
          rintro rfl
          rw [FileTree.node_nil] at hnone
          cases hnone
        have hpos := List.length_pos_of_ne_nil hp
        rcases FileTree.mkdir_of_none hclear hnone with ⟨hdir, t', hok, ht'⟩ | ⟨-, hmissing⟩
        · rw [hok]
          exact ⟨rfl, paved_step hp (paved_of_dir hdir) ht'⟩
        · rw [hmissing]
          have hlen : p.dropLast.length ≤ n := by rw [List.length_dropLast]; omega
          have hdirs : t.Clear p.dropLast := hclear.prefix (List.dropLast_prefix p)
          obtain ⟨hresult, hpaved⟩ := ih hlen hdirs
          -- the parent is there now, so that the second attempt succeeds
          have hshort : ¬ p <+: p.dropLast := by
            intro h
            have := h.length_le
            rw [List.length_dropLast] at this
            omega
          have hnone' : (mkdirParents n t p.dropLast).disk.node p = none := by
            rw [hpaved p, if_neg hshort, hnone]
          have hclear' : (mkdirParents n t p.dropLast).disk.Clear p := by
            intro q hq
            have hfile := hclear q hq
            unfold FileTree.isFile at hfile ⊢
            rw [hpaved q]
            split <;> grind
          have hparent : (mkdirParents n t p.dropLast).disk.node p.dropLast = some .dir := by
            rw [hpaved, if_pos (List.prefix_refl _)]
          rcases FileTree.mkdir_of_none hclear' hnone' with ⟨-, t', hok, ht'⟩ | ⟨hno, -⟩
          · simp only [hresult, mkdirOne_ok hok]
            exact ⟨trivial, paved_step hp hpaved ht'⟩
          · exact absurd hparent hno

end File

namespace FileBlob

variable {b : FileBlob} {t : Disk} {m : MemoryBlob}

/-! ## A map and a tree -/

/-- The call uses the key. -/
inductive KeyCall (key : Str) : Call → Prop where
  | put (data : Bytes) : KeyCall key (.put key data)
  | get : KeyCall key (.get key)
  | delete : KeyCall key (.delete key)

/-- The key has a path of its own: no directory is there, no file above it, and no other stored key
has the same path. -/
structure Apart (b : FileBlob) (t : Disk) (m : MemoryBlob) (key : Str) (p : Path) : Prop where
  resolves : b.resolve key = .ok p
  notDir : t.isDir p = false
  noneAbove : t.fileAbove p = false
  own : ∀ k ∈ m.data, b.resolve k = .ok p → k = key

/-- The tree holds under the path of each key what the map holds under the key, and nothing else. -/
structure Keyed (b : FileBlob) (t : Disk) (m : MemoryBlob) : Prop where
  root : t.node b.root = some .dir
  stored : ∀ key d, m.data.get? key = some d →
    ∃ p, b.resolve key = .ok p ∧ t.node p = some (.file d)
  files : ∀ p d, b.root <+: p → t.node p = some (.file d) →
    ∃ key, b.resolve key = .ok p ∧ m.data.get? key = some d
  injective : ∀ k ∈ m.data, ∀ k' ∈ m.data, ∀ p, b.resolve k = .ok p → b.resolve k' = .ok p → k = k'
  unlimited : m.maxObjects = none ∧ m.maxSize = none

theorem exists_of_mem {k : Str} (hk : k ∈ m.data) : ∃ d, m.data.get? k = some d := by
  cases h : m.data.get? k with
  | none => exact absurd hk (Dict.get?_eq_none_iff.mp h)
  | some d => exact ⟨d, rfl⟩

theorem mem_of_get? {k : Str} {d : Bytes} (h : m.data.get? k = some d) : k ∈ m.data := by
  by_contra hno
  rw [Dict.get?_eq_none_iff.mpr hno] at h
  cases h

/-- What a key that is apart holds. -/
theorem Keyed.get? (hk : Keyed b t m) {key : Str} {p : Path} (hp : Apart b t m key p) :
    (∃ d, t.node p = some (.file d) ∧ m.data.get? key = some d) ∨
      (t.node p = none ∧ m.data.get? key = none) := by
  cases h : t.node p with
  | none =>
      right
      refine ⟨rfl, ?_⟩
      by_contra hsome
      obtain ⟨d, hd⟩ := Option.ne_none_iff_exists'.mp hsome
      obtain ⟨p', hp', hfile⟩ := hk.stored key d hd
      obtain rfl : p = p' := Except.ok.inj (hp.resolves.symm.trans hp')
      rw [h] at hfile
      cases hfile
  | some n =>
      cases n with
      | dir =>
          have hnot := hp.notDir
          rw [FileTree.isDir_iff.mpr h] at hnot
          cases hnot
      | file d =>
          obtain ⟨k, hres, hd⟩ := hk.files p d (root_prefix_of_resolve hp.resolves) h
          obtain rfl := hp.own k (mem_of_get? hd) hres
          exact .inl ⟨d, rfl, hd⟩

/-! ## One operation -/

/-- What a call of the file backend does on a disk that only fails for the shape of its tree. -/
abbrev onDisk (b : FileBlob) (c : Call) (t : Disk) : Outcome PyExc Value × Unit × Disk :=
  (b.backend.perform c).run disk () t

theorem clear_parent {p : Path} (hno : t.fileAbove p = false) : t.Clear p.dropLast := by
  intro q hq
  rw [Bool.eq_false_iff]
  intro hfile
  obtain ⟨d, hd⟩ := FileTree.isFile_iff.mp hfile
  have hne : q ≠ p := by
    rintro rfl
    have hnil : q = [] := by
      by_contra hnil
      have := hq.length_le
      have := List.length_pos_of_ne_nil hnil
      rw [List.length_dropLast] at *
      omega
    rw [hnil, FileTree.node_nil] at hd
    cases hd
  have habove : t.fileAbove p = true :=
    FileTree.fileAbove_iff.mpr ⟨q, hq.trans (List.dropLast_prefix p), hne, hfile⟩
  rw [hno] at habove
  cases habove

/-- The parents of `p` can be made when no file is in the way. -/
theorem mkdir_parent {p : Path} (habove : t.fileAbove p = false) :
    (File.mkdir t p.dropLast).result = .ok () ∧
      Paved t p.dropLast (File.mkdir t p.dropLast).disk :=
  node_mkdirParents (Nat.le_refl _) (clear_parent habove)

/-- Where no file is in the way, the parents of `p` can be made and `p` can be written. -/
theorem mkdir_write {p : Path} (hdir : t.isDir p = false) (habove : t.fileAbove p = false)
    (data : Bytes) :
    (File.mkdir t p.dropLast).result = .ok () ∧
      ∃ t', (File.mkdir t p.dropLast).disk.write p data = .ok t' ∧
        ∀ q, t'.node q = if q = p then some (.file data)
          else if q <+: p.dropLast then some .dir else t.node q := by
  have hpne : p ≠ [] := by
    rintro rfl
    rw [FileTree.isDir_iff.mpr (FileTree.node_nil t)] at hdir
    cases hdir
  obtain ⟨hresult, hpaved⟩ := mkdir_parent habove
  have hparent : (File.mkdir t p.dropLast).disk.node p.dropLast = some .dir := by
    rw [hpaved, if_pos (List.prefix_refl _)]
  have hshort : ¬ p <+: p.dropLast := by
    intro h
    have := h.length_le
    have := List.length_pos_of_ne_nil hpne
    rw [List.length_dropLast] at *
    omega
  have hnot : (File.mkdir t p.dropLast).disk.isDir p = false := by
    unfold FileTree.isDir at *
    rwa [hpaved, if_neg hshort]
  obtain ⟨t', hwrite, ht'⟩ := FileTree.write_of_dir hpne hparent hnot data
  exact ⟨hresult, t', hwrite, fun q => by rw [ht' q, hpaved]⟩

/-- `put` of a key that is apart. -/
theorem run_put {key : Str} {p : Path} (hp : Apart b t m key p) (data : Bytes) :
    ∃ t', b.onDisk (.put key data) t = (.ok .none, (), t') ∧
      ∀ q, t'.node q = if q = p then some (.file data)
        else if q <+: p.dropLast then some .dir else t.node q := by
  obtain ⟨hresult, t', hwrite, ht'⟩ := mkdir_write hp.notDir hp.noneAbove data
  refine ⟨t', ?_, ht'⟩
  have hrun : wp disk (b.put key data) (fun o s t => (o, s, t) = (.ok (), (), t')) () t := by
    unfold put
    rw [hp.resolves, Program.ofExcept, bind_eq, pure_bind', bind_eq, wp_bind]
    show wp disk (raising (File.mkdir t p.dropLast).result) _ () (File.mkdir t p.dropLast).disk
    rw [hresult, raising, wp_pure, bindPost_ok]
    unfold writeBytes
    rw [wp_call]
    show wp disk (raising (changed (File.mkdir t p.dropLast).disk
      ((File.mkdir t p.dropLast).disk.write p data)).1) _ () (changed (File.mkdir t p.dropLast).disk
      ((File.mkdir t p.dropLast).disk.write p data)).2
    rw [hwrite]
    rfl
  show wp disk ((b.put key data).bind fun _ => .pure .none)
    (fun o s t => (o, s, t) = (.ok Value.none, (), t')) () t
  rw [wp_bind]
  apply wp_mono hrun
  rintro o s t₁ ⟨⟩
  rfl

/-- `get` depends on what reading the path gives. -/
theorem run_get {key : Str} {p : Path} (hp : b.resolve key = .ok p) :
    b.onDisk (.get key) t = (match t.read p with
      | .ok d => .ok (.data d)
      | .error .notFound => .error (.keyError key)
      | .error e => .error (.osError (fileErr e)), (), t) := by
  show Program.run disk ((b.get key).bind _) () t = _
  unfold get
  rw [hp]
  show Program.run disk (((raising ((t.read p).mapError fileErr)).tryCatch (notFound key)).bind _)
    () t = _
  cases t.read p with
  | ok d => rfl
  | error e => cases e <;> rfl

theorem run_delete {key : Str} {p : Path} (hp : b.resolve key = .ok p) :
    b.onDisk (.delete key) t = match t.unlink p with
      | .ok t' => (.ok .none, (), t')
      | .error .notFound => (.error (.keyError key), (), t)
      | .error e => (.error (.osError (fileErr e)), (), t) := by
  show Program.run disk ((b.delete key).bind _) () t = _
  unfold delete
  rw [hp]
  show Program.run disk (((raising (changed t (t.unlink p)).1).tryCatch (notFound key)).bind _)
    () (changed t (t.unlink p)).2 = _
  cases t.unlink p with
  | ok t' => rfl
  | error e => cases e <;> rfl

/-- Without limits everything can be stored. -/
theorem checkLimits_unlimited (h : m.maxObjects = none ∧ m.maxSize = none) (key : Option Str)
    (n : Int) : m.checkLimits key n = .ok () := by
  unfold MemoryBlob.checkLimits
  rw [h.1, h.2]
  rfl

theorem Keyed.put (hk : Keyed b t m) {key : Str} {p : Path} (hp : Apart b t m key p)
    (data : Bytes) {t' : Disk}
    (ht' : ∀ q, t'.node q = if q = p then some (.file data)
      else if q <+: p.dropLast then some .dir else t.node q) :
    Keyed b t' (m.store key data) := by
  have hget : ∀ k, (m.store key data).data.get? k =
      if k = key then some data else m.data.get? k := fun k => Dict.get?_set m.data key k data
  have hmem : ∀ k, k ∈ (m.store key data).data → k = key ∨ k ∈ m.data := by
    intro k hk
    obtain ⟨d, hd⟩ := exists_of_mem hk
    rw [hget] at hd
    split at hd
    · next h => exact .inl h
    · exact .inr (mem_of_get? hd)
  have hroot : b.root ≠ p := by
    intro h
    have hnot := hp.notDir
    rw [← h, FileTree.isDir_iff.mpr hk.root] at hnot
    cases hnot
  -- no file lies above `p`, so that no other file is touched
  have hother : ∀ q d, q ≠ p → t.node q = some (.file d) → t'.node q = some (.file d) := by
    intro q d hq hd
    rw [ht' q, if_neg hq, if_neg, hd]
    intro hpre
    have habove : t.fileAbove p = true := FileTree.fileAbove_iff.mpr
      ⟨q, hpre.trans (List.dropLast_prefix p), hq, FileTree.isFile_iff.mpr ⟨d, hd⟩⟩
    rw [hp.noneAbove] at habove
    cases habove
  refine ⟨?_, ?_, ?_, ?_, hk.unlimited⟩
  · rw [ht', if_neg hroot, hk.root]
    split <;> rfl
  · intro k d hd
    rw [hget] at hd
    split at hd
    · next hkey =>
        obtain rfl := Option.some.inj hd
        exact ⟨p, hkey ▸ hp.resolves, by rw [ht' p, if_pos rfl]⟩
    · next hkey =>
        obtain ⟨q, hres, hfile⟩ := hk.stored k d hd
        refine ⟨q, hres, hother q d ?_ hfile⟩
        rintro rfl
        exact hkey (hp.own k (mem_of_get? hd) hres)
  · intro q d hq hd
    rw [ht' q] at hd
    split at hd
    · next hqp =>
        obtain ⟨rfl⟩ : data = d := by simpa using hd
        exact ⟨key, hqp ▸ hp.resolves, by rw [hget, if_pos rfl]⟩
    · next hqp =>
        split at hd
        · cases hd
        · obtain ⟨k, hres, hkd⟩ := hk.files q d hq hd
          refine ⟨k, hres, ?_⟩
          rw [hget, if_neg, hkd]
          rintro rfl
          exact hqp (Except.ok.inj (hres.symm.trans hp.resolves))
  · intro k hkm k' hkm' q hres hres'
    by_cases hqp : q = p
    · subst hqp
      have hone : ∀ k, k ∈ (m.store key data).data → b.resolve k = .ok q → k = key := by
        intro k hkm hres
        exact (hmem k hkm).elim id fun h => hp.own k h hres
      rw [hone k hkm hres, hone k' hkm' hres']
    · have hold : ∀ k, k ∈ (m.store key data).data → b.resolve k = .ok q → k ∈ m.data := by
        intro k hkm hres
        refine (hmem k hkm).resolve_left ?_
        rintro rfl
        exact hqp (Except.ok.inj (hres.symm.trans hp.resolves))
      exact hk.injective k (hold k hkm hres) k' (hold k' hkm' hres') q hres hres'

theorem Keyed.delete (hk : Keyed b t m) {key : Str} {p : Path} (hp : Apart b t m key p)
    (data : Bytes) {t' : Disk}
    (ht' : ∀ q, t'.node q = if q = p then none else t.node q) :
    Keyed b t' (m.discard key data) := by
  have hget : ∀ k, (m.discard key data).data.get? k =
      if k = key then none else m.data.get? k := fun k => Dict.get?_erase m.data key k
  have hmem : ∀ k, k ∈ (m.discard key data).data → k ∈ m.data := by
    intro k hk
    obtain ⟨d, hd⟩ := exists_of_mem hk
    rw [hget] at hd
    split at hd
    · cases hd
    · exact mem_of_get? hd
  -- the root is a directory, and so it is not what is removed
  have hroot : b.root ≠ p := by
    intro h
    have hnot := hp.notDir
    rw [← h, FileTree.isDir_iff.mpr hk.root] at hnot
    cases hnot
  refine ⟨by rw [ht', if_neg hroot, hk.root], ?_, ?_, ?_, hk.unlimited⟩
  · intro k d hd
    rw [hget] at hd
    split at hd
    · cases hd
    · next hkey =>
        obtain ⟨q, hres, hfile⟩ := hk.stored k d hd
        refine ⟨q, hres, ?_⟩
        rw [ht', if_neg, hfile]
        rintro rfl
        exact hkey (hp.own k (mem_of_get? hd) hres)
  · intro q d hq hd
    rw [ht' q] at hd
    split at hd
    · cases hd
    · next hqp =>
        obtain ⟨k, hres, hkd⟩ := hk.files q d hq hd
        refine ⟨k, hres, ?_⟩
        rw [hget, if_neg, hkd]
        rintro rfl
        exact hqp (Except.ok.inj (hres.symm.trans hp.resolves))
  · exact fun k hkm k' hkm' => hk.injective k (hmem k hkm) k' (hmem k' hkm')

/-- An operation on a key that is apart does on the tree what it does on the map. -/
theorem Keyed.step (hk : Keyed b t m) {key : Str} {p : Path} (hp : Apart b t m key p) {c : Call}
    (hc : KeyCall key c) :
    ∃ t', b.onDisk c t = ((MemoryBlob.effect c m).1, (), t') ∧
      Keyed b t' (MemoryBlob.effect c m).2 := by
  cases hc with
  | put data =>
      obtain ⟨t', hrun, ht'⟩ := run_put hp data
      have heffect : MemoryBlob.effect (.put key data) m = (.ok .none, m.store key data) := by
        unfold MemoryBlob.effect
        dsimp only
        rw [checkLimits_unlimited hk.unlimited]
      rw [heffect]
      exact ⟨t', hrun, hk.put hp data ht'⟩
  | get =>
      refine ⟨t, ?_, ?_⟩
      · rw [run_get hp.resolves]
        unfold MemoryBlob.effect
        dsimp only
        rcases hk.get? hp with ⟨d, hnode, hd⟩ | ⟨hnone, hd⟩
        · rw [FileTree.read_of_file hnode, hd]
        · rw [FileTree.read_of_none hnone hp.noneAbove, hd]
      · unfold MemoryBlob.effect
        dsimp only
        split <;> exact hk
  | delete =>
      rw [run_delete hp.resolves]
      unfold MemoryBlob.effect
      dsimp only
      rcases hk.get? hp with ⟨d, hnode, hd⟩ | ⟨hnone, hd⟩
      · obtain ⟨t', hunlink, ht'⟩ := FileTree.unlink_of_file hnode
        rw [hunlink, hd]
        exact ⟨t', rfl, hk.delete hp d ht'⟩
      · rw [FileTree.unlink_of_none hnone hp.noneAbove, hd]
        exact ⟨t, rfl, hk⟩

/-- When `get` gives what the map gives, the key is apart. -/
theorem Keyed.apart_of_get (hk : Keyed b t m) {key : Str} {p : Path} (hp : b.resolve key = .ok p)
    (hget : (b.onDisk (.get key) t).1 = (MemoryBlob.effect (.get key) m).1) :
    Apart b t m key p := by
  rw [run_get hp] at hget
  unfold MemoryBlob.effect at hget
  dsimp only at hget
  rcases FileTree.read_cases t p with ⟨d, hnode, hread⟩ | ⟨hnode, hread⟩ | ⟨hnode, -, hread⟩ |
    ⟨hnode, habove, hread⟩
  · have hfile := FileTree.clear_of_file (FileTree.isFile_iff.mpr ⟨d, hnode⟩)
    refine ⟨hp, hfile.1, hfile.2, fun k hkm hres => ?_⟩
    -- the map holds something under `key` as well
    cases hd : m.data.get? key with
    | none =>
        rw [hread, hd] at hget
        cases hget
    | some d' => exact hk.injective k hkm key (mem_of_get? hd) p hres hp
  · rw [hread] at hget
    cases hd : m.data.get? key <;> rw [hd] at hget <;> cases hget
  · rw [hread] at hget
    cases hd : m.data.get? key <;> rw [hd] at hget <;> cases hget
  · refine ⟨hp, ?_, habove, fun k hkm hres => ?_⟩
    · unfold FileTree.isDir
      rw [hnode]
    · obtain ⟨d, hd⟩ := exists_of_mem hkm
      obtain ⟨q, hq, hfile⟩ := hk.stored k d hd
      obtain rfl : p = q := Except.ok.inj (hres.symm.trans hq)
      rw [hnode] at hfile
      cases hfile

/-! ## Sequences of operations -/

/-- Each call of the sequence is an operation on a key that is apart in the state before it. -/
def Separate (b : FileBlob) : List Call → Disk → MemoryBlob → Prop
  | [], _, _ => True
  | c :: cs, t, m => (∃ key p, KeyCall key c ∧ Apart b t m key p) ∧
      Separate b cs (b.onDisk c t).2.2 (MemoryBlob.effect c m).2

/-- The results of the calls on the file backend, and the disk after them. -/
abbrev onFiles (b : FileBlob) (cs : List Call) (t : Disk) : List (Outcome PyExc Value) × Unit × Disk :=
  runCalls disk b.backend.perform cs () t

/-- The results of the calls on the memory backend, and the store after them. -/
abbrev onMemory (cs : List Call) (m : MemoryBlob) :
    List (Outcome PyExc Value) × MemoryBlob × Unit :=
  runCalls uncontended Sync.MemoryBlob.backend.perform cs m ()

theorem effect_ne_spun (c : Call) (m : MemoryBlob) : (MemoryBlob.effect c m).1 ≠ .spun := by
  unfold MemoryBlob.effect
  cases c <;> grind

theorem onMemory_cons (c : Call) (cs : List Call) (m : MemoryBlob) :
    onMemory (c :: cs) m = ((MemoryBlob.effect c m).1 :: (onMemory cs (MemoryBlob.effect c m).2).1,
      (onMemory cs (MemoryBlob.effect c m).2).2) := by
  have hrun := MemoryBlob.run_sync c m ()
  unfold onMemory
  rw [runCalls_cons_of_ne (by rw [hrun]; exact effect_ne_spun c m), hrun]

theorem onFiles_cons {c : Call} (hne : (b.onDisk c t).1 ≠ .spun) (cs : List Call) :
    b.onFiles (c :: cs) t = ((b.onDisk c t).1 :: (b.onFiles cs (b.onDisk c t).2.2).1,
      (b.onFiles cs (b.onDisk c t).2.2).2) := by
  unfold onFiles
  rw [runCalls_cons_of_ne hne]

/-- The results agree, and the tree and the map still do at the end. -/
theorem Keyed.run {cs : List Call} (hk : Keyed b t m) (hcs : Separate b cs t m) :
    (b.onFiles cs t).1 = (onMemory cs m).1 ∧ Keyed b (b.onFiles cs t).2.2 (onMemory cs m).2.1 := by
  induction cs generalizing t m with
  | nil => exact ⟨rfl, hk⟩
  | cons c cs ih =>
      obtain ⟨⟨key, p, hc, hp⟩, hrest⟩ := hcs
      obtain ⟨t', hrun, hk'⟩ := hk.step hp hc
      have hne : (b.onDisk c t).1 ≠ .spun := by
        rw [hrun]
        exact effect_ne_spun c m
      have hcons := b.onFiles_cons hne cs
      rw [hrun] at hcons
      rw [hrun] at hrest
      obtain ⟨hresults, hend⟩ := ih hk' hrest
      rw [hcons, onMemory_cons, hresults]
      exact ⟨rfl, hend⟩

/-- The root is an empty directory. -/
structure EmptyRoot (b : FileBlob) (t : Disk) : Prop where
  root : t.node b.root = some .dir
  empty : ∀ p, b.root <+: p → p ≠ b.root → t.node p = none

/-- `MemoryBlob()`. -/
def unlimited : MemoryBlob := .init none none

theorem EmptyRoot.keyed (h : EmptyRoot b t) : Keyed b t unlimited := by
  have hnone : ∀ key, unlimited.data.get? key = none := fun key => rfl
  refine ⟨h.root, ?_, ?_, ?_, rfl, rfl⟩
  · intro key d hd
    rw [hnone] at hd
    cases hd
  · intro p d hp hd
    by_cases hroot : p = b.root
    · rw [hroot, h.root] at hd
      cases hd
    · rw [h.empty p hp hroot] at hd
      cases hd
  · intro k hk
    obtain ⟨d, hd⟩ := exists_of_mem hk
    rw [hnone] at hd
    cases hd

/-- **The key space is flat exactly while the keys are apart**: from an empty root, a sequence of
`put`, `get` and `delete` calls whose keys are apart from what is stored gives the results of a
`MemoryBlob` without limits, and in the state after it the operations on a further key do so exactly
when that key is apart. -/
theorem flat_iff {b : FileBlob} {t : Disk} (h : EmptyRoot b t) {cs : List Call}
    (hcs : Separate b cs t unlimited) :
    (b.onFiles cs t).1 = (onMemory cs unlimited).1 ∧
      ∀ key p, b.resolve key = .ok p →
        ((∀ c, KeyCall key c → (b.onDisk c (b.onFiles cs t).2.2).1 =
            (MemoryBlob.effect c (onMemory cs unlimited).2.1).1) ↔
          Apart b (b.onFiles cs t).2.2 (onMemory cs unlimited).2.1 key p) := by
  obtain ⟨hresults, hk⟩ := h.keyed.run hcs
  refine ⟨hresults, fun key p hp => ⟨fun hagree => ?_, fun hapart c hc => ?_⟩⟩
  · exact hk.apart_of_get hp (hagree _ .get)
  · obtain ⟨t', hrun, -⟩ := hk.step hapart hc
    rw [hrun]

theorem emptyRoot_sample : EmptyRoot sample sampleDisk := by
  refine ⟨by decide, fun p hp hne => ?_⟩
  obtain ⟨q, rfl⟩ := hp
  have hq : q ≠ [] := by
    rintro rfl
    exact hne (List.append_nil _)
  unfold sampleDisk
  rw [FileTree.node_insert]
  rw [if_neg (by simpa [sample] using hq)]
  exact if_neg (by simp [sample])

/-- Two keys with different paths. -/
theorem flat_iff_two : (sample.onFiles [.put ['a'] [1], .get ['b']] sampleDisk).1 =
    [.ok .none, .error (.keyError ['b'])] := by
  have hcs : Separate sample [.put ['a'] [1], .get ['b']] sampleDisk unlimited := by
    refine ⟨⟨['a'], [⟨['r'], by decide⟩, ⟨['a'], by decide⟩], .put _, ?_⟩,
      ⟨['b'], [⟨['r'], by decide⟩, ⟨['b'], by decide⟩], .get, ?_⟩, trivial⟩
    · exact ⟨by decide, by decide, by decide, fun k hk => nomatch hk⟩
    · refine ⟨by decide, by decide, by decide, fun k hk hres => ?_⟩
      obtain rfl : k = ['a'] := List.mem_singleton.mp hk
      exact absurd hres (by decide)
  rw [(flat_iff emptyRoot_sample hcs).1]
  decide

/-- The keys `a` and `./a` have one path: the second `put` overwrites the data of the first key. -/
theorem not_flat_alias :
    (sample.onFiles [.put ['a'] [1], .put ['.', '/', 'a'] [2], .get ['a']] sampleDisk).1 =
        [.ok .none, .ok .none, .ok (.data [2])] ∧
      (onMemory [.put ['a'] [1], .put ['.', '/', 'a'] [2], .get ['a']] unlimited).1 =
        [.ok .none, .ok .none, .ok (.data [1])] ∧
      (sample.onFiles [.put ['a'] [1], .put ['a', '/', 'b'] [2]] sampleDisk).1 =
        [.ok .none, .error (.osError .fileExists)] := by decide

end FileBlob

end GufoBlob
