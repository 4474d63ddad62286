import GufoBlob.File.Keyspace

/-!
# The errors of the file backend

Any method of `Path` that touches the file system may raise an `OSError`, and some do for the shape
of the tree alone. `FileBlob` turns `FileNotFoundError` of `get` and `delete` into `KeyError` and
converts no other.

* `faultyDisk` — a file system where the calls that `fails` names raise.
* `Faultless` — nothing else than that `FileNotFoundError` is raised during a call.
* `unified_iff_faultless` — the errors of a call are unified exactly when it is faultless.
-/

namespace GufoBlob

open Text Data Interaction Program File

namespace File

/-- The `OSError` as the answer to a call. -/
def answerError (e : FileErr) : (o : FsOp) → fs.Ans o
  | .mkdir _ => .error e
  | .writeBytes _ _ => .error e
  | .readBytes _ => .error e
  | .unlink _ => .error e
  | .exists' _ => .error e
  | .isFile _ => .error e
  | .isDir _ => .error e
  | .rglob _ => .error e

/-- The calls that raise, with the error and the disk that each leaves. -/
abbrev Faults := FsOp → Option (FileErr × Disk)

/-- A file system where some calls raise; the others fail for the shape of the tree only. -/
def faultyDisk (fails : Faults) : Handler fs Disk := fun t o =>
  match fails o with
  | some (e, t') => (answerError e o, t')
  | none => disk t o

section Faulty

variable {fails : Faults} {t t' : Disk} {o : FsOp}

theorem faultyDisk_some {e : FileErr} (h : fails o = some (e, t')) :
    faultyDisk fails t o = (answerError e o, t') := by
  unfold faultyDisk
  rw [h]

theorem faultyDisk_none (h : fails o = none) : faultyDisk fails t o = disk t o := by
  unfold faultyDisk
  rw [h]

end Faulty

/-- `mkdir` does not get past a file, and makes nothing when one is in the way. -/
theorem mkdir_of_file {t : Disk} {p q : Path} (hqp : q <+: p) (hq : t.isFile q = true) :
    ∃ e, (mkdir t p).result = .error e ∧ (mkdir t p).disk = t := by
  have hdir : t.isDir p = false := by
    rw [Bool.eq_false_iff]
    intro hdir
    have hp := FileTree.isDir_iff.mp hdir
    obtain ⟨d, hd⟩ := FileTree.isFile_iff.mp hq
    by_cases hne : q = p
    · rw [hne, hp] at hd
      cases hd
    · rw [FileTree.node_above hqp hne (by simp [hp])] at hd
      cases hd
  have hmkdir : t.mkdir p = .error .alreadyExists ∨ t.mkdir p = .error .notDirectory := by
    cases hp : t.node p with
    | some n => exact .inl (FileTree.mkdir_of_exists hp)
    | none =>
        right
        have hne : q ≠ p := by
          rintro rfl
          obtain ⟨d, hd⟩ := FileTree.isFile_iff.mp hq
          rw [hp] at hd
          cases hd
        unfold FileTree.mkdir
        rw [FileTree.lookup_of_none hp, FileTree.fileAbove_iff.mpr ⟨q, hqp, hne, hq⟩]
        rfl
  have hexistOk : ∀ e, existOk t p e = ⟨.error (fileErr e), t, [p, p]⟩ := by
    intro e
    simp [existOk, hdir]
  unfold mkdir
  cases p.length with
  | zero =>
      unfold mkdirParents mkdirOne
      rcases hmkdir with h | h <;> simp [h, hexistOk]
  | succ n =>
      unfold mkdirParents
      rcases hmkdir with h | h <;> simp [h, hexistOk]

end File

namespace FileBlob

variable {b : FileBlob} {fails : Faults} {t : Disk}

/-- The data of a key are there. -/
def Stored (b : FileBlob) (t : Disk) (key : Str) : Prop :=
  ∃ p, b.resolve key = .ok p ∧ t.isFile p = true

/-- Reading or unlinking `p` works, or finds that there is no such file. -/
def Settles (fails : Faults) (t : Disk) (o : FsOp) (p : Path) : Prop :=
  (fails o = none ∧ t.isDir p = false ∧ t.fileAbove p = false) ∨
    ∃ t', fails o = some (.fileNotFound, t') ∧ t.isFile p = false

/-- `rglob`, and the tests of what it finds. -/
def ListFaultless (fails : Faults) (t : Disk) (p : Path) : Prop :=
  fails (.rglob p) = none ∧ ∀ q ∈ t.below p, fails (.isFile q) = none

/-- The test for a file, and the list of a directory. -/
def BaseFaultless (fails : Faults) (t : Disk) (p : Path) : Prop :=
  fails (.isFile p) = none ∧ (t.isFile p = false → ListFaultless fails t p)

/-- No method that the call uses raises an `OSError`, other than `FileNotFoundError` where `get` or
`delete` is asked for a key that is not stored. -/
def Faultless (b : FileBlob) (fails : Faults) (t : Disk) : Call → Prop
  | .open' => True
  | .close => True
  | .put key data => ∀ p, b.resolve key = .ok p →
      fails (.mkdir p.dropLast) = none ∧ fails (.writeBytes p data) = none ∧
        t.isDir p = false ∧ t.fileAbove p = false
  | .get key => ∀ p, b.resolve key = .ok p → Settles fails t (.readBytes p) p
  | .delete key => ∀ p, b.resolve key = .ok p → Settles fails t (.unlink p) p
  | .exists' key => ∀ p, b.resolve key = .ok p → fails (.exists' p) = none
  | .scan pre => ∀ p, b.scanBase pre = .ok p → fails (.exists' p) = none ∧
      (File.pathExists t p = true → BaseFaultless fails t p)

/-- The key of a call, or the prefix of a scan. -/
def argument : Call → Str
  | .open' => []
  | .close => []
  | .put key _ => key
  | .get key => key
  | .delete key => key
  | .exists' key => key
  | .scan pre => pre

/-- Without a NUL in the key, `_resolve` raises nothing but `BlobError`. -/
theorem blobError_of_resolve {key : Str} {e : PyExc} (hkey : '\x00' ∉ key)
    (h : b.resolve key = .error e) : ∃ msg, e = .blobError msg := by
  unfold resolve File.resolve at h
  rw [if_neg hkey] at h
  split at h
  · exact ⟨_, (Except.error.inj h).symm⟩
  · dsimp only [Bind.bind, Except.bind] at h
    split at h
    · cases h
    · exact ⟨_, (Except.error.inj h).symm⟩

/-! ## Each operation -/

/-- The errors of `c` are unified exactly when it is faultless. -/
abbrev Exact (b : FileBlob) (fails : Faults) (t : Disk) (c : Call) : Outcome PyExc Value → Prop :=
  fun o => Unified (b.Stored t) c o ↔ b.Faultless fails t c

theorem exact_put {key : Str} (hkey : '\x00' ∉ key) (data : Bytes) :
    wp (faultyDisk fails) (b.backend.perform (.put key data))
      (fun o _ _ => b.Exact fails t (.put key data) o) () t := by
  show wp _ ((b.put key data).bind fun _ => .pure Value.none) _ _ _
  rw [wp_bind]
  unfold put
  cases hres : b.resolve key with
  | error e =>
      obtain ⟨msg, rfl⟩ := blobError_of_resolve hkey hres
      exact iff_of_true trivial fun p hp => by rw [hres] at hp; cases hp
  | ok p =>
      have hraises : ∀ e : FileErr, ¬ (fails (.mkdir p.dropLast) = none ∧
          fails (.writeBytes p data) = none ∧ t.isDir p = false ∧ t.fileAbove p = false) →
          b.Exact fails t (.put key data) (.error (.osError e)) :=
        fun e h => iff_of_false id fun hall => h (hall p hres)
      rw [Program.ofExcept, bind_eq, pure_bind', bind_eq, wp_bind]
      unfold mkdir
      rw [wp_call]
      cases hmkdir : fails (.mkdir p.dropLast) with
      | some x =>
          rw [faultyDisk_some hmkdir]
          exact hraises _ (by simp [hmkdir])
      | none =>
          rw [faultyDisk_none hmkdir]
          show wp _ (raising (File.mkdir t p.dropLast).result) _ () (File.mkdir t p.dropLast).disk
          cases habove : t.fileAbove p with
          -- a file stands where a parent has to be made
          | true =>
              obtain ⟨q, hqp, hne, hq⟩ := FileTree.fileAbove_iff.mp habove
              obtain ⟨e, he, -⟩ := mkdir_of_file (Data.prefix_dropLast hqp hne) hq
              rw [he]
              exact hraises _ (by simp [habove])
          | false =>
              rw [(mkdir_parent habove).1, raising, wp_pure, bindPost_ok]
              unfold writeBytes
              rw [wp_call]
              cases hwrite : fails (.writeBytes p data) with
              | some x =>
                  rw [faultyDisk_some hwrite]
                  exact hraises _ (by simp [hwrite])
              | none =>
                  rw [faultyDisk_none hwrite]
                  show wp _ (raising (changed _ ((File.mkdir t p.dropLast).disk.write p data)).1) _ _ _
                  cases hdir : t.isDir p with
                  -- the key is a directory, and still is one once its parents are made
                  | true =>
                      have hstays := dir_of_mkdirParents (n := p.dropLast.length)
                        (p := p.dropLast) (FileTree.isDir_iff.mp hdir)
                      rw [show (File.mkdir t p.dropLast).disk.write p data = _ from
                        FileTree.write_of_isDir hstays data]
                      exact hraises _ (by simp [hdir])
                  | false =>
                      obtain ⟨-, t', hok, -⟩ := mkdir_write hdir habove data
                      rw [hok]
                      refine iff_of_true (fun k hk => by simp at hk) fun p' hp' => ?_
                      obtain rfl : p = p' := Except.ok.inj (hres.symm.trans hp')
                      exact ⟨hmkdir, hwrite, hdir, habove⟩

/-- What a method that needs a file answers, for the shape of the tree. -/
inductive Looks {α : Type} (t : Disk) (p : Path) : Except FileErr α → Prop where
  | file (a : α) : t.isFile p = true → Looks t p (.ok a)
  | missing : t.isFile p = false → t.isDir p = false → t.fileAbove p = false →
      Looks t p (.error .fileNotFound)
  | blocked {e : FileErr} : t.isFile p = false → ¬ (t.isDir p = false ∧ t.fileAbove p = false) →
      e ≠ .fileNotFound → Looks t p (.error e)

theorem looks_of_node {α : Type} {p : Path} {r : Except TreeError α}
    (h : (∃ d, t.node p = some (.file d) ∧ ∃ a, r = .ok a) ∨
      (t.node p = some .dir ∧ r = .error .isDirectory) ∨
      (t.node p = none ∧ t.fileAbove p = true ∧ r = .error .notDirectory) ∨
      (t.node p = none ∧ t.fileAbove p = false ∧ r = .error .notFound)) :
    Looks t p (r.mapError fileErr) := by
  rcases h with ⟨d, hd, a, rfl⟩ | ⟨hdir, rfl⟩ | ⟨hnone, habove, rfl⟩ | ⟨hnone, habove, rfl⟩
  · exact .file a (FileTree.isFile_iff.mpr ⟨d, hd⟩)
  · refine .blocked ?_ ?_ nofun
    · unfold FileTree.isFile
      rw [hdir]
    · rw [FileTree.isDir_iff.mpr hdir]
      simp
  · refine .blocked ?_ ?_ nofun
    · unfold FileTree.isFile
      rw [hnone]
    · rw [habove]
      simp
  · refine .missing ?_ ?_ habove
    · unfold FileTree.isFile
      rw [hnone]
    · unfold FileTree.isDir
      rw [hnone]

/-- The answer that `get` and `delete` go on with. -/
def answer {α : Type} (fault : Option (FileErr × Disk)) (r : Except FileErr α) : Except FileErr α :=
  match fault with
  | some (e, _) => .error e
  | none => r

theorem settles_some {o : FsOp} {p : Path} {e : FileErr} {t' : Disk}
    (h : fails o = some (e, t')) :
    Settles fails t o p ↔ e = .fileNotFound ∧ t.isFile p = false := by
  unfold Settles
  rw [h]
  constructor
  · rintro (⟨h, -⟩ | ⟨t'', h, hfile⟩)
    · cases h
    · cases h
      exact ⟨rfl, hfile⟩
  · rintro ⟨rfl, hfile⟩
    exact .inr ⟨t', rfl, hfile⟩

theorem settles_none {o : FsOp} {p : Path} (h : fails o = none) :
    Settles fails t o p ↔ t.isDir p = false ∧ t.fileAbove p = false := by
  unfold Settles
  rw [h]
  grind

/-- `try: ...  except FileNotFoundError: raise KeyError` is unified when the file is there, or when
it is not and that exception is raised. -/
theorem unified_notFound {α : Type} {c : Call} {key : Str} {p : Path} {o : FsOp} {v : α → Value}
    {r : Except FileErr α} {h : Handler fs Disk} {s : Unit} {w : Disk}
    (hc : c = .get key ∨ c = .delete key) (hres : b.resolve key = .ok p) (hr : Looks t p r) :
    wp h (((raising (answer (fails o) r)).tryCatch (notFound key)).bind fun a => .pure (v a))
      (fun out _ _ => Unified (b.Stored t) c out ↔ Settles fails t o p) s w := by
  have hstored : b.Stored t key ↔ t.isFile p = true := by
    constructor
    · rintro ⟨q, hq, hfile⟩
      rwa [Except.ok.inj (hres.symm.trans hq)]
    · exact fun hfile => ⟨p, hres, hfile⟩
  have hkey : ∀ k, c = .get k ∨ c = .delete k → k = key := by
    rintro k (rfl | rfl) <;> rcases hc with h | h <;> cases h <;> rfl
  have hother : ∀ e : FileErr, e ≠ .fileNotFound →
      wp h (((raising (.error e : Except FileErr α)).tryCatch (notFound key)).bind fun a =>
        .pure (v a)) (fun out _ _ => ¬ Unified (b.Stored t) c out) s w := by
    intro e he
    cases e <;> first | exact absurd rfl he | exact id
  cases hfault : fails o with
  | some x =>
      obtain ⟨e, t'⟩ := x
      rw [settles_some hfault]
      by_cases he : e = .fileNotFound
      · subst he
        show ((c = .get key ∨ c = .delete key) ∧ ¬ b.Stored t key) ↔ _
        rw [hstored]
        grind
      · exact iff_of_false (hother e he) fun h => he h.1
  | none =>
      rw [settles_none hfault]
      cases hr with
      | file a hfile =>
          refine iff_of_true (fun k hk => ?_) (FileTree.clear_of_file hfile)
          rw [hkey k hk]
          exact hstored.mpr hfile
      | missing hfile hdir habove =>
          refine iff_of_true ⟨hc, ?_⟩ ⟨hdir, habove⟩
          rw [hstored, hfile]
          simp
      | blocked hfile hblocked he => exact iff_of_false (hother _ he) hblocked

theorem wp_call_tryCatch_bind {α β : Type} {h : Handler fs Disk} (o : FsOp)
    (k : fs.Ans o → FileProg α) (g : PyExc → FileProg α) (f : α → FileProg β)
    (Q : Outcome PyExc β → Unit → Disk → Prop) (s : Unit) (w : Disk) :
    wp h (((Program.call o k).tryCatch g).bind f) Q s w ↔
      wp h (((k (h w o).1).tryCatch g).bind f) Q s (h w o).2 := Iff.rfl

theorem exact_get {key : Str} (hkey : '\x00' ∉ key) :
    wp (faultyDisk fails) (b.backend.perform (.get key))
      (fun o _ _ => b.Exact fails t (.get key) o) () t := by
  show wp _ ((b.get key).bind fun d => .pure (Value.data d)) _ _ _
  unfold get
  cases hres : b.resolve key with
  | error e =>
      obtain ⟨msg, rfl⟩ := blobError_of_resolve hkey hres
      exact iff_of_true trivial fun p hp => by rw [hres] at hp; cases hp
  | ok p =>
      have hanswer : (faultyDisk fails t (.readBytes p)).1 =
          answer (fails (.readBytes p)) ((t.read p).mapError fileErr) := by
        unfold faultyDisk answer
        cases fails (.readBytes p) <;> rfl
      have hlooks : Looks t p ((t.read p).mapError fileErr) := by
        apply looks_of_node
        grind [FileTree.read_cases t p]
      rw [Program.ofExcept, bind_eq, pure_bind']
      unfold readBytes
      rw [wp_call_tryCatch_bind, hanswer]
      apply wp_mono (unified_notFound (.inl rfl) hres hlooks)
      intro out s w h
      refine h.trans ⟨fun hset p' hp' => ?_, fun hall => hall p hres⟩
      rwa [← Except.ok.inj (hres.symm.trans hp')]

theorem exact_delete {key : Str} (hkey : '\x00' ∉ key) :
    wp (faultyDisk fails) (b.backend.perform (.delete key))
      (fun o _ _ => b.Exact fails t (.delete key) o) () t := by
  show wp _ ((b.delete key).bind fun _ => .pure Value.none) _ _ _
  unfold delete
  cases hres : b.resolve key with
  | error e =>
      obtain ⟨msg, rfl⟩ := blobError_of_resolve hkey hres
      exact iff_of_true trivial fun p hp => by rw [hres] at hp; cases hp
  | ok p =>
      have hanswer : (faultyDisk fails t (.unlink p)).1 =
          answer (fails (.unlink p)) (changed t (t.unlink p)).1 := by
        unfold faultyDisk answer
        cases fails (.unlink p) <;> rfl
      have hlooks : Looks t p (changed t (t.unlink p)).1 := by
        have hmap : (changed t (t.unlink p)).1 =
            ((t.unlink p).map fun _ => ()).mapError fileErr := by cases t.unlink p <;> rfl
        rw [hmap]
        apply looks_of_node
        rcases FileTree.unlink_cases t p with ⟨d, hd, t', ht'⟩ | h | h | h
        · exact .inl ⟨d, hd, (), by rw [ht']; rfl⟩
        · exact .inr (.inl ⟨h.1, by rw [h.2]; rfl⟩)
        · exact .inr (.inr (.inl ⟨h.1, h.2.1, by rw [h.2.2]; rfl⟩))
        · exact .inr (.inr (.inr ⟨h.1, h.2.1, by rw [h.2.2]; rfl⟩))
      rw [Program.ofExcept, bind_eq, pure_bind']
      unfold unlink
      rw [wp_call_tryCatch_bind, hanswer]
      apply wp_mono (unified_notFound (.inr rfl) hres hlooks)
      intro out s w h
      refine h.trans ⟨fun hset p' hp' => ?_, fun hall => hall p hres⟩
      rwa [← Except.ok.inj (hres.symm.trans hp')]

theorem exact_exists {key : Str} (hkey : '\x00' ∉ key) :
    wp (faultyDisk fails) (b.backend.perform (.exists' key))
      (fun o _ _ => b.Exact fails t (.exists' key) o) () t := by
  show wp _ ((b.exists' key).bind fun r => .pure (Value.bool r)) _ _ _
  rw [wp_bind]
  unfold exists'
  cases hres : b.resolve key with
  | error e =>
      obtain ⟨msg, rfl⟩ := blobError_of_resolve hkey hres
      exact iff_of_true trivial fun p hp => by rw [hres] at hp; cases hp
  | ok p =>
      rw [Program.ofExcept, bind_eq, pure_bind']
      unfold pathExists
      rw [wp_call]
      cases hfault : fails (.exists' p) with
      | some x =>
          rw [faultyDisk_some hfault]
          refine iff_of_false id fun hall => ?_
          have hnone := hall p hres
          rw [hfault] at hnone
          cases hnone
      | none =>
          rw [faultyDisk_none hfault]
          refine iff_of_true (fun k hk => by simp at hk) fun p' hp' => ?_
          rwa [← Except.ok.inj (hres.symm.trans hp')]

/-! The parts of `scan`, from the last one: each raises when one of its calls does. -/

section Scan

variable {Q : Outcome PyExc Unit → Prop}

theorem wp_scanEntries {l : List Path} {w : Disk × List Str}
    (hok : (∀ q ∈ l, fails (.isFile q) = none) → Q (.ok ()))
    (herr : ∀ e, ¬ (∀ q ∈ l, fails (.isFile q) = none) → Q (.error (.osError e))) :
    wp (collecting (faultyDisk fails)) (Program.forEach l b.scanEntry) (fun o _ _ => Q o) () w := by
  induction l generalizing w with
  | nil => exact hok (by simp)
  | cons p l ih =>
      rw [Program.forEach, wp_bind]
      rw [show b.scanEntry p = ((isFile p).embed.bind fun r =>
        if r then Program.yield (relativePosix b.root p) else .pure ()) from rfl, wp_bind, wp_embed]
      unfold isFile
      rw [wp_call]
      cases hfault : fails (.isFile p) with
      | some x =>
          rw [faultyDisk_some hfault]
          refine herr _ fun hall => ?_
          have hnone := hall p List.mem_cons_self
          rw [hfault] at hnone
          cases hnone
      | none =>
          have hrest : ∀ w, wp (collecting (faultyDisk fails)) (Program.forEach l b.scanEntry)
              (fun o _ _ => Q o) () w := by
            intro w
            apply ih
            · exact fun h => hok (List.forall_mem_cons.mpr ⟨hfault, h⟩)
            · exact fun e h => herr e fun hall => h (List.forall_mem_cons.mp hall).2
          rw [faultyDisk_none hfault, show (disk w.1 (.isFile p)).1 = .ok (w.1.isFile p) from rfl,
            raising, wp_pure, bindPost_ok]
          split
          · exact hrest _
          · exact hrest _

theorem wp_scanList {p : Path} {xs : List Str} (hok : ListFaultless fails t p → Q (.ok ()))
    (herr : ∀ e, ¬ ListFaultless fails t p → Q (.error (.osError e))) :
    wp (collecting (faultyDisk fails))
      ((rglob p).embed.bind fun ps => Program.forEach ps b.scanEntry) (fun o _ _ => Q o) ()
      (t, xs) := by
  rw [wp_bind, wp_embed]
  unfold rglob
  rw [wp_call]
  cases hrglob : fails (.rglob p) with
  | some x =>
      rw [faultyDisk_some hrglob]
      refine herr _ fun h => ?_
      have hnone := h.1
      rw [hrglob] at hnone
      cases hnone
  | none =>
      rw [faultyDisk_none hrglob, show disk t (.rglob p) = (.ok (t.below p), t) from rfl, raising,
        wp_pure, bindPost_ok]
      apply wp_scanEntries
      · exact fun h => hok ⟨hrglob, h⟩
      · exact fun e h => herr e fun hall => h hall.2

theorem wp_scanThere {p : Path} {xs : List Str} (hok : BaseFaultless fails t p → Q (.ok ()))
    (herr : ∀ e, ¬ BaseFaultless fails t p → Q (.error (.osError e))) :
    wp (collecting (faultyDisk fails))
      ((isFile p).embed.bind fun r => if r then Program.yield (relativePosix b.root p)
        else (rglob p).embed.bind fun ps => Program.forEach ps b.scanEntry)
      (fun o _ _ => Q o) () (t, xs) := by
  rw [wp_bind, wp_embed]
  unfold isFile
  rw [wp_call]
  cases hfault : fails (.isFile p) with
  | some x =>
      rw [faultyDisk_some hfault]
      refine herr _ fun h => ?_
      have hnone := h.1
      rw [hfault] at hnone
      cases hnone
  | none =>
      rw [faultyDisk_none hfault, show disk t (.isFile p) = (.ok (t.isFile p), t) from rfl, raising,
        wp_pure, bindPost_ok]
      cases hfile : t.isFile p with
      | true =>
          refine hok ⟨hfault, fun h => ?_⟩
          rw [hfile] at h
          cases h
      | false =>
          apply wp_scanList
          · exact fun h => hok ⟨hfault, fun _ => h⟩
          · exact fun e h => herr e fun hall => h (hall.2 hfile)

end Scan

theorem blobError_of_scanBase {pre : Str} {e : PyExc} (hpre : '\x00' ∉ pre)
    (h : b.scanBase pre = .error e) : ∃ msg, e = .blobError msg := by
  unfold scanBase at h
  split at h
  · cases h
  · exact blobError_of_resolve hpre h

theorem exact_scan {pre : Str} (hpre : '\x00' ∉ pre) :
    wp (faultyDisk fails) (b.backend.perform (.scan pre))
      (fun o _ _ => b.Exact fails t (.scan pre) o) () t := by
  show wp _ ((b.scan pre).collect.bind fun ks => .pure (Value.keys ks)) _ _ _
  rw [wp_bind, wp_collect]
  unfold scan
  cases hbase : b.scanBase pre with
  | error e =>
      obtain ⟨msg, rfl⟩ := blobError_of_scanBase hpre hbase
      exact iff_of_true trivial fun p hp => by rw [hbase] at hp; cases hp
  | ok p =>
      have hfaultless : b.Faultless fails t (.scan pre) ↔ fails (.exists' p) = none ∧
          (File.pathExists t p = true → BaseFaultless fails t p) := by
        refine ⟨fun h => h p hbase, fun h p' hp' => ?_⟩
        rwa [← Except.ok.inj (hbase.symm.trans hp')]
      have hraises : ∀ e : FileErr, ¬ b.Faultless fails t (.scan pre) →
          b.Exact fails t (.scan pre) (.error (.osError e)) := fun e h => iff_of_false id h
      have hends : ∀ v, b.Faultless fails t (.scan pre) → b.Exact fails t (.scan pre) (.ok v) :=
        fun v h => iff_of_true (fun k hk => by simp at hk) h
      rw [Program.ofExcept, bind_eq, pure_bind', bind_eq, wp_bind, wp_embed]
      unfold pathExists
      rw [wp_call]
      cases hexists : fails (.exists' p) with
      | some x =>
          rw [faultyDisk_some hexists]
          exact hraises _ (by simp [hfaultless, hexists])
      | none =>
          rw [faultyDisk_none hexists,
            show disk t (.exists' p) = (.ok (File.pathExists t p), t) from rfl, raising, wp_pure,
            bindPost_ok]
          cases hthere : File.pathExists t p with
          -- nothing is there: the generator returns at once
          | false =>
              refine hends _ (hfaultless.mpr ⟨hexists, fun h => ?_⟩)
              rw [hthere] at h
              cases h
          | true =>
              rw [if_neg (by decide)]
              have hstages : wp (collecting (faultyDisk fails)) ((isFile p).embed.bind fun r =>
                  if r then Program.yield (relativePosix b.root p)
                  else (rglob p).embed.bind fun ps => Program.forEach ps b.scanEntry)
                  (fun o _ _ => (o = .ok () ∧ b.Faultless fails t (.scan pre)) ∨
                    ∃ e, o = .error (.osError e) ∧ ¬ b.Faultless fails t (.scan pre)) ()
                  (t, []) := by
                apply wp_scanThere (Q := fun o => (o = .ok () ∧ b.Faultless fails t (.scan pre)) ∨
                  ∃ e, o = .error (.osError e) ∧ ¬ b.Faultless fails t (.scan pre))
                · exact fun h => .inl ⟨rfl, hfaultless.mpr ⟨hexists, fun _ => h⟩⟩
                · exact fun e h => .inr ⟨e, rfl, fun hall => h ((hfaultless.mp hall).2 hthere)⟩
              apply wp_mono hstages
              rintro o s w (⟨rfl, h⟩ | ⟨e, rfl, h⟩)
              · exact hends _ h
              · exact hraises e h

/-- The errors of a call whose key has no NUL are unified exactly when nothing raises during the
call but `FileNotFoundError` for a key that is not stored. -/
theorem unified_iff_faultless (b : FileBlob) (fails : Faults) (t : Disk) (c : Call)
    (hc : '\x00' ∉ argument c) :
    Unified (b.Stored t) c ((b.backend.perform c).run (faultyDisk fails) () t).1 ↔
      b.Faultless fails t c := by
  cases c with
  | open' => exact iff_of_true (fun k hk => by simp at hk) trivial
  | close => exact iff_of_true (fun k hk => by simp at hk) trivial
  | put key data => exact exact_put hc data
  | get key => exact exact_get hc
  | delete key => exact exact_delete hc
  | exists' key => exact exact_exists hc
  | scan pre => exact exact_scan hc

end FileBlob

end GufoBlob
