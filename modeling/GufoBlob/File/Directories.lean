import GufoBlob.File.Calls

/-!
# Directories that show through

The interface of `FileBlob` has keys and no directories, but the directories that `put` makes stay,
and three things tell them apart from nothing. Each law is proved to hold exactly where no such
directory is in the way.

* `coherent_iff` — `exists`, `get` and `scan("")` agree on a key that is no directory.
* `scansFlat_iff` — `scan` of a key with a slash at its end yields what starts with it, unless that
  key is stored.
* `undone_iff` — `delete` undoes `put` when the parent directory was there before.
-/

namespace GufoBlob

open Text Data Interaction Program File

namespace FileBlob

variable {b : FileBlob} {t : Disk} {key : Str} {p q : Path}

/-! ## What is listed -/

theorem mem_listed : key ∈ b.listed t p ↔
    ∃ q, t.isFile q = true ∧ p <+: q ∧ relativePosix b.root q = key := by
  -- a file below `p` makes `p` a directory
  have hdir : ∀ q, t.isFile q = true → p <+: q → q ≠ p → t.node p = some .dir := by
    intro q hq hpq hne
    obtain ⟨d, hd⟩ := FileTree.isFile_iff.mp hq
    exact FileTree.node_above hpq (Ne.symm hne) (by simp [hd])
  unfold listed File.pathExists
  cases hnode : t.node p with
  | none =>
      -- nothing is listed, and nothing is stored below a path that is not there
      have hno : ∀ q, t.isFile q = true → ¬ p <+: q := by
        intro q hq hpq
        have hqp : q = p := by
          by_contra hne
          simp [hdir q hq hpq hne] at hnode
        simp [hqp, FileTree.isFile, hnode] at hq
      simp
      grind
  | some n =>
      cases n with
      | file d =>
          have hfile : t.isFile p = true := FileTree.isFile_iff.mpr ⟨d, hnode⟩
          have hone : ∀ q, t.isFile q = true → p <+: q → q = p := by
            intro q hq hpq
            by_contra hne
            simp [hdir q hq hpq hne] at hnode
          simp [hfile]
          grind
      | dir =>
          have hfile : t.isFile p = false := by simp [FileTree.isFile, hnode]
          have hbelow : ∀ q, t.isFile q = true → (q ∈ t.below p ↔ p <+: q) := by
            intro q hq
            constructor
            · exact fun h => (FileTree.mem_below h).1
            · intro hpq
              apply FileTree.mem_below_of_file hq hpq
              rintro rfl
              simp [hfile] at hq
          simp [hfile]
          grind

/-- No key is listed twice: it spells the path of the file. -/
theorem nodup_listed (hroot : t.node b.root = some .dir) (hp : b.root <+: p) :
    (b.listed t p).Nodup := by
  unfold listed
  split
  · split
    · exact List.nodup_singleton _
    · apply List.Nodup.map_on _ ((FileTree.nodup_below t p).filter _)
      have hbelow : ∀ q ∈ (t.below p).filter fun q => t.isFile q, ∃ r, r ≠ [] ∧ q = b.root ++ r := by
        intro q hq
        obtain ⟨hq, hfile⟩ := List.mem_filter.mp hq
        obtain ⟨r, rfl⟩ := hp.trans (FileTree.mem_below hq).1
        refine ⟨r, ?_, rfl⟩
        rintro rfl
        simp [FileTree.isFile, hroot] at hfile
      intro q hq q' hq' heq
      obtain ⟨r, hr, rfl⟩ := hbelow q hq
      obtain ⟨r', hr', rfl⟩ := hbelow q' hq'
      rw [relativePosix_append hr, relativePosix_append hr'] at heq
      have hspells := spells_intercalate hr
      rw [heq] at hspells
      rw [hspells.unique (spells_intercalate hr')]
  · exact List.nodup_nil

/-! ## The trees of a run -/

/-- A call that changes the data of a plain key. -/
inductive PlainChange : Call → Prop where
  | put {key : Str} (data : Bytes) : PlainKey key → PlainChange (.put key data)
  | delete {key : Str} : PlainKey key → PlainChange (.delete key)

/-- The root is a directory, and no name below it has a NUL. -/
structure Rooted (b : FileBlob) (t : Disk) : Prop where
  root : t.node b.root = some .dir
  noNul : ∀ q, t.node (b.root ++ q) ≠ none → ∀ c ∈ q, '\x00' ∉ c.val

theorem EmptyRoot.rooted (h : EmptyRoot b t) : Rooted b t := by
  refine ⟨h.root, fun q hq c hc => ?_⟩
  have hne : b.root ++ q ≠ b.root := by
    intro heq
    have hnil : q = [] := by simpa using heq
    simp [hnil] at hc
  exact absurd (h.empty _ (List.prefix_append _ _) hne) hq

theorem Rooted.put (h : Rooted b t) (hkey : PlainKey key) (data : Bytes) :
    Rooted b (b.onDisk (.put key data) t).2.2 := by
  cases hp : b.resolve key with
  | error e => simpa [(onDisk_unresolved hp data).1] using h
  | ok p =>
      rcases put_cases (t := t) hp data with ⟨-, -, t', hput, ht'⟩ | ⟨-, e, hput⟩
      · rw [hput]
        obtain ⟨q, hq, rfl⟩ := spells_of_resolve hkey hp
        have hnul : ∀ c ∈ q, '\x00' ∉ c.val := by
          have hno := nul_of_resolve hkey hp
          rw [hq.nul_iff] at hno
          grind
        constructor
        · have hne : b.root ≠ b.root ++ q := by simpa using hq.ne_nil
          rw [ht', if_neg hne, h.root]
          split <;> rfl
        · -- what is new lies at the path of the key or above it
          intro r hr c hc
          rw [ht'] at hr
          split at hr
          · next heq => exact hnul c (List.append_cancel_left heq ▸ hc)
          · split at hr
            · next hpre =>
                have hrq : r <+: q :=
                  (List.prefix_append_right_inj _).mp (hpre.trans (List.dropLast_prefix _))
                exact hnul c (hrq.subset hc)
            · exact h.noNul r hr c hc
      · simpa [hput] using h

theorem Rooted.delete (h : Rooted b t) : Rooted b (b.onDisk (.delete key) t).2.2 := by
  cases hp : b.resolve key with
  | error e => simpa [(onDisk_unresolved hp []).2.2.1] using h
  | ok p =>
      rcases delete_cases (t := t) hp with ⟨hfile, t', hdelete, ht'⟩ | ⟨-, e, hdelete⟩
      · rw [hdelete]
        constructor
        · have hne : b.root ≠ p := by
            rintro rfl
            simp [FileTree.isFile, h.root] at hfile
          rw [ht', if_neg hne, h.root]
        · intro r hr
          rw [ht'] at hr
          split at hr
          · exact absurd rfl hr
          · exact h.noNul r hr
      · simpa [hdelete] using h

/-- The invariant of a run of changes. -/
theorem Rooted.run {cs : List Call} (h : Rooted b t) (hcs : ∀ c ∈ cs, PlainChange c) :
    Rooted b (b.onFiles cs t).2.2 := by
  apply runCalls_invariant (J := fun _ t => Rooted b t) _ h
  intro c hc s w hw
  cases hcs c hc with
  | put data hkey => exact hw.put hkey data
  | delete hkey => exact hw.delete

/-! ## Three ways to read a key -/

/-- `exists`, `get` and `scan("")` agree on the key, and `scan("")` yields no key twice. -/
def Coherent (b : FileBlob) (t : Disk) (key : Str) : Prop :=
  ∃ ks, (b.onDisk (.scan []) t).1 = .ok (.keys ks) ∧ ks.Nodup ∧
    ((b.onDisk (.exists' key) t).1 = .ok (.bool true) ↔
      ∃ d, (b.onDisk (.get key) t).1 = .ok (.data d)) ∧
    ((∃ d, (b.onDisk (.get key) t).1 = .ok (.data d)) ↔ key ∈ ks)

theorem run_get_iff (hp : b.resolve key = .ok p) :
    (∃ d, (b.onDisk (.get key) t).1 = .ok (.data d)) ↔ t.isFile p = true := by
  rw [run_get hp]
  rcases FileTree.read_cases t p with ⟨d, hd, hread⟩ | ⟨h, hread⟩ | ⟨h, -, hread⟩ | ⟨h, -, hread⟩
  · simp [hread, FileTree.isFile, hd]
  · simp [hread, FileTree.isFile, h]
  · simp [hread, FileTree.isFile, h]
  · simp [hread, FileTree.isFile, h]

/-- `scan("")` yields the keys of the files. -/
theorem Rooted.mem_scan (h : Rooted b t) (hkey : PlainKey key) :
    key ∈ b.listed t b.root ↔ ∃ p, b.resolve key = .ok p ∧ t.isFile p = true := by
  rw [mem_listed]
  constructor
  · rintro ⟨_, hfile, ⟨q, rfl⟩, hrel⟩
    have hq : q ≠ [] := by
      rintro rfl
      simp [FileTree.isFile, h.root] at hfile
    rw [relativePosix_append hq] at hrel
    have hspells : Spells key q := hrel ▸ spells_intercalate hq
    obtain ⟨d, hd⟩ := FileTree.isFile_iff.mp hfile
    have hnul : '\x00' ∉ key := by
      have hno := h.noNul q (by simp [hd])
      rw [hspells.nul_iff]
      grind
    exact ⟨_, resolve_plain hspells hnul, hfile⟩
  · rintro ⟨p, hp, hfile⟩
    obtain ⟨q, hq, rfl⟩ := spells_of_resolve hkey hp
    exact ⟨_, hfile, List.prefix_append _ _, relativePosix_plain hq⟩

theorem Rooted.coherent (h : Rooted b t) (hkey : PlainKey key) :
    Coherent b t key ↔ ∀ p, b.resolve key = .ok p → t.isDir p = false := by
  have hscan : b.onDisk (.scan []) t = (.ok (.keys (b.listed t b.root)), (), t) := run_scan rfl
  have hnodup := nodup_listed h.root (List.prefix_refl b.root)
  unfold Coherent
  rw [hscan]
  cases hp : b.resolve key with
  | error e =>
      -- every operation refuses the key
      have hno : key ∉ b.listed t b.root := by simp [h.mem_scan hkey, hp]
      obtain ⟨-, hget, -, hexists⟩ := onDisk_unresolved (t := t) hp []
      simp [hget, hexists, hno, hnodup]
  | ok p =>
      have hexists : (b.onDisk (.exists' key) t).1 = .ok (.bool true) ↔ t.node p ≠ none := by
        rw [run_exists hp]
        simp [File.pathExists, Option.isSome_iff_ne_none]
      have hmem : key ∈ b.listed t b.root ↔ t.isFile p = true := by
        simp [h.mem_scan hkey, hp]
      have hkind : (t.node p ≠ none ↔ t.isFile p = true) ↔ t.isDir p = false := by
        unfold FileTree.isFile FileTree.isDir
        cases t.node p with
        | none => simp
        | some n => cases n <;> simp
      rw [hexists, run_get_iff hp]
      simp [hmem, hnodup, hkind]

/-- **The read operations agree exactly on the keys that are no directories**: in every state that
`put` and `delete` calls on plain keys reach from an empty root, however they end, `exists(key)` is
`True` when `get(key)` returns data and when `scan("")` yields the key, and `scan("")` yields no key
twice, exactly when the path of the key is no directory. -/
theorem coherent_iff {b : FileBlob} {t : Disk} (h : EmptyRoot b t) {cs : List Call}
    (hcs : ∀ c ∈ cs, PlainChange c) {key : Str} (hkey : PlainKey key) :
    Coherent b (b.onFiles cs t).2.2 key ↔
      ∀ p, b.resolve key = .ok p → (b.onFiles cs t).2.2.isDir p = false :=
  (h.rooted.run hcs).coherent hkey

/-- A key in a directory that no key names. -/
theorem coherent_iff_nested :
    Coherent sample (sample.onFiles [.put ['a', '/', 'b'] [1]] sampleDisk).2.2 ['a', '/', 'b'] := by
  have hcs : ∀ c ∈ [Call.put ['a', '/', 'b'] [1]], PlainChange c := by
    intro c hc
    obtain rfl := List.mem_singleton.mp hc
    exact .put _ (by decide)
  apply (coherent_iff emptyRoot_sample hcs (by decide)).mpr
  intro p hp
  have hpath : sample.resolve ['a', '/', 'b'] =
      .ok (sample.root ++ [⟨['a'], by decide⟩, ⟨['b'], by decide⟩]) := by decide
  obtain rfl := Except.ok.inj (hpath.symm.trans hp)
  decide

/-- After `put("a/b", ...)`, `exists("a")` is `True`; there are no data under that key, and
`scan("")` does not yield it. -/
theorem not_coherent_parent :
    (sample.onFiles [.put ['a', '/', 'b'] [1], .exists' ['a'], .get ['a'], .scan []] sampleDisk).1 =
        [.ok .none, .ok (.bool true), .error (.osError .isADirectory),
          .ok (.keys [['a', '/', 'b']])] ∧
      ¬ Coherent sample (sample.onFiles [.put ['a', '/', 'b'] [1]] sampleDisk).2.2 ['a'] := by
  refine ⟨by decide, ?_⟩
  rintro ⟨ks, -, -, hexists, -⟩
  have htrue : (sample.onDisk (.exists' ['a'])
      (sample.onFiles [.put ['a', '/', 'b'] [1]] sampleDisk).2.2).1 = .ok (.bool true) := by decide
  have herror : (sample.onDisk (.get ['a'])
      (sample.onFiles [.put ['a', '/', 'b'] [1]] sampleDisk).2.2).1 =
        .error (.osError .isADirectory) := by decide
  obtain ⟨d, hd⟩ := hexists.mp htrue
  simp [herror] at hd

/-! ## Prefixes that name a directory -/

/-- The prefix is empty, or it is a plain key with a slash at its end. -/
def DirectoryPrefix (pre : Str) : Prop := pre = [] ∨ ∃ key, PlainKey key ∧ pre = key ++ ['/']

/-- `scan(pre)` yields each stored key that starts with the prefix once, and they are the keys that
`scan(pre)` of the map yields. -/
def ScansFlat (b : FileBlob) (t : Disk) (m : MemoryBlob) (pre : Str) : Prop :=
  ∃ ks ks', (b.onDisk (.scan pre) t).1 = .ok (.keys ks) ∧
    (onMemory [.scan pre] m).1 = [.ok (.keys ks')] ∧ ks.Nodup ∧ (∀ key, key ∈ ks ↔ key ∈ ks') ∧
    ∀ key, key ∈ ks ↔ PlainKey key ∧ b.Stored t key ∧ pre <+: key

/-- A key starts with another one and a slash when its path lies below. -/
theorem prefix_slash_iff {key key' : Str} {q q' : Path} (h : Spells key q) (h' : Spells key' q') :
    key ++ ['/'] <+: key' ↔ q <+: q' ∧ q ≠ q' := by
  have hnames : ∀ rest, names (key ++ '/' :: rest) = q.map Subtype.val ++ names rest := by
    intro rest
    rw [h]
    exact List.splitOn_append_cons_self key rest
  constructor
  · rintro ⟨rest, rfl⟩
    rw [List.append_assoc] at h'
    have hval : q'.map Subtype.val = q.map Subtype.val ++ names rest := h'.trans (hnames rest)
    refine ⟨prefix_map_val_iff.mp ⟨_, hval.symm⟩, ?_⟩
    rintro rfl
    have hnil : names rest = [] := by simpa using hval
    exact List.splitOn_ne_nil '/' rest hnil
  · rintro ⟨⟨r, rfl⟩, hne⟩
    have hr : r ≠ [] := fun hnil => hne (by simp [hnil])
    have hspells : Spells (key ++ '/' :: ['/'].intercalate (r.map Subtype.val)) (q ++ r) := by
      unfold Spells
      rw [hnames, List.map_append, ← spells_intercalate hr]
    rw [h'.injective hspells]
    exact ⟨['/'].intercalate (r.map Subtype.val), by simp⟩

section Keyed

variable {m : MemoryBlob}

/-- A change of a plain key that succeeds is an operation on a key that is apart. -/
theorem apart_of_success (hm : ∀ k ∈ m.data, PlainKey k) {c : Call}
    (hc : PlainChange c) (hok : (b.onDisk c t).1 = .ok .none) :
    ∃ key p, KeyCall key c ∧ Apart b t m key p := by
  cases hc with
  | @put key data hkey =>
      cases hp : b.resolve key with
      | error e => simp [(onDisk_unresolved hp data).1] at hok
      | ok p =>
          rcases put_cases (t := t) hp data with ⟨hdir, habove, -⟩ | ⟨-, e, hput⟩
          · refine ⟨key, p, .put data, hp, hdir, habove, fun k hkm hres => ?_⟩
            exact resolve_injective (hm k hkm) hkey hres hp
          · simp [hput] at hok
  | @delete key hkey =>
      cases hp : b.resolve key with
      | error e => simp [(onDisk_unresolved hp []).2.2.1] at hok
      | ok p =>
          rcases delete_cases (t := t) hp with ⟨hfile, -⟩ | ⟨-, e, hdelete⟩
          · obtain ⟨hdir, habove⟩ := FileTree.clear_of_file hfile
            refine ⟨key, p, .delete, hp, hdir, habove, fun k hkm hres => ?_⟩
            exact resolve_injective (hm k hkm) hkey hres hp
          · simp [hdelete] at hok

/-- The keys of the map are those of the calls. -/
theorem plain_effect (hm : ∀ k ∈ m.data, PlainKey k) {c : Call} (hc : PlainChange c) :
    ∀ k ∈ (MemoryBlob.effect c m).2.data, PlainKey k := by
  intro k hk
  rcases MemoryBlob.mem_effect hk with hk | ⟨data, rfl⟩
  · exact hm k hk
  · cases hc
    assumption

/-- A run of successful changes keeps the tree and the map alike. -/
theorem Keyed.run_plain {cs : List Call} (hk : Keyed b t m) (hm : ∀ k ∈ m.data, PlainKey k)
    (hcs : ∀ c ∈ cs, PlainChange c) (hok : ∀ o ∈ (b.onFiles cs t).1, o = .ok .none) :
    Keyed b (b.onFiles cs t).2.2 (onMemory cs m).2.1 ∧
      ∀ k ∈ (onMemory cs m).2.1.data, PlainKey k := by
  -- on the calls, for all trees and maps that are alike
  induction cs generalizing t m with
  | nil => exact ⟨hk, hm⟩
  | cons c cs ih =>
      obtain ⟨hc, hrest⟩ := List.forall_mem_cons.mp hcs
      have hfirst : (b.onDisk c t).1 = .ok .none := by
        apply hok
        unfold onFiles
        by_cases hspun : (b.onDisk c t).1 = .spun
        · rw [runCalls_cons_of_spun cs hspun, hspun]
          exact List.mem_singleton_self _
        · rw [runCalls_cons_of_ne hspun]
          exact List.mem_cons_self
      obtain ⟨key, p, hcall, hp⟩ := apart_of_success hm hc hfirst
      obtain ⟨t', hrun, hk'⟩ := hk.step hp hcall
      have hne : (b.onDisk c t).1 ≠ .spun := by
        rw [hfirst]
        simp
      have hcons := b.onFiles_cons hne cs
      rw [hrun] at hcons
      rw [hcons] at hok ⊢
      rw [onMemory_cons]
      exact ih hk' (plain_effect hm hc) hrest (List.forall_mem_cons.mp hok).2

/-- What is stored in the tree is what is stored in the map. -/
theorem Keyed.stored_iff (hk : Keyed b t m) (hm : ∀ k ∈ m.data, PlainKey k) (hkey : PlainKey key) :
    b.Stored t key ↔ key ∈ m.data := by
  constructor
  · rintro ⟨p, hp, hfile⟩
    obtain ⟨d, hd⟩ := FileTree.isFile_iff.mp hfile
    obtain ⟨k, hres, hkd⟩ := hk.files p d (root_prefix_of_resolve hp) hd
    rw [resolve_injective hkey (hm k (mem_of_get? hkd)) hp hres]
    exact mem_of_get? hkd
  · intro hkm
    obtain ⟨d, hd⟩ := exists_of_mem hkm
    obtain ⟨p, hp, hfile⟩ := hk.stored key d hd
    exact ⟨p, hp, FileTree.isFile_iff.mpr ⟨d, hfile⟩⟩

/-- `scan` yields the stored keys whose paths lie at or below its base. -/
theorem Keyed.mem_scan (hk : Keyed b t m) (hm : ∀ k ∈ m.data, PlainKey k) (hp : b.root <+: p) :
    key ∈ b.listed t p ↔ ∃ q, Spells key q ∧ key ∈ m.data ∧ p <+: b.root ++ q := by
  rw [mem_listed]
  constructor
  · rintro ⟨r, hfile, hpr, hrel⟩
    obtain ⟨d, hd⟩ := FileTree.isFile_iff.mp hfile
    obtain ⟨k, hres, hkd⟩ := hk.files r d (hp.trans hpr) hd
    obtain ⟨q, hq, rfl⟩ := spells_of_resolve (hm k (mem_of_get? hkd)) hres
    rw [relativePosix_plain hq] at hrel
    subst hrel
    exact ⟨q, hq, mem_of_get? hkd, hpr⟩
  · rintro ⟨q, hq, hkm, hpq⟩
    obtain ⟨d, hd⟩ := exists_of_mem hkm
    obtain ⟨r, hres, hfile⟩ := hk.stored key d hd
    obtain ⟨q', hq', rfl⟩ := spells_of_resolve hq.plain hres
    rw [hq.unique hq'] at hpq
    exact ⟨_, FileTree.isFile_iff.mpr ⟨d, hfile⟩, hpq, relativePosix_plain hq'⟩

theorem onMemory_scan (pre : Str) : (onMemory [.scan pre] m).1 =
    [.ok (.keys (m.data.keys.filter fun k => pre.isPrefixOf k))] := by
  rw [onMemory_cons]
  rfl

/-- Keys that the base of a prefix lists and the prefix selects are scanned as the map scans them. -/
theorem Keyed.scansFlat (hk : Keyed b t m) (hm : ∀ k ∈ m.data, PlainKey k) {pre : Str}
    (hp : b.scanBase pre = .ok p) (hroot : b.root <+: p) :
    ScansFlat b t m pre ↔
      ∀ key q, Spells key q → key ∈ m.data → (p <+: b.root ++ q ↔ pre <+: key) := by
  have hnodup := nodup_listed hk.root hroot
  -- What the map scans and what is stored are the same keys.
  have hmap : ∀ key, key ∈ m.data.keys.filter (fun k => pre.isPrefixOf k) ↔
      key ∈ m.data ∧ pre <+: key := by
    intro key
    rw [List.mem_filter, List.isPrefixOf_iff_prefix]
    rfl
  have hstored : ∀ key, PlainKey key ∧ b.Stored t key ∧ pre <+: key ↔ key ∈ m.data ∧ pre <+: key := by
    intro key
    constructor
    · rintro ⟨hkey, hst, hpre⟩
      exact ⟨(hk.stored_iff hm hkey).mp hst, hpre⟩
    · rintro ⟨hkm, hpre⟩
      exact ⟨hm key hkm, (hk.stored_iff hm (hm key hkm)).mpr hkm, hpre⟩
  unfold ScansFlat
  rw [run_scan hp, onMemory_scan]
  constructor
  · rintro ⟨ks, ks', hks, -, -, -, hflat⟩ key q hq hkm
    obtain rfl : b.listed t p = ks := by simpa using hks
    have hkey := hflat key
    rw [hstored, hk.mem_scan hm hroot] at hkey
    constructor
    · exact fun hpq => (hkey.mp ⟨q, hq, hkm, hpq⟩).2
    · intro hpre
      obtain ⟨q', hq', -, hpq⟩ := hkey.mpr ⟨hkm, hpre⟩
      rwa [hq.unique hq']
  · intro hbase
    -- The base lists the keys whose path it is above, which are those that the prefix selects.
    have hlisted : ∀ key, key ∈ b.listed t p ↔ key ∈ m.data ∧ pre <+: key := by
      intro key
      rw [hk.mem_scan hm hroot]
      constructor
      · rintro ⟨q, hq, hkm, hpq⟩
        exact ⟨hkm, (hbase key q hq hkm).mp hpq⟩
      · rintro ⟨hkm, hpre⟩
        obtain ⟨q, hq⟩ := (hm key hkm).spells
        exact ⟨q, hq, hkm, (hbase key q hq hkm).mpr hpre⟩
    refine ⟨_, _, rfl, rfl, hnodup, fun key => ?_, fun key => ?_⟩
    · rw [hlisted, hmap]
    · rw [hlisted, hstored]

end Keyed

/-- The base of a plain key with a slash at its end is the path of the key. -/
theorem scanBase_slash {key : Str} (hkey : PlainKey key) :
    b.scanBase (key ++ ['/']) = b.resolve key := by
  obtain ⟨q, hq⟩ := hkey.spells
  have hhead : key ++ ['/'] ≠ [] ∧ (key ++ ['/']).head? ≠ some '/' := by
    obtain ⟨hne, hhead⟩ := hkey.head
    simpa [List.head?_append_of_ne_nil _ hne] using hhead
  have hempty : (key ++ ['/']).isEmpty = false := by simp
  unfold scanBase
  rw [hempty, if_neg Bool.false_ne_true]
  by_cases hnul : '\x00' ∈ key
  · rw [resolve_nul hkey hnul]
    unfold resolve
    rw [if_neg (by rw [hempty]; simpa using hhead.2)]
    simp [File.resolve, hnul, Bind.bind, Except.bind]
  · have hparts : parts (key ++ ['/']) = q.map Subtype.val := by
      rw [← hq.parts]
      unfold parts names
      rw [List.splitOn_append_cons_self]
      simp
    rw [resolve_plain hq hnul]
    exact resolve_of_parts hhead (by simp [hnul]) hparts

/-- **`scan` of a directory agrees with the map unless the key itself is stored**: after successful
`put` and `delete` calls on plain keys from an empty root, `scan` of the empty prefix, or of a plain
key with a slash at its end, yields exactly the stored keys that start with the prefix, each once and
as the `MemoryBlob` does after the same calls, exactly when that key has no NUL and is not stored. -/
theorem scansFlat_iff {b : FileBlob} {t : Disk} (h : EmptyRoot b t) {cs : List Call}
    (hcs : ∀ c ∈ cs, PlainChange c) (hok : ∀ o ∈ (b.onFiles cs t).1, o = .ok .none) {pre : Str}
    (hpre : DirectoryPrefix pre) :
    ScansFlat b (b.onFiles cs t).2.2 (onMemory cs unlimited).2.1 pre ↔
      ∀ key, pre = key ++ ['/'] → '\x00' ∉ key ∧ ¬ b.Stored (b.onFiles cs t).2.2 key := by
  have hempty : ∀ k ∈ unlimited.data, PlainKey k := fun k hk => absurd hk List.not_mem_nil
  obtain ⟨hk, hm⟩ := h.keyed.run_plain hempty hcs hok
  rcases hpre with rfl | ⟨key, hkey, rfl⟩
  · rw [hk.scansFlat hm rfl (List.prefix_refl _)]
    simp
  · have hone : (∀ k, key ++ ['/'] = k ++ ['/'] → '\x00' ∉ k ∧ ¬ b.Stored (b.onFiles cs t).2.2 k) ↔
        '\x00' ∉ key ∧ ¬ b.Stored (b.onFiles cs t).2.2 key := by simp
    rw [hone, hk.stored_iff hm hkey]
    have hbase : b.scanBase (key ++ ['/']) = b.resolve key := scanBase_slash hkey
    by_cases hnul : '\x00' ∈ key
    · -- the prefix is refused
      rw [resolve_nul hkey hnul] at hbase
      refine iff_of_false ?_ (by simp [hnul])
      rintro ⟨ks, ks', hks, -⟩
      have hraises : (b.onDisk (.scan (key ++ ['/'])) (b.onFiles cs t).2.2).1 =
          .error (.valueError "embedded null byte") := by
        show (Program.run disk ((b.scan (key ++ ['/'])).collect.bind _) () _).1 = _
        unfold scan
        rw [hbase]
        rfl
      simp [hraises] at hks
    · obtain ⟨q, hq⟩ := hkey.spells
      rw [resolve_plain hq hnul] at hbase
      rw [hk.scansFlat hm hbase (List.prefix_append _ _)]
      simp only [hnul, not_false_eq_true, true_and, List.prefix_append_right_inj]
      -- The key is below itself, but the prefix ends with a slash and does not select it.
      constructor
      · intro hall hkm
        have hself := (prefix_slash_iff hq hq).mp ((hall key q hq hkm).mp (List.prefix_refl q))
        exact hself.2 rfl
      · intro hno k r hr hkm
        rw [prefix_slash_iff hq hr]
        refine ⟨fun hqr => ⟨hqr, ?_⟩, fun hqr => hqr.1⟩
        rintro rfl
        exact hno (hq.injective hr ▸ hkm)

/-- The directory `a`, in which `b` is stored. -/
theorem scansFlat_iff_nested :
    ScansFlat sample (sample.onFiles [.put ['a', '/', 'b'] [1]] sampleDisk).2.2
      (onMemory [.put ['a', '/', 'b'] [1]] unlimited).2.1 ['a', '/'] := by
  have hcs : ∀ c ∈ [Call.put ['a', '/', 'b'] [1]], PlainChange c := by
    intro c hc
    obtain rfl := List.mem_singleton.mp hc
    exact .put _ (by decide)
  have hok : ∀ o ∈ (sample.onFiles [.put ['a', '/', 'b'] [1]] sampleDisk).1, o = .ok .none := by
    decide
  apply (scansFlat_iff emptyRoot_sample hcs hok (.inr ⟨['a'], by decide, rfl⟩)).mpr
  intro key hkey
  obtain rfl : key = ['a'] := List.append_cancel_right hkey.symm
  refine ⟨by decide, ?_⟩
  rintro ⟨p, hp, hfile⟩
  have hpath : sample.resolve ['a'] = .ok (sample.root ++ [⟨['a'], by decide⟩]) := by decide
  obtain rfl := Except.ok.inj (hpath.symm.trans hp)
  exact absurd hfile (by decide)

/-- With the file `a` stored, `scan("a/")` yields `a`; the map yields nothing. -/
theorem not_scansFlat_file :
    (sample.onFiles [.put ['a'] [1], .scan ['a', '/']] sampleDisk).1 =
        [.ok .none, .ok (.keys [['a']])] ∧
      (onMemory [.put ['a'] [1], .scan ['a', '/']] unlimited).1 = [.ok .none, .ok (.keys [])] ∧
      ¬ ScansFlat sample (sample.onFiles [.put ['a'] [1]] sampleDisk).2.2
        (onMemory [.put ['a'] [1]] unlimited).2.1 ['a', '/'] := by
  refine ⟨by decide, by decide, ?_⟩
  rintro ⟨ks, ks', hks, hks', -, hsame, -⟩
  have hfile : (sample.onDisk (.scan ['a', '/'])
      (sample.onFiles [.put ['a'] [1]] sampleDisk).2.2).1 = .ok (.keys [['a']]) := by decide
  have hmap : (onMemory [.scan ['a', '/']] (onMemory [.put ['a'] [1]] unlimited).2.1).1 =
      [.ok (.keys [])] := by decide
  obtain rfl : [['a']] = ks := by simpa [hfile] using hks
  obtain rfl : [] = ks' := by simpa [hmap] using hks'
  simpa using hsame ['a']

/-! ## Taking a key back -/

/-- After `put` and `delete` of the key, every sequence of calls gives what it would have given
without the two. -/
def Undone (b : FileBlob) (t : Disk) (key : Str) (data : Bytes) : Prop :=
  ∀ cs : List Call,
    (b.onFiles cs (b.onDisk (.delete key) (b.onDisk (.put key data) t).2.2).2.2).1 =
      (b.onFiles cs t).1

/-- Where the parent directory is there, `put` and `delete` of a new key leave the tree as it is. -/
theorem run_put_delete (hp : b.resolve key = .ok p) (hparent : t.isDir p.dropLast = true)
    (hnew : t.node p = none) (habove : t.fileAbove p = false) (data : Bytes) :
    (b.onDisk (.delete key) (b.onDisk (.put key data) t).2.2).2.2 = t := by
  have hmade := mkdir_of_dir (FileTree.isDir_iff.mp hparent)
  have hdir : t.isDir p = false := by simp [FileTree.isDir, hnew]
  obtain ⟨-, t', hwrite, -⟩ := mkdir_write hdir habove data
  have hput : b.onDisk (.put key data) t = (.ok .none, (), t') := by
    rw [run_put_eq hp, hwrite, hmade]
  rw [hmade] at hwrite
  have hdelete : b.onDisk (.delete key) t' = (.ok .none, (), t) := by
    rw [run_delete hp, FileTree.unlink_write hnew hwrite]
  rw [hput, hdelete]

/-- Where it is not, `put` makes a directory that `delete` leaves. -/
theorem dir_after_put_delete (hp : b.resolve key = .ok p) (hdir : t.isDir p = false)
    (habove : t.fileAbove p = false) (data : Bytes) :
    (b.onDisk (.delete key) (b.onDisk (.put key data) t).2.2).2.2.node p.dropLast = some .dir := by
  have hpne : p ≠ [] := by
    rintro rfl
    simp [FileTree.isDir] at hdir
  have hshort : p.dropLast ≠ p := by
    intro heq
    have hlen := congrArg List.length heq
    have := List.length_pos_of_ne_nil hpne
    rw [List.length_dropLast] at hlen
    omega
  -- `put` makes the parent, and neither outcome of `delete` removes it.
  rcases put_cases (t := t) hp data with ⟨-, -, t', hput, ht'⟩ | ⟨hor, -⟩
  · have hmade : t'.node p.dropLast = some .dir := by
      rw [ht', if_neg hshort, if_pos (List.prefix_refl _)]
    rw [hput]
    rcases delete_cases (t := t') hp with ⟨-, t'', hdelete, ht''⟩ | ⟨-, e, hdelete⟩
    · rw [hdelete]
      show t''.node p.dropLast = _
      rw [ht'', if_neg hshort, hmade]
    · rw [hdelete]
      exact hmade
  · simp [hdir, habove] at hor

/-- A `put` that is undone made no directory: the parent has a key, and `exists` sees it. -/
theorem Rooted.dir_of_undone (h : Rooted b t) (hkey : PlainKey key) {data : Bytes}
    (hp : b.resolve key = .ok p) (hdir : t.isDir p = false) (habove : t.fileAbove p = false)
    (hundone : Undone b t key data) : t.isDir p.dropLast = true := by
  by_contra hno
  obtain ⟨q, hq, rfl⟩ := spells_of_resolve hkey hp
  have hnul := nul_of_resolve hkey hp
  have hdrop : (b.root ++ q).dropLast = b.root ++ q.dropLast :=
    List.dropLast_append_of_ne_nil hq.ne_nil
  have hparent : q.dropLast ≠ [] := by
    intro hnil
    rw [hdrop, hnil, List.append_nil] at hno
    exact hno (FileTree.isDir_iff.mpr h.root)
  have hspells := spells_intercalate hparent
  have hclean : '\x00' ∉ ['/'].intercalate (q.dropLast.map Subtype.val) := by
    rw [hspells.nul_iff]
    rintro ⟨c, hc, hc'⟩
    exact hnul (hq.nul_iff.mpr ⟨c, (List.dropLast_sublist q).subset hc, hc'⟩)
  have hres := resolve_plain (b := b) hspells hclean
  rw [← hdrop] at hres
  -- The parent is not there before, and is there after the two calls.
  have habsent : t.node (b.root ++ q).dropLast = none := by
    rcases (clear_parent habove).node with hd | hn
    · exact absurd (FileTree.isDir_iff.mpr hd) hno
    · exact hn
  have hthere := dir_after_put_delete hp hdir habove data
  have hsame := hundone [.exists' (['/'].intercalate (q.dropLast.map Subtype.val))]
  unfold onFiles at hsame
  rw [runCalls_singleton, runCalls_singleton] at hsame
  replace hsame := List.singleton_inj.mp hsame
  have hbefore := run_exists (t := t) hres
  have hafter := run_exists hres
    (t := (b.onDisk (.delete key) (b.onDisk (.put key data) t).2.2).2.2)
  rw [show (Program.run disk _ () _).1 = _ from congrArg Prod.fst hafter,
    show (Program.run disk _ () t).1 = _ from congrArg Prod.fst hbefore] at hsame
  simp [File.pathExists, hthere, habsent] at hsame

theorem Rooted.undone (h : Rooted b t) (hkey : PlainKey key) {data : Bytes}
    (hnew : ¬ b.Stored t key) (hput : (b.onDisk (.put key data) t).1 = .ok .none) :
    Undone b t key data ↔ ∀ p, b.resolve key = .ok p → t.isDir p.dropLast = true := by
  cases hp : b.resolve key with
  | error e => simp [(onDisk_unresolved hp data).1] at hput
  | ok p =>
      have hone : (∀ r, .ok p = (.ok r : Except PyExc Path) → t.isDir r.dropLast = true) ↔
          t.isDir p.dropLast = true := by simp
      rw [hone]
      rcases put_cases (t := t) hp data with ⟨hdir, habove, -⟩ | ⟨-, e, herr⟩
      · -- The key is not stored and its path is no directory, so nothing is there.
        have hnone : t.node p = none := by
          cases hnode : t.node p with
          | none => rfl
          | some n =>
              cases n with
              | dir => simp [FileTree.isDir, hnode] at hdir
              | file d => exact absurd ⟨p, hp, FileTree.isFile_iff.mpr ⟨d, hnode⟩⟩ hnew
        constructor
        · exact h.dir_of_undone hkey hp hdir habove
        · intro hparent cs
          rw [run_put_delete hp hparent hnone habove]
      · simp [herr] at hput

/-- **`delete` undoes `put` exactly where the parent directory was there**: in every state that `put`
and `delete` calls on plain keys reach from an empty root, for every plain key that is not stored and
a `put` of it that succeeds, every sequence of calls after a following `delete` gives the results that
it would have given without the two exactly when the parent of the path of the key was a directory
before. -/
theorem undone_iff {b : FileBlob} {t : Disk} (h : EmptyRoot b t) {cs : List Call}
    (hcs : ∀ c ∈ cs, PlainChange c) {key : Str} (hkey : PlainKey key) {data : Bytes}
    (hnew : ¬ b.Stored (b.onFiles cs t).2.2 key)
    (hput : (b.onDisk (.put key data) (b.onFiles cs t).2.2).1 = .ok .none) :
    Undone b (b.onFiles cs t).2.2 key data ↔
      ∀ p, b.resolve key = .ok p → (b.onFiles cs t).2.2.isDir p.dropLast = true :=
  (h.rooted.run hcs).undone hkey hnew hput

/-- A key without a slash lies in the root. -/
theorem undone_iff_flat : Undone sample (sample.onFiles [] sampleDisk).2.2 ['a'] [1] := by
  have hpath : sample.resolve ['a'] = .ok (sample.root ++ [⟨['a'], by decide⟩]) := by decide
  have hnew : ¬ sample.Stored (sample.onFiles [] sampleDisk).2.2 ['a'] := by
    rintro ⟨p, hp, hfile⟩
    obtain rfl := Except.ok.inj (hpath.symm.trans hp)
    exact absurd hfile (by decide)
  have hcs : ∀ c ∈ ([] : List Call), PlainChange c := by simp
  apply (undone_iff emptyRoot_sample hcs (by decide) hnew (by decide)).mpr
  intro p hp
  obtain rfl := Except.ok.inj (hpath.symm.trans hp)
  decide

/-- After `put("a/b", ...)` and `delete("a/b")` the directory `a` is left: `exists("a")` is `True`
and `put("a", ...)` fails. -/
theorem not_undone_nested :
    (sample.onFiles [.exists' ['a'], .put ['a'] [2]] sampleDisk).1 =
        [.ok (.bool false), .ok .none] ∧
      (sample.onFiles [.put ['a', '/', 'b'] [1], .delete ['a', '/', 'b'], .exists' ['a'],
          .put ['a'] [2]] sampleDisk).1 =
        [.ok .none, .ok .none, .ok (.bool true), .error (.osError .isADirectory)] ∧
      ¬ Undone sample (sample.onFiles [] sampleDisk).2.2 ['a', '/', 'b'] [1] := by
  refine ⟨by decide, by decide, fun hundone => ?_⟩
  exact absurd (hundone [.exists' ['a']]) (by decide)

end FileBlob

end GufoBlob
