import GufoBlob.File.Directories
import GufoBlob.Memory.Flat

/-!
# The file backend as a flat store

A set of keys that were chosen with care: names with single slashes between them, no NUL, and no key
below another one (`KeySet`). A `FileBlob` that is used with these keys only is a flat store, without
any failure, and `scan` of a directory lists the keys in it. What has to be known of the tree is that
its directories lie above the keys (`Tidy`).
-/

namespace GufoBlob

open Text Data Interaction Program File FlatStore

namespace FileBlob

variable {b : FileBlob} {t t' : Disk} {m : MemoryBlob} {U : Str → Prop} {key : Str} {p q : Path}

/-- Keys that do not get into each other's way. -/
structure KeySet (U : Str → Prop) : Prop where
  plain : ∀ key, U key → PlainKey key
  noNul : ∀ key, U key → '\x00' ∉ key
  free : ∀ key key', U key → U key' → names key <+: names key' → key = key'

theorem KeySet.path (hU : KeySet U) (hkey : U key) :
    ∃ q, Spells key q ∧ b.resolve key = .ok (b.root ++ q) := by
  obtain ⟨q, hq⟩ := (hU.plain key hkey).spells
  exact ⟨q, hq, resolve_plain hq (hU.noNul key hkey)⟩

/-- The same of their paths. -/
theorem KeySet.eq_of_prefix (hU : KeySet U) {key' : Str} {q' : Path} (hkey : U key)
    (hkey' : U key') (hq : Spells key q) (hq' : Spells key' q') (h : q <+: q') : key = key' := by
  apply hU.free key key' hkey hkey'
  rw [← hq, ← hq']
  exact h.map Subtype.val

/-- The keys `a` and `d/a`. -/
def carefulKeys (key : Str) : Prop := key = ['a'] ∨ key = ['d', '/', 'a']

theorem keySet_careful : KeySet carefulKeys where
  plain := by rintro key (rfl | rfl) <;> decide
  noNul := by rintro key (rfl | rfl) <;> decide
  free := by rintro key key' (rfl | rfl) (rfl | rfl) <;> decide

/-- Every directory below the root lies above the path of a key. -/
def Tidy (b : FileBlob) (t : Disk) (U : Str → Prop) : Prop :=
  ∀ p, b.root <+: p → p ≠ b.root → t.node p = some .dir →
    ∃ key q, U key ∧ Spells key q ∧ p <+: b.root ++ q ∧ p ≠ b.root ++ q

/-- The tree holds what the map holds, under keys of the set. -/
structure Stores (b : FileBlob) (U : Str → Prop) (t : Disk) (m : MemoryBlob) : Prop where
  keyed : Keyed b t m
  keys : ∀ key ∈ m.data, U key
  tidy : Tidy b t U

/-- A key of the set is always apart. -/
theorem Stores.apart (hs : Stores b U t m) (hU : KeySet U) (hkey : U key) (hq : Spells key q) :
    Apart b t m key (b.root ++ q) where
  resolves := resolve_plain hq (hU.noNul key hkey)
  notDir := by
    rw [Bool.eq_false_iff]
    intro hdir
    have hne : b.root ++ q ≠ b.root := by simpa using hq.ne_nil
    obtain ⟨key', q', hkey', hq', hpre, hno⟩ :=
      hs.tidy _ (List.prefix_append _ _) hne (FileTree.isDir_iff.mp hdir)
    have hqq := (List.prefix_append_right_inj b.root).mp hpre
    obtain rfl := hU.eq_of_prefix hkey hkey' hq hq' hqq
    exact hno (by rw [hq.unique hq'])
  noneAbove := by
    rw [Bool.eq_false_iff]
    intro habove
    obtain ⟨r, hrp, hne, hfile⟩ := FileTree.fileAbove_iff.mp habove
    obtain ⟨d, hd⟩ := FileTree.isFile_iff.mp hfile
    -- the root is a directory, and so the file is below it
    rcases List.prefix_or_prefix_of_prefix hrp (List.prefix_append b.root q) with hr | hr
    · by_cases hroot : r = b.root
      · rw [hroot, hs.keyed.root] at hd
        cases hd
      · rw [FileTree.node_above hr hroot (by simp [hs.keyed.root])] at hd
        cases hd
    · obtain ⟨key', hres, hd'⟩ := hs.keyed.files r d hr hd
      have hkey' := hs.keys key' (mem_of_get? hd')
      obtain ⟨q', hq', rfl⟩ := spells_of_resolve (hU.plain key' hkey') hres
      have hqq := (List.prefix_append_right_inj b.root).mp hrp
      obtain rfl := hU.eq_of_prefix hkey' hkey hq' hq hqq
      exact hne (by rw [hq.unique hq'])
  own k hk hres :=
    resolve_injective (hU.plain k (hs.keys k hk)) (hU.plain key hkey) hres
      (resolve_plain hq (hU.noNul key hkey))

theorem Tidy.put (ht : Tidy b t U) (hkey : U key) (hq : Spells key q) {data : Bytes}
    (ht' : ∀ r, t'.node r = if r = b.root ++ q then some (.file data)
      else if r <+: (b.root ++ q).dropLast then some .dir else t.node r) : Tidy b t' U := by
  intro p hp hne hdir
  rw [ht' p] at hdir
  split at hdir
  · cases hdir
  · next hnot =>
      split at hdir
      · next hpre => exact ⟨key, q, hkey, hq, hpre.trans (List.dropLast_prefix _), hnot⟩
      · exact ht p hp hne hdir

theorem Tidy.delete (ht : Tidy b t U) {r : Path}
    (ht' : ∀ q, t'.node q = if q = r then none else t.node q) : Tidy b t' U := by
  intro p hp hne hdir
  rw [ht' p] at hdir
  split at hdir
  · cases hdir
  · exact ht p hp hne hdir

/-! ## One call -/

/-- Calls on keys of the set; and `scan` of the whole blob, or of a directory that is no key. -/
inductive Careful (U : Str → Prop) : Call → Prop where
  | open' : Careful U .open'
  | close : Careful U .close
  | put {key : Str} (data : Bytes) : U key → Careful U (.put key data)
  | get {key : Str} : U key → Careful U (.get key)
  | delete {key : Str} : U key → Careful U (.delete key)
  | exists' {key : Str} : U key → Careful U (.exists' key)
  | scan : Careful U (.scan [])
  | scanDir {key : Str} : PlainKey key → '\x00' ∉ key → ¬ U key → Careful U (.scan (key ++ ['/']))

/-- The keys that `scan` lists are the stored keys with the prefix. -/
theorem Stores.mem_listed (hs : Stores b U t m) (hU : KeySet U) {pre : Str}
    (hc : Careful U (.scan pre)) : ∃ p, b.scanBase pre = .ok p ∧ b.root <+: p ∧
      ∀ key, key ∈ b.listed t p ↔ key ∈ m.data ∧ pre <+: key := by
  have hm : ∀ k ∈ m.data, PlainKey k := fun k hk => hU.plain k (hs.keys k hk)
  cases hc with
  | scan =>
      refine ⟨b.root, rfl, List.prefix_rfl, fun key => ?_⟩
      rw [hs.keyed.mem_scan hm List.prefix_rfl]
      constructor
      · rintro ⟨q, -, hkm, -⟩
        exact ⟨hkm, List.nil_prefix⟩
      · rintro ⟨hkm, -⟩
        obtain ⟨q, hq⟩ := (hm key hkm).spells
        exact ⟨q, hq, hkm, List.prefix_append _ _⟩
  | @scanDir dir hplain hnul hno =>
      obtain ⟨r, hr⟩ := hplain.spells
      refine ⟨b.root ++ r, (scanBase_slash hplain).trans (resolve_plain hr hnul),
        List.prefix_append _ _, fun key => ?_⟩
      rw [hs.keyed.mem_scan hm (List.prefix_append _ _)]
      constructor
      · rintro ⟨q, hq, hkm, hpre⟩
        have hrq := (List.prefix_append_right_inj b.root).mp hpre
        refine ⟨hkm, (prefix_slash_iff hr hq).mpr ⟨hrq, ?_⟩⟩
        rintro rfl
        exact hno (hr.injective hq ▸ hs.keys key hkm)
      · rintro ⟨hkm, hpre⟩
        obtain ⟨q, hq⟩ := (hm key hkm).spells
        have hrq := ((prefix_slash_iff hr hq).mp hpre).1
        exact ⟨q, hq, hkm, (List.prefix_append_right_inj b.root).mpr hrq⟩

/-- A careful call does what the flat store does, and keeps the tree tidy. -/
theorem Stores.step (hs : Stores b U t m) (hU : KeySet U) {c : Call} (hc : Careful U c) :
    ∃ o t' m', b.onDisk c t = (o, (), t') ∧ spec noFailures c m.data.get? o m'.data.get? ∧
      Stores b U t' m' := by
  have hspec : ∀ c, spec noFailures c m.data.get? (MemoryBlob.effect c m).1
      (MemoryBlob.effect c m).2.data.get? := by
    intro c
    obtain ⟨hresponds, hcontents⟩ := MemoryBlob.spec_effect m c
    refine ⟨.inl (hresponds.resolve_right ?_), hcontents⟩
    rintro ⟨e, -, hlimit, -⟩
    simp [hs.keyed.unlimited] at hlimit
  have hkeys : ∀ {c}, Careful U c → ∀ k ∈ (MemoryBlob.effect c m).2.data, U k := by
    intro c hc k hk
    rcases MemoryBlob.mem_effect hk with hk | ⟨data, rfl⟩
    · exact hs.keys k hk
    · cases hc with
      | put data hkey => exact hkey
  have hstep : ∀ {key c}, Careful U c → KeyCall key c → U key →
      (∀ o t', b.onDisk c t = (o, (), t') → Tidy b t' U) → ∃ o t' m', b.onDisk c t = (o, (), t') ∧
        spec noFailures c m.data.get? o m'.data.get? ∧ Stores b U t' m' := by
    intro key c hc hcall hkey htidy
    obtain ⟨q, hq, -⟩ := hU.path (b := b) hkey
    obtain ⟨t', hrun, hkeyed⟩ := hs.keyed.step (hs.apart hU hkey hq) hcall
    exact ⟨_, t', _, hrun, hspec c, hkeyed, hkeys hc, htidy _ t' hrun⟩
  cases hc with
  | open' => exact ⟨_, t, m, rfl, hspec .open', hs⟩
  | close => exact ⟨_, t, m, rfl, hspec .close, hs⟩
  | @put key data hkey =>
      refine hstep (.put data hkey) (.put data) hkey fun o t' hrun => ?_
      obtain ⟨q, hq, hres⟩ := hU.path (b := b) hkey
      rcases put_cases (t := t) hres data with ⟨-, -, t₁, hrun', ht₁⟩ | ⟨-, e, hrun'⟩
      · obtain rfl : t₁ = t' := by simpa [hrun'] using congrArg (fun r => r.2.2) hrun
        exact hs.tidy.put hkey hq ht₁
      · obtain rfl : t = t' := by simpa [hrun'] using congrArg (fun r => r.2.2) hrun
        exact hs.tidy
  | @get key hkey =>
      refine hstep (.get hkey) .get hkey fun o t' hrun => ?_
      obtain ⟨q, hq, hres⟩ := hU.path (b := b) hkey
      rw [run_get hres] at hrun
      obtain rfl : t = t' := congrArg (fun r => r.2.2) hrun
      exact hs.tidy
  | @delete key hkey =>
      refine hstep (.delete hkey) .delete hkey fun o t' hrun => ?_
      obtain ⟨q, hq, hres⟩ := hU.path (b := b) hkey
      rcases delete_cases (t := t) hres with ⟨-, t₁, hrun', ht₁⟩ | ⟨-, e, hrun'⟩
      · obtain rfl : t₁ = t' := by simpa [hrun'] using congrArg (fun r => r.2.2) hrun
        exact hs.tidy.delete ht₁
      · obtain rfl : t = t' := by simpa [hrun'] using congrArg (fun r => r.2.2) hrun
        exact hs.tidy
  | @exists' key hkey =>
      obtain ⟨q, hq, hres⟩ := hU.path (b := b) hkey
      refine ⟨_, t, m, run_exists hres, ⟨.inl ?_, rfl⟩, hs⟩
      show Outcome.ok (Value.bool (t.node (b.root ++ q)).isSome) = _
      rcases hs.keyed.get? (hs.apart hU hkey hq) with ⟨d, hnode, hd⟩ | ⟨hnode, hd⟩
      · rw [hnode, hd]
        rfl
      · rw [hnode, hd]
        rfl
  | scan =>
      obtain ⟨p, hbase, hroot, hmem⟩ := hs.mem_listed hU .scan
      refine ⟨_, t, m, run_scan hbase, ⟨.inl ⟨_, rfl, nodup_listed hs.keyed.root hroot, ?_⟩, rfl⟩, hs⟩
      intro key
      rw [hmem, Dict.isSome_get?_iff]
  | scanDir hplain hnul hno =>
      obtain ⟨p, hbase, hroot, hmem⟩ := hs.mem_listed hU (.scanDir hplain hnul hno)
      refine ⟨_, t, m, run_scan hbase, ⟨.inl ⟨_, rfl, nodup_listed hs.keyed.root hroot, ?_⟩, rfl⟩, hs⟩
      intro key
      rw [hmem, Dict.isSome_get?_iff]

/-! ## Runs -/

/-- **On careful keys a `FileBlob` is a flat store that never fails.** -/
theorem refines_flat (b : FileBlob) (hU : KeySet U) :
    Refines disk b.backend.perform (spec noFailures) (Careful U)
      (fun _ t m => ∃ mem, Stores b U t mem ∧ mem.data.get? = m) where
  ends c m m' h := not_responds_spun c h.1
  step := by
    rintro c s t m hc ⟨mem, hs, rfl⟩
    obtain ⟨o, t', mem', hrun, hspec, hs'⟩ := hs.step hU hc
    rw [wp, show (b.backend.perform c).run disk s t = (o, (), t') from hrun]
    exact ⟨_, hspec, mem', hs', rfl⟩

theorem EmptyRoot.stores (h : EmptyRoot b t) : Stores b U t unlimited where
  keyed := h.keyed
  keys key hkey := absurd hkey List.not_mem_nil
  tidy p hp hne hdir := by
    rw [h.empty p hp hne] at hdir
    cases hdir

end FileBlob

end GufoBlob
