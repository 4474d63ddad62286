import GufoBlob.Ftp.PlainServer
import GufoBlob.Ftp.Walk

/-!
# What a scan finds

A scan of a server of files, whatever the tree, the prefix, the listing command and the network.

* `scan_sound_iff` — the keys are stored, begin with the prefix and are distinct, exactly when the
  prefix is `Scannable`: a file that one of its parts names, or that lies in the directory that it
  names, begins with it.
* `scan_complete_iff` — with a prefix that is empty or names a directory, every file below it is
  found exactly when all of them lie directly in the directory.
-/

namespace GufoBlob.Ftp

open Text Data Interaction FTPBlob

/-! ## Prefixes of paths -/

theorem joinSlash_singleton (x : Str) : joinSlash [x] = x := List.append_nil x

theorem splitOn_joinSlash {a : List Str} {w : Str} (ha : ∀ x ∈ a, '/' ∉ x) (hw : '/' ∉ w) :
    (joinSlash (a ++ [w])).splitOn '/' = a ++ [w] := by
  unfold joinSlash
  apply List.splitOn_intercalate '/' _ (by simp)
  intro x hx
  rcases List.mem_append.mp hx with hx | hx
  · exact ha x hx
  · rwa [List.mem_singleton.mp hx]

/-- The last name may be empty: then the text ends in a slash. -/
theorem parts_joinSlash {a : List Str} {w : Str} (ha : ∀ x ∈ a, IsPart x) (hw : '/' ∉ w) :
    parts (joinSlash (a ++ [w])) = if w = [] then a else a ++ [w] := by
  have hself : a.filter (fun x => !x.isEmpty) = a := by
    rw [List.filter_eq_self]
    intro x hx
    simpa using (ha x hx).1
  unfold parts
  rw [splitOn_joinSlash (fun x hx => (ha x hx).2) hw, List.filter_append, hself]
  by_cases h : w = []
  · simp [h]
  · simp [h]

/-- A beginning of a joined path ends within one of the names. -/
theorem exists_of_prefix_joinSlash {q : List Str} (hq : q ≠ []) {pre : Str}
    (h : pre <+: joinSlash q) :
    ∃ a w z r, q = a ++ (w ++ z) :: r ∧ pre = joinSlash (a ++ [w]) := by
  induction q generalizing pre with
  | nil => exact absurd rfl hq
  | cons x q ih =>
      have hfirst : pre <+: x → ∃ a w z r, x :: q = a ++ (w ++ z) :: r ∧
          pre = joinSlash (a ++ [w]) := by
        rintro ⟨z, rfl⟩
        exact ⟨[], pre, z, q, rfl, (joinSlash_singleton pre).symm⟩
      cases q with
      | nil =>
          rw [joinSlash_singleton] at h
          exact hfirst h
      | cons y q =>
          have hjoin : joinSlash (x :: y :: q) = x ++ '/' :: joinSlash (y :: q) := by
            unfold joinSlash
            rw [List.intercalate_cons_cons]
            simp
          rw [hjoin] at h
          rcases List.prefix_or_prefix_of_prefix h (List.prefix_append x _) with hx | ⟨u, rfl⟩
          · exact hfirst hx
          · rw [List.prefix_append_right_inj] at h
            rcases List.prefix_cons_iff.mp h with rfl | ⟨t, rfl, ht⟩
            · exact hfirst (by simp)
            · obtain ⟨a, w, z, r, hq', rfl⟩ := ih (List.cons_ne_nil y q) ht
              refine ⟨x :: a, w, z, r, by rw [hq', List.cons_append], ?_⟩
              cases a <;> simp [joinSlash, List.intercalate_cons_cons]

/-- The prefix is the path of its parts, with or without a slash at the end. -/
def Denotes (pre : Str) : Prop :=
  pre = joinSlash (parts pre) ∨ parts pre ≠ [] ∧ pre = joinSlash (parts pre) ++ ['/']

section Prefix

variable {pre : Str} {q : List Str} (hq : ∀ x ∈ q, IsPart x)

include hq

/-- What begins with a prefix has its parts, but for the last one, of which it has a beginning. -/
theorem parts_of_prefix (hne : q ≠ []) (h : pre <+: joinSlash q) :
    ∃ a w z r, q = a ++ (w ++ z) :: r ∧ pre = joinSlash (a ++ [w]) ∧
      parts pre = if w = [] then a else a ++ [w] := by
  obtain ⟨a, w, z, r, rfl, rfl⟩ := exists_of_prefix_joinSlash hne h
  have ha : ∀ x ∈ a, IsPart x := fun x hx => hq x (List.mem_append_left _ hx)
  have hw : '/' ∉ w := fun hw => (hq (w ++ z) (by simp)).2 (List.mem_append_left z hw)
  exact ⟨a, w, z, r, rfl, rfl, parts_joinSlash ha hw⟩

/-- A path on the way to the last part begins with the prefix only if it is the prefix. -/
theorem prefix_take_iff {n : Nat} (hn : n < (parts pre).length)
    (heq : q = (parts pre).take (n + 1)) :
    pre <+: joinSlash q ↔ n + 1 = (parts pre).length ∧ pre = joinSlash (parts pre) := by
  constructor
  · intro h
    have hlength : q.length = n + 1 := by
      rw [heq, List.length_take]
      omega
    obtain ⟨a, w, z, r, hsplit, hpre, hparts⟩ := parts_of_prefix hq
      (List.ne_nil_of_length_eq_add_one hlength) h
    rw [hsplit, List.length_append, List.length_cons] at hlength
    split at hparts
    · rw [hparts] at hn
      omega
    · have hall : (parts pre).length = a.length + 1 := by
        rw [hparts, List.length_append, List.length_singleton]
      rw [← hparts] at hpre
      exact ⟨by omega, hpre⟩
  · rintro ⟨hall, hpre⟩
    rw [heq, hall, List.take_length, ← hpre]

/-- A path in the directory that the parts name. -/
theorem prefix_concat_iff {x : Str} (heq : q = parts pre ++ [x]) :
    pre <+: joinSlash q ↔ Denotes pre := by
  constructor
  · intro h
    obtain ⟨a, w, z, r, hsplit, hpre, hparts⟩ := parts_of_prefix hq (by simp [heq]) h
    split at hparts
    · next hw =>
        subst hw
        unfold Denotes
        rw [hparts]
        by_cases ha : a = []
        · subst ha
          exact .inl hpre
        · exact .inr ⟨ha, by rw [hpre, joinSlash_append_singleton ha]⟩
    · rw [← hparts] at hpre
      exact .inl hpre
  · have hjoin : parts pre ≠ [] → joinSlash q = joinSlash (parts pre) ++ '/' :: x := by
      intro hne
      rw [heq, joinSlash_append_singleton hne]
    rintro (hpre | ⟨hne, hpre⟩)
    · by_cases hne : parts pre = []
      · rw [hpre, hne]
        exact List.nil_prefix
      · rw [hjoin hne, ← hpre]
        exact List.prefix_append _ _
    · rw [hjoin hne, List.append_cons, ← hpre]
      exact List.prefix_append _ _

end Prefix

/-! ## Soundness -/

/-- No file is in the way of the prefix, and the files that it leads to begin with it. -/
structure Scannable (tree : RemoteTree) (pre : Str) : Prop where
  above : ∀ n, 0 < n → n < (parts pre).length → tree.isFile ((parts pre).take n) = false
  file : tree.isFile (parts pre) = true → pre = joinSlash (parts pre)
  inside : ∀ x, tree.isFile (parts pre ++ [x]) = true → Denotes pre

section Keys

variable {srv : FileServer} {l : Lister} {tree : RemoteTree} (hnamed : Named tree)

include hnamed

/-- All keys of the walk begin with the prefix. -/
theorem forall_walk_iff {pre : Str} :
    (∀ key ∈ srv.walk l tree (parts pre) [], pre <+: key) ↔ Scannable tree pre := by
  constructor
  · intro h
    have hfile : ∀ q, tree.isFile q = true → ((∃ n < (parts pre).length,
        q = (parts pre).take (n + 1)) ∨ ∃ x, q = parts pre ++ [x]) → pre <+: joinSlash q :=
      fun q hq hcase => h _ (mem_walk_iff.mpr ⟨q, hq, rfl, by simpa using hcase⟩)
    constructor
    · -- a proper ancestor is shorter than the prefix
      intro n hpos hn
      by_contra hq
      rw [Bool.not_eq_false] at hq
      obtain ⟨m, rfl⟩ : ∃ m, n = m + 1 := ⟨n - 1, by omega⟩
      have hpre := hfile _ hq (.inl ⟨m, by omega, rfl⟩)
      rw [prefix_take_iff (hnamed.isPart_of_isFile hq) (by omega) rfl] at hpre
      omega
    · intro hq
      obtain ⟨m, hm⟩ : ∃ m, (parts pre).length = m + 1 := Nat.exists_eq_succ_of_ne_zero
        (mt List.length_eq_zero_iff.mp (FileTree.ne_nil_of_isFile hq))
      have htake : parts pre = (parts pre).take (m + 1) := by rw [← hm, List.take_length]
      have hpre := hfile _ hq (.inl ⟨m, by omega, htake⟩)
      exact ((prefix_take_iff (hnamed.isPart_of_isFile hq) (by omega) htake).mp hpre).2
    · intro x hq
      have hpre := hfile _ hq (.inr ⟨x, rfl⟩)
      exact (prefix_concat_iff (hnamed.isPart_of_isFile hq) rfl).mp hpre
  · intro h key hkey
    obtain ⟨q, hq, rfl, hcase⟩ := mem_walk_iff.mp hkey
    have hparts := hnamed.isPart_of_isFile hq
    rcases hcase with ⟨n, hn, heq⟩ | ⟨x, heq⟩
    · rw [List.nil_append] at heq
      by_cases hall : n + 1 = (parts pre).length
      · rw [hall, List.take_length] at heq
        rw [heq, ← h.file (heq ▸ hq)]
      · rw [heq, h.above (n + 1) (by omega) (by omega)] at hq
        cases hq
    · rw [List.nil_append] at heq
      exact (prefix_concat_iff hparts heq).mpr (h.inside x (heq ▸ hq))

end Keys

/-- **A scan is sound** exactly when the prefix is `Scannable`: then the keys that it yields are the
paths of files, begin with the prefix, and are distinct. -/
theorem scan_sound_iff {N : Type} {net : N → Option Nat × N} {srv : FileServer} (fl : Flavour)
    {b : FTPBlob} {g : FTPFeatures} {tree : RemoteTree} {st : State} {t : Session ServerState N}
    (hnet : ∀ n, (net n).1 ≠ none) (hnamed : Named tree)
    (hg : g.supportsMlsd = true → srv.supports.supportsMlsd = true)
    (ht : Serving srv b g tree st t) (pre : Str) :
    (∃ keys, Answers srv net fl b st t (.scan pre) (.keys keys) ∧
      (∀ key ∈ keys, (∃ path, tree.isFile path = true ∧ key = joinSlash path) ∧ pre <+: key) ∧
      keys.Nodup) ↔ Scannable tree pre := by
  have hanswers := answers_scan fl hnet hnamed hg ht pre
  rw [← forall_walk_iff hnamed]
  constructor
  · rintro ⟨keys, hkeys, hsound, -⟩
    obtain rfl := Value.keys.inj (hkeys.unique hanswers)
    exact fun key hkey => (hsound key hkey).2
  · intro h
    refine ⟨_, hanswers, fun key hkey => ⟨?_, h key hkey⟩, nodup_walk hnamed _ _⟩
    obtain ⟨q, hq, hjoin, -⟩ := mem_walk_iff.mp hkey
    exact ⟨q, hq, hjoin⟩

/-- A tree with a file `a` and nothing else. -/
def oneFile : RemoteTree := FileTree.empty.insert [] ['a'] (.file []) isDir_emptyTree (by decide)

theorem named_oneFile : Named oneFile :=
  named_empty.insert (entryName_of_decide (by decide)) [] _ rfl rfl

/-- The prefix `a` is the path of the file. -/
theorem scan_sound_oneFile :
    ∃ keys, Answers (plainServer [] 0) prompt .sync (knowing {}) (knowing {}).start
        (.start (idleServer oneFile) ()) (.scan ['a']) (.keys keys) ∧
      (∀ key ∈ keys, (∃ path, oneFile.isFile path = true ∧ key = joinSlash path) ∧ ['a'] <+: key) ∧
      keys.Nodup :=
  (scan_sound_iff .sync prompt_ne_none named_oneFile (fun _ => rfl) (serving_start _ _ _ _)
    ['a']).mpr ⟨fun _ hpos hn => absurd hn (Nat.not_lt.mpr hpos), fun _ => rfl, fun _ _ => .inl rfl⟩

/-- The prefix `a/b` continues below the file, and the file is yielded. -/
theorem not_scan_sound :
    Answers (plainServer [] 0) prompt .sync (knowing {}) (knowing {}).start
      (.start (idleServer oneFile) ()) (.scan "a/b".toList) (.keys [['a']]) ∧
    ¬ "a/b".toList <+: ['a'] := by
  constructor
  · exact answers_scan .sync prompt_ne_none named_oneFile (fun _ => rfl) (serving_start _ _ _ _) _
  · decide

/-! ## Completeness -/

/-- The prefix is empty, or a path of parts and a slash. -/
def DirPrefix (pre : Str) : Prop :=
  pre = [] ∨ ∃ ps, ps ≠ [] ∧ (∀ x ∈ ps, IsPart x) ∧ pre = joinSlash ps ++ ['/']

/-- The paths that begin with such a prefix are those below its parts. -/
theorem DirPrefix.prefix_iff {pre : Str} (h : DirPrefix pre) {q : List Str}
    (hq : ∀ x ∈ q, IsPart x) (hne : q ≠ []) :
    pre <+: joinSlash q ↔ ∃ x r, q = parts pre ++ x :: r := by
  rcases h with rfl | ⟨ps, hps, hparts, rfl⟩
  · have hall : ∃ x r, q = x :: r := List.exists_cons_of_ne_nil hne
    simpa [parts] using hall
  · have hslash : joinSlash ps ++ ['/'] = joinSlash (ps ++ [[]]) := by
      rw [joinSlash_append_singleton hps]
    have hpre : parts (joinSlash ps ++ ['/']) = ps := by
      rw [hslash, parts_joinSlash hparts List.not_mem_nil, if_pos rfl]
    constructor
    · intro h
      obtain ⟨a, w, z, r, hsplit, hjoin, hcut⟩ := parts_of_prefix hq hne h
      rw [hpre] at hcut ⊢
      split at hcut
      · exact ⟨_, r, hcut ▸ hsplit⟩
      · -- without the slash the prefix would be shorter
        rw [← hcut] at hjoin
        exact absurd (congrArg List.length hjoin) (by simp)
    · rw [hpre]
      rintro ⟨x, r, rfl⟩
      have htake : (ps ++ x :: r).take (ps.length + 1) = ps ++ [x] := by
        rw [List.take_append, List.take_of_length_le (Nat.le_succ _), Nat.add_sub_cancel_left]
        rfl
      have hbegin := intercalate_take_isPrefix ['/'] (ps.length + 1) (ps ++ x :: r)
      rw [htake] at hbegin
      refine List.IsPrefix.trans ?_ hbegin
      rw [show ['/'].intercalate (ps ++ [x]) = _ from joinSlash_append_singleton hps x]
      exact ⟨x, by simp⟩

/-- **A scan is complete** exactly when no file lies deeper than in the directory of the prefix. -/
theorem scan_complete_iff {N : Type} {net : N → Option Nat × N} {srv : FileServer} (fl : Flavour)
    {b : FTPBlob} {g : FTPFeatures} {tree : RemoteTree} {st : State} {t : Session ServerState N}
    (hnet : ∀ n, (net n).1 ≠ none) (hnamed : Named tree)
    (hg : g.supportsMlsd = true → srv.supports.supportsMlsd = true)
    (ht : Serving srv b g tree st t) {pre : Str} (hpre : DirPrefix pre) :
    (∃ keys, Answers srv net fl b st t (.scan pre) (.keys keys) ∧
      ∀ path, tree.isFile path = true → pre <+: joinSlash path → joinSlash path ∈ keys) ↔
    ∀ r, tree.isFile (parts pre ++ r) = true → r.length ≤ 1 := by
  have hanswers := answers_scan fl hnet hnamed hg ht pre
  constructor
  · rintro ⟨keys, hkeys, hcomplete⟩ r hr
    obtain rfl := Value.keys.inj (hkeys.unique hanswers)
    cases r with
    | nil => exact Nat.zero_le 1
    | cons x r =>
        have hparts := hnamed.isPart_of_isFile hr
        have hbegin := (hpre.prefix_iff hparts (FileTree.ne_nil_of_isFile hr)).mpr ⟨x, r, rfl⟩
        -- as a key of the walk it is no ancestor of the prefix, so it lies in its directory
        obtain ⟨q, hq, hjoin, hcase⟩ := mem_walk_iff.mp (hcomplete _ hr hbegin)
        obtain rfl := joinSlash_inj hparts (hnamed.isPart_of_isFile hq) hjoin
        rcases hcase with ⟨n, hn, heq⟩ | ⟨y, heq⟩
        · have hlength := congrArg List.length heq
          simp at hlength
          omega
        · rw [List.nil_append, List.append_right_inj] at heq
          rw [heq, List.length_singleton]
  · intro h
    refine ⟨_, hanswers, fun q hq hbegin => ?_⟩
    obtain ⟨x, r, rfl⟩ := (hpre.prefix_iff (hnamed.isPart_of_isFile hq)
      (FileTree.ne_nil_of_isFile hq)).mp hbegin
    have hr : r = [] := by simpa using h _ hq
    subst hr
    exact mem_walk_iff.mpr ⟨_, hq, rfl, .inr ⟨x, rfl⟩⟩

/-- A tree with a directory `d` and a file `f` in it. -/
def oneDeeper : RemoteTree :=
  (FileTree.empty.insert [] ['d'] .dir isDir_emptyTree (by decide)).insert [['d']] ['f'] (.file [])
    (by decide) (by decide)

theorem named_oneDeeper : Named oneDeeper :=
  (named_empty.insert (entryName_of_decide (by decide)) [] _ rfl rfl).insert
    (entryName_of_decide (by decide)) [['d']] _ rfl rfl

theorem eq_of_isFile_oneDeeper {q : List Str} (h : oneDeeper.isFile q = true) :
    q = [['d'], ['f']] := by
  obtain ⟨data, hdata⟩ := FileTree.isFile_iff.mp h
  unfold oneDeeper at hdata
  rw [FileTree.node_insert, FileTree.node_insert] at hdata
  have hempty : (FileTree.empty : RemoteTree).node q ≠ some (.file data) := by
    intro h
    exact Bool.false_ne_true ((FileTree.isFile_empty q).symm.trans (FileTree.isFile_iff.mpr ⟨_, h⟩))
  grind

/-- The prefix `d/` is the directory of the file. -/
theorem scan_complete_oneDeeper :
    ∃ keys, Answers (plainServer [] 0) prompt .aio (knowing {}) (knowing {}).start
        (.start (idleServer oneDeeper) ()) (.scan ['d', '/']) (.keys keys) ∧
      ∀ path, oneDeeper.isFile path = true → ['d', '/'] <+: joinSlash path →
        joinSlash path ∈ keys := by
  have hpre : DirPrefix ['d', '/'] := .inr ⟨[['d']], by decide, by simp [IsPart], rfl⟩
  apply (scan_complete_iff .aio prompt_ne_none named_oneDeeper (fun _ => rfl)
    (serving_start _ _ _ _) hpre).mpr
  intro r hr
  have heq : r = [['f']] := List.append_cancel_left (eq_of_isFile_oneDeeper hr)
  rw [heq]
  exact le_refl 1

/-- The empty prefix: nothing is yielded, and `d/f` is stored. -/
theorem not_scan_complete :
    Answers (plainServer [] 0) prompt .aio (knowing {}) (knowing {}).start
      (.start (idleServer oneDeeper) ()) (.scan []) (.keys []) ∧
    oneDeeper.isFile [['d'], ['f']] = true := by
  constructor
  · exact answers_scan .aio prompt_ne_none named_oneDeeper (fun _ => rfl) (serving_start _ _ _ _) _
  · rfl

end GufoBlob.Ftp
