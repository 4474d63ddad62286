import GufoBlob.File.Flat
import GufoBlob.Ftp.Lookup
import GufoBlob.Ftp.Removal
import GufoBlob.Ftp.Scan
import GufoBlob.Interaction.Fuel

/-!
# The FTP backend as a flat store

A server of files that also deletes, and a client that uses it with careful keys: names that a listing
can show, with single slashes between them, and no key below another one (`KeySet`). Then the store is
flat, in three steps.

* `step_*` — what a call does to the files of the server, seen as a function of the path (`View`), is
  `next`.
* `Kept` — with keys of the set only, the files are those of keys and the directories lie above them.
  A call keeps that.
* `spec_of_steps` — seen under its keys (`held`), such a view is the map of the flat store.

`files_flat` puts them together for every run of calls.
-/

namespace GufoBlob.Ftp

open Text Data Interaction Program FTPBlob FlatStore

/-- What each path names. -/
abbrev View := List Str → Option (Node Bytes)

/-- The data under each key. -/
def held (v : View) : Contents := fun key =>
  match v (File.names key) with
  | some (.file data) => some data
  | _ => none

/-- What a call leaves. -/
def next : Call → View → View
  | .put key data, v => fun q =>
      if q = File.names key then some (.file data) else if q <+: File.names key then some .dir else v q
  | .delete key, v => fun q => if q = File.names key then none else v q
  | _, v => v

section Next

variable {key : Str} {data : Bytes} {v : View} {q : List Str}

theorem next_put : next (.put key data) v q =
    if q = File.names key then some (.file data)
    else if q <+: File.names key then some .dir else v q := rfl

theorem next_delete :
    next (.delete key) v q = if q = File.names key then none else v q := rfl

end Next

/-! ## Careful keys -/

/-- Keys that do not get into each other's way, and names that a listing can show. -/
structure KeySet (U : Str → Prop) : Prop extends FileBlob.KeySet U where
  named : ∀ key, U key → ∀ x ∈ File.names key, EntryName x

/-- The prefix names a directory that no key lies above, and the keys in it lie directly in it. -/
structure Listable (U : Str → Prop) (pre : Str) : Prop where
  dir : DirPrefix pre
  notKey : ∀ key, U key → ¬ File.names key <+: parts pre
  direct : ∀ key, U key → pre <+: key → (File.names key).length = (parts pre).length + 1

/-- Calls on keys of the set, uploads that arrive, and scans of directories. Only the synchronous
class leaves no connection when it is closed. -/
inductive Careful (srv : FileServer) (fl : Flavour) (U : Str → Prop) : Call → Prop where
  | open' : Careful srv fl U .open'
  | close : fl = .sync → Careful srv fl U .close
  | put {key : Str} {data : Bytes} : U key → missing srv data fl = some 0 →
      Careful srv fl U (.put key data)
  | get {key : Str} : U key → Careful srv fl U (.get key)
  | delete {key : Str} : U key → Careful srv fl U (.delete key)
  | exists' {key : Str} : U key → Careful srv fl U (.exists' key)
  | scan {pre : Str} : Listable U pre → Careful srv fl U (.scan pre)

/-- Every file is that of a key, and every directory lies above a key. -/
structure Kept (U : Str → Prop) (v : View) : Prop where
  root : v [] = some .dir
  files : ∀ p d, v p = some (.file d) → ∃ key, U key ∧ p = File.names key
  dirs : ∀ p, p ≠ [] → v p = some .dir →
    ∃ key, U key ∧ p <+: File.names key ∧ p ≠ File.names key

section Keys

variable {U : Str → Prop} {key key' : Str} {v : View}

theorem joinSlash_names (key : Str) : joinSlash (File.names key) = key := List.intercalate_splitOn '/'

theorem names_injective (h : File.names key = File.names key') : key = key' := by
  rw [← joinSlash_names key, h, joinSlash_names]

theorem names_ne_nil (key : Str) : File.names key ≠ [] := List.splitOn_ne_nil '/' key

theorem held_eq_some_iff {data : Bytes} :
    held v key = some data ↔ v (File.names key) = some (.file data) := by
  unfold held
  cases v (File.names key) with
  | none => simp
  | some n => cases n <;> simp

variable (hU : KeySet U)

include hU

theorem KeySet.isPart (hkey : U key) : ∀ x ∈ File.names key, IsPart x :=
  fun x hx => (hU.named key hkey x hx).isPart

theorem KeySet.noBreak (hkey : U key) : ¬ BreaksLine key := by
  rw [← joinSlash_names key]
  apply not_breaksLine_of_notMem
  exact notMem_joinSlash (by decide) fun x hx hmem => (hU.named key hkey x hx).space _ hmem (by decide)

/-- A key of the set names a file, or nothing. -/
theorem Kept.node (hv : Kept U v) (hkey : U key) :
    (∃ d, v (File.names key) = some (.file d)) ∨ v (File.names key) = none := by
  cases hnode : v (File.names key) with
  | none => exact .inr rfl
  | some n =>
      cases n with
      | file d => exact .inl ⟨d, rfl⟩
      | dir =>
          obtain ⟨key', hkey', hpre, hne⟩ := hv.dirs _ (names_ne_nil key) hnode
          obtain rfl := hU.free key key' hkey hkey' hpre
          exact absurd rfl hne

/-- Above a key of the set there is no file. -/
theorem Kept.clear (hv : Kept U v) (hkey : U key) {q : List Str} (hq : q <+: File.names key)
    (hne : q ≠ File.names key) (d : Bytes) : v q ≠ some (.file d) := by
  intro hfile
  obtain ⟨key', hkey', rfl⟩ := hv.files q d hfile
  obtain rfl := hU.free key' key hkey' hkey hq
  exact hne rfl

theorem Kept.named (hv : Kept U v) {tree : RemoteTree} (htree : tree.node = v) : Named tree := by
  intro path x hx
  rw [htree] at hx
  have hmem : ∀ {key}, path ++ [x] <+: File.names key → x ∈ File.names key :=
    fun h => h.subset (by simp)
  cases hnode : v (path ++ [x]) with
  | none => exact absurd hnode hx
  | some n =>
      cases n with
      | file d =>
          obtain ⟨key, hkey, heq⟩ := hv.files _ d hnode
          exact hU.named key hkey x (hmem (heq ▸ List.prefix_rfl))
      | dir =>
          obtain ⟨key, hkey, hpre, -⟩ := hv.dirs _ (by simp) hnode
          exact hU.named key hkey x (hmem hpre)

omit hU in
/-- A careful call leaves files of keys and directories above them. -/
theorem Kept.next {srv : FileServer} {fl : Flavour} {c : Call} (hv : Kept U v)
    (hc : Careful srv fl U c) : Kept U (next c v) := by
  cases hc with
  | @put key data hkey _ =>
      refine ⟨?_, fun p d hp => ?_, fun p hne hp => ?_⟩
      · rw [next_put, if_neg (names_ne_nil key).symm, if_pos List.nil_prefix]
      · rw [next_put] at hp
        split at hp
        · next heq => exact ⟨key, hkey, heq⟩
        · split at hp
          · cases hp
          · exact hv.files p d hp
      · rw [next_put] at hp
        split at hp
        · cases hp
        · next hnot =>
            split at hp
            · next hpre => exact ⟨key, hkey, hpre, hnot⟩
            · exact hv.dirs p hne hp
  | @delete key hkey =>
      refine ⟨?_, fun p d hp => ?_, fun p hne hp => ?_⟩
      · rw [next_delete, if_neg (names_ne_nil key).symm, hv.root]
      · rw [next_delete] at hp
        split at hp
        · cases hp
        · exact hv.files p d hp
      · rw [next_delete] at hp
        split at hp
        · cases hp
        · exact hv.dirs p hne hp
  | open' => exact hv
  | close _ => exact hv
  | get _ => exact hv
  | exists' _ => exact hv
  | scan _ => exact hv

/-! ## The flat store -/

theorem held_put (hv : Kept U v) (hkey : U key) (data : Bytes) :
    held (next (.put key data) v) = Function.update (held v) key (some data) := by
  funext key'
  rw [Function.update_apply]
  by_cases hkeys : key' = key
  · subst hkeys
    rw [if_pos rfl, held_eq_some_iff, next_put, if_pos rfl]
  · have hnames : File.names key' ≠ File.names key := fun h => hkeys (names_injective h)
    rw [if_neg hkeys]
    apply Option.ext
    intro d
    rw [held_eq_some_iff, held_eq_some_iff, next_put, if_neg hnames]
    split
    · next hpre =>
        -- a directory above the key, where nothing was held before
        exact iff_of_false (by simp) (hv.clear hU hkey hpre hnames d)
    · rfl

omit hU in
theorem held_delete (key : Str) (v : View) :
    held (next (.delete key) v) = Function.update (held v) key none := by
  funext key'
  rw [Function.update_apply]
  unfold held
  rw [next_delete]
  by_cases hkeys : key' = key
  · rw [if_pos hkeys, if_pos (congrArg File.names hkeys)]
  · rw [if_neg hkeys, if_neg fun h => hkeys (names_injective h)]

/-- Under the keys, a careful call changes what the flat store changes. -/
theorem held_next {srv : FileServer} {fl : Flavour} {c : Call} (hv : Kept U v)
    (hc : Careful srv fl U c) {o : Outcome PyExc Value} (ho : FlatStore.Answers (held v) c o) :
    held (next c v) = contents (held v) (writeOf c o) := by
  cases hc with
  | @put key data hkey _ =>
      obtain rfl : o = .ok .none := ho
      exact held_put hU hv hkey data
  | @delete key hkey =>
      rw [held_delete]
      cases hheld : held v key with
      | some d =>
          obtain rfl : o = .ok .none := by simpa [FlatStore.Answers, hheld] using ho
          rfl
      | none =>
          obtain rfl : o = .error (.keyError key) := by simpa [FlatStore.Answers, hheld] using ho
          exact Function.update_eq_self_iff.mpr hheld.symm
  | open' => cases o <;> rfl
  | close _ => cases o <;> rfl
  | get _ => cases o <;> rfl
  | exists' _ => cases o <;> rfl
  | scan _ => cases o <;> rfl

theorem spec_of_steps {srv : FileServer} {fl : Flavour} (c : Call) (v : View)
    (o : Outcome PyExc Value) (v' : View)
    (h : Program.steps (fun c v o => FlatStore.Answers (held v) c o) next (Careful srv fl U) (Kept U)
      c v o v') : FlatStore.spec noFailures c (held v) o (held v') := by
  obtain ⟨hc, hv, ho, rfl⟩ := h
  exact ⟨.inl ho, held_next hU hv hc ho⟩

end Keys

/-! ## One call -/

/-- The length of a listing is that of its lines, in any order. -/
theorem length_listing_congr (srv : FileServer) (l : Lister) {tree tree' : RemoteTree}
    (h : tree.node = tree'.node) (path : List Str) :
    (srv.listing l tree path).length = (srv.listing l tree' path).length := by
  have hentries : (srv.entries l tree path).Perm (srv.entries l tree' path) :=
    ((srv.order_perm l path _).trans (FileTree.perm_entries h path)).trans
      (srv.order_perm l path _).symm
  unfold FileServer.listing Ftp.listing
  exact ((hentries.map _).flatMap_right _).length_eq

/-- Views have finitely long listings. -/
theorem exists_listing_bound (srv : FileServer) (l : Lister) (v : View) (ps : List Str) :
    ∃ m, ∀ tree : RemoteTree, tree.node = v → ∀ n, (srv.listing l tree (ps.take n)).length ≤ m := by
  by_cases hv : ∃ tree : RemoteTree, tree.node = v
  · obtain ⟨tree, rfl⟩ := hv
    obtain ⟨m, hm⟩ := exists_bound (fun path => (srv.listing l tree path).length) ps
    refine ⟨m, fun tree' htree' n => ?_⟩
    rw [length_listing_congr srv l htree']
    exact hm n
  · exact ⟨0, fun tree htree => absurd ⟨tree, htree⟩ hv⟩

/-- Between two operations: the files are those of the view. -/
def Holding {N : Type} (srv : FileServer) (b : FTPBlob) (g : FTPFeatures) (v : View) (st : State)
    (t : Session ServerState N) : Prop :=
  ∃ tree : RemoteTree, tree.node = v ∧ Serving srv b g tree st t

section Steps

variable {N : Type} {net : N → Option Nat × N} {srv : FileServer} {fl : Flavour} {fuel : Nat}
  {g : FTPFeatures} {b : FTPBlob} {U : Str → Prop} {v : View} {st : State}
  {t : Session ServerState N} {key : Str}

/-- The call answers as the flat store does, and leaves what it should. -/
def Steps (srv : FileServer) (net : N → Option Nat × N) (fl : Flavour) (b : FTPBlob)
    (g : FTPFeatures) (v : View) (fuel : Nat) (c : Call) (st : State) (t : Session ServerState N) :
    Prop :=
  wp (session srv.keeper net) ((fl.backend b fuel).perform c)
    (fun o st t => FlatStore.Answers (held v) c o ∧ Holding srv b g (next c v) st t) st t

variable (hnet : ∀ n, (net n).1 ≠ none) (hb : LoginPlain b) (hU : KeySet U) (hv : Kept U v)
  (hfuel : srv.limit < fuel)

include hnet hb hU hv hfuel

theorem step_put (hkey : U key) {data : Bytes} (hr : missing srv data fl = some 0)
    (ht : Holding srv b g v st t) : Steps srv net fl b g v fuel (.put key data) st t := by
  obtain ⟨tree, rfl, ht⟩ := ht
  have hplain : ¬ BreaksLine (joinSlash (File.names key)) := by
    rw [joinSlash_names]
    exact hU.noBreak hkey
  have hclear : ∀ q, q <+: File.names key → q ≠ File.names key → tree.isFile q = false := by
    intro q hq hne
    rw [Bool.eq_false_iff]
    intro hfile
    obtain ⟨d, hd⟩ := FileTree.isFile_iff.mp hfile
    exact hv.clear hU hkey hq hne d hd
  have hnot : tree.isDir (File.names key) = false := by
    unfold FileTree.isDir
    rcases hv.node hU hkey with ⟨d, hd⟩ | hnone
    · rw [hd]
    · rw [hnone]
  have hput := wp_put_files hnet hfuel (names_ne_nil key) (hU.isPart hkey) hplain hclear hnot hr ht
  rw [joinSlash_names, Nat.sub_zero, List.take_length] at hput
  have halike : Alike net srv ((fl.backend b fuel).perform (.put key data)) :=
    alike_perform hb (.inr (hU.noBreak hkey)) (by simp)
  unfold Steps
  rw [wp_alike_iff halike]
  apply wp_bind_ok hput
  rintro st' t' ⟨tree', hstored, ht'⟩
  refine ⟨rfl, tree', ?_, ht'⟩
  funext q
  rw [next_put]
  split
  · next hq => rw [hq, hstored.file]
  · next hne =>
      split
      · next hpre => exact hstored.dirs q hpre hne
      · next hno => exact hstored.others q hno

theorem step_get (hkey : U key) (hdata : ∀ d, v (File.names key) = some (.file d) → d.length < fuel)
    (ht : Holding srv b g v st t) : Steps srv net fl b g v fuel (.get key) st t := by
  obtain ⟨tree, rfl, ht⟩ := ht
  have hplain : ¬ BreaksLine (joinSlash (File.names key)) := by
    rw [joinSlash_names]
    exact hU.noBreak hkey
  have halike : Alike net srv ((fl.backend b fuel).perform (.get key)) :=
    alike_perform hb (.inr (hU.noBreak hkey)) (by simp)
  unfold Steps
  rw [wp_alike_iff halike]
  rcases hv.node hU hkey with ⟨d, hd⟩ | hnone
  · have hheld : held tree.node key = some d := held_eq_some_iff.mpr hd
    have hget : EndsWith (session srv.peer net) (Serving srv b g tree) d
        (FTPBlob.get fl.dialect fuel (fl.connection b fuel) (joinSlash (File.names key))) :=
      ends_get hnet hfuel (hU.isPart hkey) hplain hd (hdata d hd)
    rw [joinSlash_names] at hget
    have hanswers : FlatStore.Answers (held tree.node) (.get key) (.ok (.data d)) := by
      simp [FlatStore.Answers, hheld]
    apply wp_bind_ok (hget.exactly ht)
    exact fun st' t' ht' => ⟨hanswers, tree, rfl, ht'⟩
  · have hheld : held tree.node key = none := by
      unfold held
      rw [hnone]
    obtain ⟨e, hread⟩ : ∃ e, tree.read (File.names key) = .error e := by
      unfold FileTree.read
      rw [FileTree.lookup_of_none hnone]
      exact ⟨_, rfl⟩
    have hget : wp (session srv.peer net)
        (FTPBlob.get fl.dialect fuel (fl.connection b fuel) (joinSlash (File.names key)))
        (exactly (.error (.keyError (joinSlash (File.names key)))) (Serving srv b g tree)) st t :=
      wp_get_absent hnet hfuel (hU.isPart hkey) hplain hread ht
    rw [joinSlash_names] at hget
    have hanswers : FlatStore.Answers (held tree.node) (.get key) (.error (.keyError key)) := by
      simp [FlatStore.Answers, hheld]
    show wp _ ((FTPBlob.get fl.dialect fuel (fl.connection b fuel) key).bind _) _ _ _
    rw [wp_bind]
    apply wp_mono hget
    rintro o st' t' ⟨rfl, ht'⟩
    exact ⟨hanswers, tree, rfl, ht'⟩

omit hb in
theorem step_delete (hkey : U key) (ht : Holding srv b g v st t) :
    Steps srv net fl b g v fuel (.delete key) st t := by
  obtain ⟨tree, rfl, ht⟩ := ht
  have hplain : ¬ BreaksLine (joinSlash (File.names key)) := by
    rw [joinSlash_names]
    exact hU.noBreak hkey
  unfold Steps
  rcases hv.node hU hkey with ⟨d, hd⟩ | hnone
  · have hheld : held tree.node key = some d := held_eq_some_iff.mpr hd
    obtain ⟨tree', hunlink, htree'⟩ := FileTree.unlink_of_file hd
    have hdelete : wp (session srv.keeper net)
        (FTPBlob.delete fl.dialect fuel (fl.connection b fuel) (joinSlash (File.names key)))
        (exactly (.ok ()) (Serving srv b g tree')) st t :=
      wp_delete_file hnet hfuel (hU.isPart hkey) hplain hunlink ht
    rw [joinSlash_names] at hdelete
    have hanswers : FlatStore.Answers (held tree.node) (.delete key) (.ok .none) := by
      simp [FlatStore.Answers, hheld]
    apply wp_bind_ok hdelete
    exact fun st' t' ht' => ⟨hanswers, tree', funext htree', ht'⟩
  · have hheld : held tree.node key = none := by
      unfold held
      rw [hnone]
    obtain ⟨e, hunlink⟩ : ∃ e, tree.unlink (File.names key) = .error e := by
      unfold FileTree.unlink
      rw [FileTree.lookup_of_none hnone]
      exact ⟨_, rfl⟩
    have hdelete : wp (session srv.keeper net)
        (FTPBlob.delete fl.dialect fuel (fl.connection b fuel) (joinSlash (File.names key)))
        (exactly (.error (.keyError (joinSlash (File.names key)))) (Serving srv b g tree)) st t :=
      wp_delete_absent hnet hfuel (hU.isPart hkey) hplain hunlink ht
    rw [joinSlash_names] at hdelete
    have hanswers : FlatStore.Answers (held tree.node) (.delete key) (.error (.keyError key)) := by
      simp [FlatStore.Answers, hheld]
    show wp _ ((FTPBlob.delete fl.dialect fuel (fl.connection b fuel) key).bind _) _ _ _
    rw [wp_bind]
    apply wp_mono hdelete
    rintro o st' t' ⟨rfl, ht'⟩
    refine ⟨hanswers, tree, ?_, ht'⟩
    funext q
    rw [next_delete]
    split
    · next hq => rw [hq, hnone]
    · rfl

theorem step_exists (hg : Within g srv.supports) (hkey : U key)
    (hlistings : ∀ tree : RemoteTree, tree.node = v → ∀ n,
      (srv.listing (listerOf g) tree ((File.names key).take n)).length < fuel)
    (hfacts : ∀ isDir, (srv.facts (File.names key) isDir).bytes.length < fuel)
    (ht : Holding srv b g v st t) : Steps srv net fl b g v fuel (.exists' key) st t := by
  obtain ⟨tree, rfl, ht⟩ := ht
  have hfound : found srv g tree (File.names key) = (held tree.node key).isSome := by
    rw [found_iff.mpr]
    · unfold FileTree.isFile held
      rcases hv.node hU hkey with ⟨d, hd⟩ | hnone
      · rw [hd]
        rfl
      · rw [hnone]
        rfl
    · rintro ⟨-, -, hdir, -⟩
      rw [FileTree.isDir_iff] at hdir
      rcases hv.node hU hkey with ⟨d, hd⟩ | hnone
      · rw [hd] at hdir
        cases hdir
      · rw [hnone] at hdir
        cases hdir
  have hexists : EndsWith (session srv.peer net) (Serving srv b g tree)
      (found srv g tree (File.names key))
      (FTPBlob.exists' fl.dialect fuel (fl.connection b fuel) (joinSlash (File.names key))) :=
    ends_exists hnet hfuel (hv.named hU rfl) hg (hU.named key hkey) (hlistings tree rfl) hfacts
  rw [joinSlash_names, hfound] at hexists
  have halike : Alike net srv ((fl.backend b fuel).perform (.exists' key)) :=
    alike_perform hb (.inr (hU.noBreak hkey)) (by simp)
  unfold Steps
  rw [wp_alike_iff halike]
  apply wp_bind_ok (hexists.exactly ht)
  exact fun st' t' ht' => ⟨rfl, tree, rfl, ht'⟩

theorem step_scan (hg : Within g srv.supports) {pre : Str} (hpre : Listable U pre)
    (hlistings : ∀ tree : RemoteTree, tree.node = v → ∀ n,
      (srv.listing (listerOf g) tree ((parts pre).take n)).length < fuel)
    (ht : Holding srv b g v st t) : Steps srv net fl b g v fuel (.scan pre) st t := by
  obtain ⟨tree, rfl, ht⟩ := ht
  have hnamed := hv.named hU rfl
  have hmem : ∀ key, key ∈ srv.walk (listerOf g) tree (parts pre) [] ↔
      (held tree.node key).isSome ∧ pre <+: key := by
    have hheld : ∀ key, (held tree.node key).isSome ↔ tree.isFile (File.names key) = true := by
      intro key
      rw [Option.isSome_iff_exists, FileTree.isFile_iff]
      exact exists_congr fun d => held_eq_some_iff
    intro key
    rw [mem_walk_iff, hheld]
    constructor
    · rintro ⟨q, hq, rfl, hcase⟩
      obtain ⟨d, hd⟩ := FileTree.isFile_iff.mp hq
      obtain ⟨key, hkey, rfl⟩ := hv.files q d hd
      rw [joinSlash_names]
      refine ⟨hq, ?_⟩
      rcases hcase with ⟨n, -, heq⟩ | ⟨x, heq⟩
      · -- no key lies above the directory
        rw [List.nil_append] at heq
        exact absurd (heq ▸ List.take_prefix _ _) (hpre.notKey key hkey)
      · have hbegins := hpre.dir.prefix_iff (hU.isPart hkey) (names_ne_nil key)
        rw [joinSlash_names] at hbegins
        exact hbegins.mpr ⟨x, [], heq⟩
    · rintro ⟨hfile, hbegin⟩
      obtain ⟨d, hd⟩ := FileTree.isFile_iff.mp hfile
      obtain ⟨key', hkey, heq⟩ := hv.files _ d hd
      obtain rfl := names_injective heq
      have hbegins := hpre.dir.prefix_iff (hU.isPart hkey) (names_ne_nil key)
      rw [joinSlash_names] at hbegins
      obtain ⟨x, r, hsplit⟩ := hbegins.mp hbegin
      -- nothing is deeper in it
      have hlength := hpre.direct key hkey hbegin
      rw [hsplit, List.length_append, List.length_cons] at hlength
      obtain rfl : r = [] := List.eq_nil_of_length_eq_zero (by omega)
      exact ⟨File.names key, hfile, (joinSlash_names key).symm, .inr ⟨x, hsplit⟩⟩
  have hscan : Emits (session srv.peer net) (Serving srv b g tree)
      (srv.walk (listerOf g) tree (parts pre) []) (scan fl.dialect fuel (fl.connection b fuel) pre) :=
    emits_scan hnet hfuel hnamed hg.mlsd (hlistings tree rfl)
  have halike : Alike net srv ((fl.backend b fuel).perform (.scan pre)) :=
    alike_perform hb (.inr trivial) (by simp)
  unfold Steps
  rw [wp_alike_iff halike]
  apply wp_bind_ok (hscan.list.exactly ht)
  exact fun st' t' ht' => ⟨⟨_, rfl, nodup_walk hnamed _ _, hmem⟩, tree, rfl, ht'⟩

omit hU hv in
theorem step_open (ht : Holding srv b g v st t) : Steps srv net fl b g v fuel .open' st t := by
  obtain ⟨tree, rfl, ht⟩ := ht
  have halike : Alike net srv ((fl.backend b fuel).perform .open') :=
    alike_perform hb (.inr trivial) (by simp)
  unfold Steps
  rw [wp_alike_iff halike]
  apply wp_mono (wp_open_files hnet hfuel ht)
  rintro o st' t' ⟨rfl, ht'⟩
  exact ⟨rfl, tree, rfl, ht'⟩

omit hU hv in
theorem step_close (hretries : 0 < b.retries) (ht : Holding srv b g v st t) :
    Steps srv net .sync b g v fuel .close st t := by
  obtain ⟨tree, rfl, ht⟩ := ht
  have halike : Alike net srv ((Flavour.sync.backend b fuel).perform .close) :=
    alike_perform hb (.inl rfl) (by simp)
  unfold Steps
  rw [wp_alike_iff halike]
  apply wp_mono (wp_close_files hnet hfuel hb hretries ht)
  rintro o st' t' ⟨rfl, ht'⟩
  exact ⟨rfl, tree, rfl, ht'⟩

end Steps

/-! ## Runs -/

section Runs

variable {N : Type} {net : N → Option Nat × N} {srv : FileServer} {g : FTPFeatures} {b : FTPBlob}
  {U : Str → Prop} (fl : Flavour) (hnet : ∀ n, (net n).1 ≠ none) (hb : LoginPlain b)
  (hretries : 0 < b.retries) (hg : Within g srv.supports) (hU : KeySet U)

include hnet hb hretries hg hU

/-- Careful calls on a server of files do what they should, with fuel for the replies, the data and
the listings on the way. -/
theorem refines_files :
    Program.RefinesInTime (session srv.keeper net) (fun fuel => (fl.backend b fuel).perform)
      (fun c v o => FlatStore.Answers (held v) c o) next (Careful srv fl U) (Kept U)
      (fun st t v => Holding srv b g v st t) where
  ends c v h := by
    have hno : ¬ Responds noFailures (held v) c .spun := not_responds_spun c
    exact hno (.inl h)
  keeps _ _ hc hv := hv.next hc
  step := by
    intro c v hc hv
    cases hc with
    | open' => exact ⟨srv.limit + 1, fun m hm st t ht => step_open hnet hb (by omega) ht⟩
    | close hfl =>
        subst hfl
        exact ⟨srv.limit + 1, fun m hm st t ht => step_close hnet hb (by omega) hretries ht⟩
    | put hkey hr =>
        exact ⟨srv.limit + 1, fun m hm st t ht => step_put hnet hb hU hv (by omega) hkey hr ht⟩
    | @get key hkey =>
        refine ⟨srv.limit + ((held v key).getD []).length + 1, fun m hm st t ht =>
          step_get hnet hb hU hv (by omega) hkey (fun d hd => ?_) ht⟩
        rw [held_eq_some_iff.mpr hd, Option.getD_some] at hm
        omega
    | delete hkey =>
        exact ⟨srv.limit + 1, fun m hm st t ht => step_delete hnet hU hv (by omega) hkey ht⟩
    | @exists' key hkey =>
        obtain ⟨k, hk⟩ := exists_listing_bound srv (listerOf g) v (File.names key)
        refine ⟨srv.limit + k + (srv.facts (File.names key) true).bytes.length +
          (srv.facts (File.names key) false).bytes.length + 1, fun m hm st t ht =>
          step_exists hnet hb hU hv (by omega) hg hkey
            (fun tree htree n => (hk tree htree n).trans_lt (by omega)) ?_ ht⟩
        rintro (_ | _) <;> omega
    | @scan pre hpre =>
        obtain ⟨k, hk⟩ := exists_listing_bound srv (listerOf g) v (parts pre)
        exact ⟨srv.limit + k + 1, fun m hm st t ht => step_scan hnet hb hU hv (by omega) hg hpre
          (fun tree htree n => (hk tree htree n).trans_lt (by omega)) ht⟩

/-- There is enough fuel for every run of careful calls, and with it they are a run of the flat store. -/
theorem runs_files {tree : RemoteTree} {st : State} {t : Session ServerState N}
    (htree : Kept U tree.node) (ht : Serving srv b g tree st t) {cs : List Call}
    (hcs : ∀ c ∈ cs, Careful srv fl U c) :
    ∃ fuel, ∀ more, fuel ≤ more →
      let r := Program.runCalls (session srv.keeper net) (fl.backend b more).perform cs st t
      r.1.length = cs.length ∧ ∃ tree' : RemoteTree, Serving srv b g tree' r.2.1 r.2.2 ∧
        Spec.Runs (FlatStore.spec noFailures) (held tree.node) (cs.zip r.1) (held tree'.node) := by
  obtain ⟨fuel, hfuel⟩ := (refines_files fl hnet hb hretries hg hU).runs hcs htree
  refine ⟨fuel, fun more hmore => ?_⟩
  obtain ⟨v, hruns, ⟨tree', rfl, ht'⟩, hlength⟩ := hfuel more hmore st t ⟨tree, rfl, ht⟩
  exact ⟨hlength, tree', ht', hruns.abstract held fun c v o v' => spec_of_steps hU c v o v'⟩

/-- **On careful keys an `FTPBlob` with a server of files is a flat store that never fails.** There is
enough fuel for every run of calls, of either class, over any network that delivers; then each call
answers from what was on the server and what the calls before it stored and deleted, and in the end
this is what the server holds. -/
theorem files_flat {tree : RemoteTree} {st : State} {t : Session ServerState N}
    (htree : Kept U tree.node) (ht : Serving srv b g tree st t) {cs : List Call}
    (hcs : ∀ c ∈ cs, Careful srv fl U c) :
    ∃ fuel, ∀ more, fuel ≤ more →
      let r := Program.runCalls (session srv.keeper net) (fl.backend b more).perform cs st t
      r.1.length = cs.length ∧ Consistent noFailures (held tree.node) (cs.zip r.1) ∧
        held r.2.2.peer.tree.node = contents (held tree.node) (writes (cs.zip r.1)) := by
  obtain ⟨fuel, hfuel⟩ := runs_files fl hnet hb hretries hg hU htree ht hcs
  refine ⟨fuel, fun more hmore => ?_⟩
  obtain ⟨hlength, tree', ht', hruns⟩ := hfuel more hmore
  obtain ⟨hconsistent, hheld⟩ := runs_iff.mp hruns
  refine ⟨hlength, hconsistent, ?_⟩
  rw [ht'.tree_eq]
  exact hheld

end Runs

/-- The keys of `FileBlob.carefulKeys` have names that a listing can show. -/
theorem keySet_carefulKeys : KeySet FileBlob.carefulKeys where
  toKeySet := FileBlob.keySet_careful
  named := by
    have ha : EntryName ['a'] := entryName_of_decide (by decide)
    have hd : EntryName ['d'] := entryName_of_decide (by decide)
    rintro key (rfl | rfl) x hx
    · obtain rfl : x = ['a'] := List.mem_singleton.mp hx
      exact ha
    · have hnames : File.names ['d', '/', 'a'] = [['d'], ['a']] := by decide
      rw [hnames] at hx
      rcases List.mem_pair.mp hx with rfl | rfl
      · exact hd
      · exact ha

theorem kept_empty (U : Str → Prop) : Kept U (FileTree.empty : RemoteTree).node where
  root := rfl
  files p d h := by
    cases p <;> cases h
  dirs p hne h := by
    cases p with
    | nil => exact absurd rfl hne
    | cons x q => cases h

/-- There is no key in the empty set, so no key of a file. -/
theorem held_empty : held (FileTree.empty : RemoteTree).node = FlatStore.empty := by
  funext key
  apply Option.eq_none_iff_forall_ne_some.mpr
  intro d hd
  obtain ⟨key', hfalse, -⟩ := (kept_empty fun _ => False).files _ d (held_eq_some_iff.mp hd)
  exact hfalse

theorem listable_carefulKeys : Listable FileBlob.carefulKeys ['d', '/'] where
  dir := .inr ⟨[['d']], by decide, by simp [IsPart], rfl⟩
  notKey := by rintro key (rfl | rfl) <;> decide
  direct := by
    rintro key (rfl | rfl) h
    · exact absurd h (by decide)
    · rfl

/-- Two files are stored, one is deleted and is no longer there, the directory of the other is listed;
the connection is closed, and opened again for the last call. -/
theorem files_flat_two :
    let cs : List Call := [.put ['a'] [1], .put ['d', '/', 'a'] [2, 3], .delete ['a'], .get ['a'],
      .scan ['d', '/'], .exists' ['d', '/', 'a'], .close, .get ['d', '/', 'a']]
    ∃ fuel, ∀ more, fuel ≤ more →
      let r := Program.runCalls (session (plainServer [] 0).keeper prompt)
        (Flavour.sync.backend (knowing {}) more).perform cs (knowing {}).start
        (.start (idleServer .empty) ())
      r.1.length = cs.length ∧
        Consistent noFailures (held (FileTree.empty : RemoteTree).node) (cs.zip r.1) ∧
        held r.2.2.peer.tree.node =
          contents (held (FileTree.empty : RemoteTree).node) (writes (cs.zip r.1)) := by
  intro cs
  have ha : FileBlob.carefulKeys ['a'] := .inl rfl
  have hda : FileBlob.carefulKeys ['d', '/', 'a'] := .inr rfl
  have hcs : ∀ c ∈ cs, Careful (plainServer [] 0) .sync FileBlob.carefulKeys c := by
    simp only [cs, List.forall_mem_cons]
    exact ⟨.put ha (by decide), .put hda (by decide), .delete ha, .get ha, .scan listable_carefulKeys,
      .exists' hda, .close rfl, .get hda, fun c hc => absurd hc List.not_mem_nil⟩
  have hplain : LoginPlain (knowing {}) :=
    ⟨loginPlain_sized.user, loginPlain_sized.password, loginPlain_sized.root⟩
  exact files_flat .sync prompt_ne_none hplain (by decide) (within_supports _) keySet_carefulKeys
    (kept_empty _) (serving_start _ _ _ _) hcs

end GufoBlob.Ftp
