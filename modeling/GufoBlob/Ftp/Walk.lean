import GufoBlob.Ftp.Serving

/-!
# Scanning a tree

`_scan` splits its prefix into parts and follows them down from the directory of the login. `walk`
is what it yields on a server of files, as a function of the tree.

* `emits_scan` — it is.
* `mem_walk_iff` — a file that one of the parts names ends the walk, and otherwise the files that
  are directly in the directory of the last part are yielded.
-/

namespace GufoBlob.Ftp

open Text Data Interaction Program FTPBlob

/-- The names in the tree are names of a listing. -/
def Named (tree : RemoteTree) : Prop := ∀ path x, tree.node (path ++ [x]) ≠ none → EntryName x

namespace FileServer

/-- The keys that are yielded below the directory `path`; `rest` is what is left of the prefix. -/
def walk (srv : FileServer) (l : Lister) (tree : RemoteTree) : List Str → List Str → List Str
  | [], path =>
      (srv.entries l tree path).flatMap fun e =>
        if e.2 then [] else [joinSlash (path ++ [e.1])]
  | part :: rest, path =>
      (srv.entries l tree path).flatMap fun e =>
        if e.1 = part then
          if e.2 then srv.walk l tree rest (path ++ [e.1]) else [joinSlash (path ++ [e.1])]
        else []

end FileServer

/-! ## Names and paths -/

theorem EntryName.isPart {x : Str} (h : EntryName x) : IsPart x := ⟨h.ne_nil, h.slash⟩

/-- The names on the way to what is in the tree. -/
theorem Named.entryName {tree : RemoteTree} (h : Named tree) {path : List Str}
    (hpath : tree.node path ≠ none) : ∀ x ∈ path, EntryName x := by
  intro x hx
  obtain ⟨l, r, rfl⟩ := List.append_of_mem hx
  apply h l x
  by_cases hr : r = []
  · subst hr
    exact hpath
  · have hpre : l ++ [x] <+: l ++ x :: r := ⟨r, by simp⟩
    have hne : l ++ [x] ≠ l ++ x :: r := by
      simpa using Ne.symm hr
    rw [FileTree.node_above hpre hne hpath]
    simp

theorem Named.isPart {tree : RemoteTree} (h : Named tree) {path : List Str}
    (hpath : tree.node path ≠ none) : ∀ x ∈ path, IsPart x :=
  fun x hx => (h.entryName hpath x hx).isPart

theorem Named.isPart_of_isFile {tree : RemoteTree} (h : Named tree) {path : List Str}
    (hpath : tree.isFile path = true) : ∀ x ∈ path, IsPart x := by
  obtain ⟨d, hd⟩ := FileTree.isFile_iff.mp hpath
  exact h.isPart (by simp [hd])

theorem named_empty : Named .empty := by
  intro path x h
  exact absurd (if_neg (by simp)) h

theorem Named.insert {tree : RemoteTree} (h : Named tree) {x : Str} (hx : EntryName x)
    (p : List Str) (n : Node Bytes) (hdir hnot) : Named (tree.insert p x n hdir hnot) := by
  intro path y hy
  rw [FileTree.node_insert] at hy
  split at hy
  · next heq =>
      obtain ⟨-, hyx⟩ := List.append_inj' heq rfl
      rwa [List.singleton_inj.mp hyx]
  · exact h path y hy

/-- The names of a path that is made of parts. -/
theorem components_joinSlash {path : List Str} (h : ∀ x ∈ path, IsPart x) :
    components (joinSlash path) = path := by
  unfold components
  by_cases hpath : path = []
  · subst hpath
    rfl
  · unfold joinSlash
    rw [List.splitOn_intercalate '/' (fun x hx => (h x hx).2) hpath, List.filter_eq_self]
    intro x hx
    simpa using (h x hx).1

/-- A command whose argument is a path of parts. -/
theorem FileServer.serve_path (srv : FileServer) {verb : Str} {v : Verb} (hspace : ' ' ∉ verb)
    (hv : verbs.lookup verb = some v) {path : List Str} (hpath : ∀ x ∈ path, IsPart x)
    (p : ServerState) :
    srv.serve p (encode (verb ++ ' ' :: joinSlash path)) = srv.obey p v path := by
  rw [FileServer.serve_command hspace hv, components_joinSlash hpath]

theorem joinSlash_inj {path path' : List Str} (h : ∀ x ∈ path, IsPart x)
    (h' : ∀ x ∈ path', IsPart x) (heq : joinSlash path = joinSlash path') : path = path' := by
  rw [← components_joinSlash h, heq, components_joinSlash h']

theorem notMem_joinSlash {c : Char} (hc : c ≠ '/') {path : List Str} (h : ∀ x ∈ path, c ∉ x) :
    c ∉ joinSlash path := by
  induction path with
  | nil => exact nofun
  | cons x path ih =>
      have hx := h x List.mem_cons_self
      have hpath := ih fun y hy => h y (List.mem_cons_of_mem x hy)
      cases path with
      | nil => simpa [joinSlash] using hx
      | cons y path =>
          unfold joinSlash at hpath ⊢
          rw [List.intercalate_cons_cons]
          simp [hx, hc, hpath]

/-! ## Entries -/

section Entries

variable {srv : FileServer} {l : Lister} {tree : RemoteTree} {path : List Str} {e : Str × Bool}

theorem mem_entries_iff :
    e ∈ srv.entries l tree path ↔
      tree.node (path ++ [e.1]) ≠ none ∧ tree.isDir (path ++ [e.1]) = e.2 := by
  unfold FileServer.entries
  rw [(srv.order_perm l path _).mem_iff]
  exact FileTree.mem_entries

theorem Named.of_mem_entries (hnamed : Named tree) (he : e ∈ srv.entries l tree path) :
    EntryName e.1 := hnamed path e.1 (mem_entries_iff.mp he).1

/-- The names of a directory are distinct. -/
theorem pairwise_entries : (srv.entries l tree path).Pairwise fun e e' => e.1 ≠ e'.1 := by
  have hnodup := ((srv.order_perm l path _).map Prod.fst).nodup_iff.mpr (tree.nodup_entries path)
  exact List.pairwise_map.mp hnodup

/-- The lines of a listing are read back. -/
theorem splitlines_listing (hnamed : Named tree) :
    splitlines (srv.listing l tree path) =
      (srv.entries l tree path).map fun e => srv.line l path e.1 e.2 := by
  apply splitlines_frames
  intro line hline
  obtain ⟨e, he, rfl⟩ := List.mem_map.mp hline
  exact srv.line_oneLine l path e.1 e.2 (hnamed.of_mem_entries he)

end Entries

/-! ## Listing a directory -/

/-- The server knows the command. -/
def Offers (srv : FileServer) : Lister → Prop
  | .list => True
  | .mlsd => srv.supports.supportsMlsd = true

/-- Listing a directory is a download of its lines. -/
theorem serve_listing {srv : FileServer} {l : Lister} (hl : Offers srv l) {tree : RemoteTree}
    (hnamed : Named tree) {path : List Str} (hdir : tree.node path = some .dir) (p : ServerState)
    (hp : p.tree = tree) :
    srv.serve p (encode (listCmd l.verb (joinSlash path))) =
      srv.sendOut path (srv.listing l tree path) p := by
  subst hp
  have hparts : ∀ x ∈ path, IsPart x := hnamed.isPart (by simp [hdir])
  have hlist : srv.list l path p = srv.sendOut path (srv.listing l p.tree path) p := by
    unfold FileServer.list
    rw [if_pos (FileTree.isDir_iff.mpr hdir)]
  -- both commands list, since the server knows them
  have hobey : ∀ v, verbs.lookup l.verb = some v → srv.obey p v path = srv.list l path p := by
    intro v hv
    cases l with
    | list =>
        obtain rfl : Verb.list = v := Option.some.inj hv
        rfl
    | mlsd =>
        obtain rfl : Verb.mlsd = v := Option.some.inj hv
        exact if_pos hl
  obtain ⟨v, hv⟩ : ∃ v, verbs.lookup l.verb = some v := by
    cases l <;> exact ⟨_, rfl⟩
  have hspace : ' ' ∉ l.verb := by cases l <;> decide
  rw [← hlist, ← hobey v hv]
  unfold listCmd
  by_cases hpath : path = []
  · subst hpath
    exact FileServer.serve_verb hspace hv p
  · have hne : (joinSlash path).isEmpty = false := by
      simpa using joinSlash_ne_nil hpath hparts
    rw [hne, if_neg (by decide), srv.serve_path hspace hv hparts]

theorem listing_plain {tree : RemoteTree} (hnamed : Named tree) {path : List Str}
    (hpath : tree.node path ≠ none) (l : Lister) :
    ¬ BreaksLine (listCmd l.verb (joinSlash path)) := by
  apply not_breaksLine_of_notMem
  have hverb : '\n' ∉ l.verb := by cases l <;> decide
  have hjoin : '\n' ∉ joinSlash path := by
    apply notMem_joinSlash (by decide)
    exact fun x hx hmem => (hnamed.entryName hpath x hx).space _ hmem (by decide)
  unfold listCmd
  split
  · exact hverb
  · simp [hverb, hjoin]

section Scan

variable {N : Type} {net : N → Option Nat × N} {srv : FileServer} {fl : Flavour} {fuel : Nat}
  {g : FTPFeatures} {tree : RemoteTree} {b : FTPBlob} (hnet : ∀ n, (net n).1 ≠ none)
  (hfuel : srv.limit < fuel) (hnamed : Named tree)

include hnet hfuel hnamed

theorem ends_listData {l : Lister} (hl : Offers srv l) {path : List Str}
    (hdir : tree.node path = some .dir) (hlisting : (srv.listing l tree path).length < fuel) :
    EndsWith (session srv.peer net) (Serving srv b g tree) (some (srv.listing l tree path))
      (listData fl.dialect fuel (fl.connection b fuel) l.verb (joinSlash path)) := by
  have hpath : tree.node path ≠ none := by
    rw [hdir]
    simp
  apply EndsWith.tryCatch
  apply EndsWith.bind (ends_pasvCmd hnet hfuel (listing_plain hnamed hpath l)
    (serve_listing hl hnamed hdir) hlisting)
  exact ends_pure rfl

omit hnet hfuel in
/-- A loop over the lines of a listing is a loop over the entries. -/
theorem emits_lines {l : Lister} {path : List Str} {q : Str × Bool → FtpGen Unit}
    {k : Str × Bool → List Str}
    (hq : ∀ e ∈ srv.entries l tree path,
      Emits (session srv.peer net) (Serving srv b g tree) (k e) (q e)) :
    Emits (session srv.peer net) (Serving srv b g tree) ((srv.entries l tree path).flatMap k)
      (Program.forEach (splitlines (srv.listing l tree path)) fun line =>
        (Program.ofExcept (l.parser line)).bind q) := by
  rw [splitlines_listing hnamed]
  apply emits_forEach
  intro e he
  rw [srv.line_parsed l path e.1 e.2 (hnamed.of_mem_entries he)]
  exact hq e he

/-- What `list_dir` yields below a directory. -/
theorem emits_listDir {l : Lister} (hl : Offers srv l) {rest path : List Str}
    (hdir : tree.node path = some .dir)
    (hlisting : ∀ n, (srv.listing l tree (path ++ rest.take n)).length < fuel) :
    Emits (session srv.peer net) (Serving srv b g tree) (srv.walk l tree rest path)
      (listDir fl.dialect fuel (fl.connection b fuel) l.verb l.parser rest (joinSlash path)) := by
  have hpath : tree.node path ≠ none := by
    rw [hdir]
    simp
  have hhere : (srv.listing l tree path).length < fuel := by simpa using hlisting 0
  -- on the parts that are left: an entry with the name of the next one is gone into
  induction rest generalizing path with
  | nil =>
      have hparts := hnamed.isPart hpath
      unfold listDir FileServer.walk
      rw [rstrip_joinSlash hparts]
      apply emits_embed_bind (ends_listData hnet hfuel hnamed hl hdir hhere)
      apply emits_lines hnamed
      intro e he
      dsimp only
      rw [← joinSlash_concat hparts]
      split
      · exact emits_pure
      · exact emits_yield _
  | cons part rest ih =>
      have hparts := hnamed.isPart hpath
      unfold listDir FileServer.walk
      rw [rstrip_joinSlash hparts]
      apply emits_embed_bind (ends_listData hnet hfuel hnamed hl hdir hhere)
      apply emits_lines hnamed
      intro e he
      dsimp only
      rw [← joinSlash_concat hparts]
      split
      · next hpart =>
          split
          · next hisDir =>
              -- one level down, where the listings on the way are some of those here
              obtain ⟨hnode, hkind⟩ := mem_entries_iff.mp he
              rw [hisDir] at hkind
              have hbelow : ∀ n,
                  (srv.listing l tree (path ++ [e.1] ++ rest.take n)).length < fuel := by
                intro n
                have hn := hlisting (n + 1)
                rwa [List.take_succ_cons, ← hpart, List.append_cons] at hn
              exact ih (FileTree.isDir_iff.mp hkind) hbelow hnode (by simpa using hbelow 0)
          · exact emits_yield _
      · exact emits_pure

/-- The command that a scan uses. -/
def listerOf (g : FTPFeatures) : Lister := if g.supportsMlsd then .mlsd else .list

omit hnet hfuel hnamed in
theorem offers_listerOf (hg : g.supportsMlsd = true → srv.supports.supportsMlsd = true) :
    Offers srv (listerOf g) := by
  unfold listerOf
  split
  · next h => exact hg h
  · trivial

theorem emits_scan (hg : g.supportsMlsd = true → srv.supports.supportsMlsd = true) {pre : Str}
    (hlisting : ∀ n, (srv.listing (listerOf g) tree ((parts pre).take n)).length < fuel) :
    Emits (session srv.peer net) (Serving srv b g tree) (srv.walk (listerOf g) tree (parts pre) [])
      (scan fl.dialect fuel (fl.connection b fuel) pre) := by
  unfold scan
  apply emits_embed_bind (ends_features hnet hfuel)
  have hlistDir : Emits (session srv.peer net) (Serving srv b g tree)
      (srv.walk (listerOf g) tree (parts pre) []) (listDir fl.dialect fuel (fl.connection b fuel)
        (listerOf g).verb (listerOf g).parser (parts pre) []) :=
    emits_listDir hnet hfuel hnamed (offers_listerOf hg) (FileTree.node_nil tree)
      (by simpa using hlisting)
  unfold listerOf at hlistDir ⊢
  split
  · next h =>
      rw [if_pos h] at hlistDir
      exact hlistDir
  · next h =>
      rw [if_neg h] at hlistDir
      exact hlistDir

end Scan

/-- The parts of a prefix have finitely many listings on the way. -/
theorem exists_bound (f : List Str → Nat) (ps : List Str) : ∃ m, ∀ n, f (ps.take n) ≤ m := by
  induction ps generalizing f with
  | nil => exact ⟨f [], fun n => by simp⟩
  | cons x ps ih =>
      obtain ⟨m, hm⟩ := ih fun l => f (x :: l)
      refine ⟨max (f []) m, fun n => ?_⟩
      cases n with
      | zero => exact Nat.le_max_left _ _
      | succ n => exact (hm n).trans (Nat.le_max_right _ _)

/-- With enough fuel, the call returns the value. -/
def Answers {N : Type} (srv : FileServer) (net : N → Option Nat × N) (fl : Flavour) (b : FTPBlob)
    (st : State) (t : Session ServerState N) (c : Call) (v : Value) : Prop :=
  ∃ least, ∀ fuel, least < fuel →
    (((fl.backend b fuel).perform c).run (session srv.peer net) st t).1 = .ok v

section Answers

variable {N : Type} {srv : FileServer} {net : N → Option Nat × N} {fl : Flavour} {b : FTPBlob}
  {st : State} {t : Session ServerState N} {c : Call}

theorem Answers.unique {v v' : Value} (h : Answers srv net fl b st t c v)
    (h' : Answers srv net fl b st t c v') : v = v' := by
  obtain ⟨n, hn⟩ := h
  obtain ⟨n', hn'⟩ := h'
  have hok := hn (max n n' + 1) (by omega)
  have hok' := hn' (max n n' + 1) (by omega)
  exact Outcome.ok.inj (hok.symm.trans hok')

variable (fl) in
/-- A scan returns the keys of the walk. -/
theorem answers_scan {g : FTPFeatures} {tree : RemoteTree} (hnet : ∀ n, (net n).1 ≠ none)
    (hnamed : Named tree) (hg : g.supportsMlsd = true → srv.supports.supportsMlsd = true)
    (ht : Serving srv b g tree st t) (pre : Str) :
    Answers srv net fl b st t (.scan pre)
      (.keys (srv.walk (listerOf g) tree (parts pre) [])) := by
  obtain ⟨m, hm⟩ := exists_bound
    (fun path => (srv.listing (listerOf g) tree path).length) (parts pre)
  refine ⟨max srv.limit m, fun fuel hfuel => ?_⟩
  have hscan : Emits (session srv.peer net) (Serving srv b g tree)
      (srv.walk (listerOf g) tree (parts pre) []) (scan fl.dialect fuel (fl.connection b fuel) pre) :=
    emits_scan hnet (by omega) hnamed hg fun n => (hm n).trans_lt (by omega)
  have hkeys : EndsWith (session srv.peer net) (Serving srv b g tree)
      (Value.keys (srv.walk (listerOf g) tree (parts pre) []))
      ((fl.backend b fuel).perform (.scan pre)) := hscan.list.bind (ends_pure rfl)
  exact hkeys.run ht

end Answers

/-! ## What is yielded -/

theorem mem_walk_iff {srv : FileServer} {l : Lister} {tree : RemoteTree} {rest path : List Str}
    {key : Str} :
    key ∈ srv.walk l tree rest path ↔ ∃ q, tree.isFile q = true ∧ key = joinSlash q ∧
      ((∃ n < rest.length, q = path ++ rest.take (n + 1)) ∨ ∃ x, q = path ++ rest ++ [x]) := by
  -- an entry that is no directory is a file
  have hentry : ∀ {path : List Str} {x : Str},
      (x, false) ∈ srv.entries l tree path ↔ tree.isFile (path ++ [x]) = true := by
    intro path x
    rw [mem_entries_iff]
    unfold FileTree.isFile FileTree.isDir
    cases tree.node (path ++ [x]) with
    | none => simp
    | some n => cases n <;> simp
  have hbelow : ∀ {path q : List Str} {x : Str}, tree.isFile q = true → path ++ [x] <+: q →
      path ++ [x] ≠ q → (x, true) ∈ srv.entries l tree path := by
    intro path q x hq hpre hne
    obtain ⟨d, hd⟩ := FileTree.isFile_iff.mp hq
    have hdir := FileTree.node_above hpre hne (by rw [hd]; exact nofun)
    rw [mem_entries_iff]
    exact ⟨by simp [hdir], FileTree.isDir_iff.mpr hdir⟩
  induction rest generalizing path with
  | nil =>
      unfold FileServer.walk
      rw [List.mem_flatMap]
      constructor
      · rintro ⟨⟨x, d⟩, he, hkey⟩
        cases d with
        | true => cases hkey
        | false =>
            obtain rfl := List.mem_singleton.mp hkey
            exact ⟨_, hentry.mp he, rfl, .inr ⟨x, by simp⟩⟩
      · rintro ⟨q, hq, rfl, ⟨n, hn, -⟩ | ⟨x, rfl⟩⟩
        · exact absurd hn (Nat.not_lt_zero n)
        · rw [List.append_nil] at hq ⊢
          exact ⟨(x, false), hentry.mpr hq, List.mem_singleton.mpr rfl⟩
  | cons part rest ih =>
      unfold FileServer.walk
      rw [List.mem_flatMap]
      constructor
      · rintro ⟨⟨x, d⟩, he, hkey⟩
        dsimp only at hkey
        split at hkey
        · next hpart =>
            subst hpart
            cases d with
            | true =>
                obtain ⟨q, hq, rfl, ⟨n, hn, rfl⟩ | ⟨y, rfl⟩⟩ := ih.mp hkey
                · exact ⟨_, hq, rfl, .inl ⟨n + 1, Nat.succ_lt_succ hn, by simp⟩⟩
                · exact ⟨_, hq, rfl, .inr ⟨y, by simp⟩⟩
            | false =>
                obtain rfl := List.mem_singleton.mp hkey
                exact ⟨_, hentry.mp he, rfl, .inl ⟨0, Nat.succ_pos _, by simp⟩⟩
        · cases hkey
      · rintro ⟨q, hq, rfl, hcase⟩
        by_cases hend : q = path ++ [part]
        · subst hend
          exact ⟨(part, false), hentry.mpr hq, by simp⟩
        · have hdeeper : (∃ n < rest.length, q = path ++ [part] ++ rest.take (n + 1)) ∨
              ∃ x, q = path ++ [part] ++ rest ++ [x] := by
            rcases hcase with ⟨n, hn, rfl⟩ | ⟨x, rfl⟩
            · cases n with
              | zero => exact absurd (by simp) hend
              | succ n => exact .inl ⟨n, Nat.lt_of_succ_lt_succ hn, by simp⟩
            · exact .inr ⟨x, by simp⟩
          have hpre : path ++ [part] <+: q := by
            rcases hdeeper with ⟨n, -, rfl⟩ | ⟨x, rfl⟩
            · exact List.prefix_append _ _
            · rw [List.append_assoc]
              exact List.prefix_append _ _
          refine ⟨(part, true), hbelow hq hpre (Ne.symm hend), ?_⟩
          rw [if_pos rfl, if_pos rfl]
          exact ih.mpr ⟨q, hq, rfl, hdeeper⟩

/-- No key is yielded twice. -/
theorem nodup_walk {srv : FileServer} {l : Lister} {tree : RemoteTree} (hnamed : Named tree)
    (rest path : List Str) : (srv.walk l tree rest path).Nodup := by
  induction rest generalizing path with
  | nil =>
      unfold FileServer.walk
      rw [List.nodup_flatMap]
      constructor
      · intro e _
        split
        · exact List.nodup_nil
        · exact List.nodup_singleton _
      · refine List.Pairwise.imp_of_mem (fun {e e'} he he' hne => ?_) pairwise_entries
        intro key hkey hkey'
        have hparts := hnamed.isPart (mem_entries_iff.mp he).1
        have hparts' := hnamed.isPart (mem_entries_iff.mp he').1
        have heq : joinSlash (path ++ [e.1]) = joinSlash (path ++ [e'.1]) := by grind
        have happend := joinSlash_inj hparts hparts' heq
        exact hne (by simpa using happend)
  | cons part rest ih =>
      unfold FileServer.walk
      rw [List.nodup_flatMap]
      constructor
      · intro e _
        split
        · split
          · exact ih _
          · exact List.nodup_singleton _
        · exact List.nodup_nil
      · refine List.Pairwise.imp (fun {e e'} hne => ?_) pairwise_entries
        intro key hkey hkey'
        -- at most one entry has the name of the part
        grind

end GufoBlob.Ftp
