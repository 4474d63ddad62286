import GufoBlob.Ftp.PlainServer
import GufoBlob.Ftp.Walk

/-!
# Looking a key up

What `exists` answers on a server of files, by `SIZE`, by `MLST` or by a scan, depending on what the
server is known to support.

`exists_iff` — whether a file is stored, except for a directory that is only asked for with `MLST`
and whose facts look like those of a file.
-/

namespace GufoBlob.Ftp

open Text Data Interaction Program FTPBlob

/-- A command whose flag is set is known to the server. -/
structure Within (g f : FTPFeatures) : Prop where
  size : g.supportsSize = true → f.supportsSize = true
  mlst : g.supportsMlst = true → f.supportsMlst = true
  mlsd : g.supportsMlsd = true → f.supportsMlsd = true

/-- `type=file` is somewhere in the reply. -/
def looksLikeFile (r : Reply) : Bool := r.lines.any fun line => decide (typeFile <:+: line)

/-- What the facts of a path say. -/
def factsSay (srv : FileServer) (tree : RemoteTree) (path : List Str) : Bool :=
  match tree.node path with
  | some n => looksLikeFile (srv.facts path (n = .dir))
  | none => false

/-- What `exists` answers. -/
def found (srv : FileServer) (g : FTPFeatures) (tree : RemoteTree) (path : List Str) : Bool :=
  if !g.supportsSize && g.supportsMlst then factsSay srv tree path else tree.isFile path

/-! ## The three ways -/

section Ways

variable {N : Type} {net : N → Option Nat × N} {srv : FileServer} {fl : Flavour} {fuel : Nat}
  {g : FTPFeatures} {tree : RemoteTree} {b : FTPBlob} {path : List Str}
  (hnet : ∀ n, (net n).1 ≠ none) (hfuel : srv.limit < fuel) (hg : Within g srv.supports)
  (hpath : ∀ x ∈ path, EntryName x)

include hpath

theorem key_plain {verb : Str} (hverb : '\n' ∉ verb) : ¬ BreaksLine (verb ++ joinSlash path) := by
  apply not_breaksLine_of_notMem
  have hjoin : '\n' ∉ joinSlash path :=
    notMem_joinSlash (by decide) fun x hx hmem => (hpath x hx).space _ hmem (by decide)
  simp [hverb, hjoin]

include hnet hfuel hg

theorem ends_sizeAnswer :
    EndsWith (session srv.peer net) (Serving srv b g tree)
      (if g.supportsSize then some (tree.isFile path) else none)
      (sizeAnswer fl.dialect fuel (fl.connection b fuel) g (joinSlash path)) := by
  unfold sizeAnswer
  split
  · next hsize =>
      have hplain : ¬ BreaksLine (sizeCmd (joinSlash path)) := key_plain hpath (by decide)
      have hserve : ∀ p, srv.serve p (encode (sizeCmd (joinSlash path))) =
          if p.tree.isFile path then srv.tell .sized (by simp) p
          else srv.tell .refused (by simp) p := by
        intro p
        have hobey := srv.serve_path (show ' ' ∉ "SIZE".toList by decide) rfl
          (fun x hx => (hpath x hx).isPart) p
        exact hobey.trans (if_pos (hg.size hsize))
      cases hfile : tree.isFile path with
      | true =>
          apply ends_bind (ends_told hnet hfuel hplain fun p hp => by
            rw [hserve p, hp, if_pos hfile])
          rintro ⟨code, lines⟩ (rfl : code = sizeOk)
          exact ends_pure rfl
      | false =>
          apply ends_bind (ends_told hnet hfuel hplain fun p hp => by
            rw [hserve p, hp, if_neg (by simp [hfile])])
          rintro ⟨code, lines⟩ (rfl : code = notFound)
          exact ends_pure rfl
  · exact ends_pure rfl

theorem ends_mlstAnswer (hfacts : ∀ isDir, (srv.facts path isDir).bytes.length < fuel) :
    EndsWith (session srv.peer net) (Serving srv b g tree)
      (if g.supportsMlst then some (factsSay srv tree path) else none)
      (mlstAnswer fl.dialect fuel (fl.connection b fuel) g (joinSlash path)) := by
  unfold mlstAnswer
  split
  · next hmlst =>
      have hplain : ¬ BreaksLine (mlstCmd (joinSlash path)) := key_plain hpath (by decide)
      have hobey : ∀ p, srv.serve p (encode (mlstCmd (joinSlash path))) =
          match p.tree.node path with
          | some n => (.final (srv.facts path (n = .dir)) (srv.facts_final path _), p)
          | none => srv.tell .refused (by simp) p := by
        intro p
        have hkey := srv.serve_path (show ' ' ∉ "MLST".toList by decide) rfl
          (fun x hx => (hpath x hx).isPart) p
        exact hkey.trans (if_pos (hg.mlst hmlst))
      unfold factsSay
      cases hnode : tree.node path with
      | some n =>
          -- 250, and the facts of what is there
          have hserve : ∀ p : ServerState, p.tree = tree →
              srv.serve p (encode (mlstCmd (joinSlash path))) =
                (.final (srv.facts path (n = .dir)) (srv.facts_final path _), p) := by
            rintro p rfl
            rw [hobey p]
            simp only [hnode]
          apply ends_bind (ends_answered hnet hfuel hplain _ (hfacts _) hserve)
          rintro ⟨code, lines⟩ heq
          obtain ⟨rfl, rfl⟩ := Prod.mk.inj heq
          dsimp only
          rw [if_pos (srv.facts_code _ _)]
          exact ends_pure rfl
      | none =>
          -- 550
          have hserve : ∀ p : ServerState, p.tree = tree →
              srv.serve p (encode (mlstCmd (joinSlash path))) = srv.tell .refused (by simp) p := by
            rintro p rfl
            rw [hobey p]
            simp only [hnode]
          apply ends_bind (ends_told hnet hfuel hplain hserve)
          rintro ⟨code, lines⟩ (rfl : code = notFound)
          exact ends_pure rfl
  · exact ends_pure rfl

end Ways

/-- A scan for a key finds it when it is a file. -/
theorem any_walk {srv : FileServer} {l : Lister} {tree : RemoteTree} (hnamed : Named tree)
    {path : List Str} (hpath : ∀ x ∈ path, IsPart x) :
    ((srv.walk l tree path []).any fun key => key = joinSlash path) = tree.isFile path := by
  rw [Bool.eq_iff_iff, List.any_eq_true]
  constructor
  · rintro ⟨key, hkey, heq⟩
    obtain ⟨q, hq, rfl, -⟩ := mem_walk_iff.mp hkey
    have hparts := hnamed.isPart_of_isFile hq
    rwa [← joinSlash_inj hparts hpath (of_decide_eq_true heq)]
  · intro hfile
    obtain ⟨n, hn⟩ : ∃ n, path.length = n + 1 := Nat.exists_eq_succ_of_ne_zero
      (mt List.length_eq_zero_iff.mp (FileTree.ne_nil_of_isFile hfile))
    have htake : path = [] ++ path.take (n + 1) := by rw [← hn, List.take_length, List.nil_append]
    exact ⟨_, mem_walk_iff.mpr ⟨path, hfile, rfl, .inl ⟨n, by omega, htake⟩⟩, decide_eq_true rfl⟩

/-! ## The answer -/

/-- `exists` answers by the first way that the server is known to support. -/
theorem ends_exists {N : Type} {net : N → Option Nat × N} {srv : FileServer} {fl : Flavour}
    {fuel : Nat} {b : FTPBlob} {g : FTPFeatures} {tree : RemoteTree} {path : List Str}
    (hnet : ∀ n, (net n).1 ≠ none) (hfuel : srv.limit < fuel) (hnamed : Named tree)
    (hg : Within g srv.supports) (hpath : ∀ x ∈ path, EntryName x)
    (hlistings : ∀ n, (srv.listing (listerOf g) tree (path.take n)).length < fuel)
    (hfacts : ∀ isDir, (srv.facts path isDir).bytes.length < fuel) :
    EndsWith (session srv.peer net) (Serving srv b g tree) (found srv g tree path)
      (FTPBlob.exists' fl.dialect fuel (fl.connection b fuel) (joinSlash path)) := by
  have hparts : parts (joinSlash path) = path := components_joinSlash fun x hx => (hpath x hx).isPart
  have hscan : Emits (session srv.peer net) (Serving srv b g tree)
      (srv.walk (listerOf g) tree path [])
      (scan fl.dialect fuel (fl.connection b fuel) (joinSlash path)) := by
    have hemits : Emits (session srv.peer net) (Serving srv b g tree)
        (srv.walk (listerOf g) tree (parts (joinSlash path)) [])
        (scan fl.dialect fuel (fl.connection b fuel) (joinSlash path)) := by
      apply emits_scan hnet hfuel hnamed hg.mlsd
      intro n
      rw [hparts]
      exact hlistings n
    rwa [hparts] at hemits
  unfold FTPBlob.exists' found
  apply (ends_features hnet hfuel).bind
  apply (ends_sizeAnswer hnet hfuel hg hpath).bind
  cases hsize : g.supportsSize with
  | true => exact ends_pure rfl
  | false =>
      -- `SIZE` is not asked for, so `MLST` or the scan decides
      apply (ends_mlstAnswer hnet hfuel hg hpath hfacts).bind
      cases hmlst : g.supportsMlst with
      | true => exact ends_pure rfl
      | false =>
          have hany := hscan.any fun key => key = joinSlash path
          rwa [any_walk hnamed fun x hx => (hpath x hx).isPart] at hany

/-- With enough fuel, `exists` answers. -/
theorem answers_exists {N : Type} {net : N → Option Nat × N} {srv : FileServer} (fl : Flavour)
    {b : FTPBlob} {g : FTPFeatures} {tree : RemoteTree} {st : State} {t : Session ServerState N}
    {path : List Str} (hnet : ∀ n, (net n).1 ≠ none) (hnamed : Named tree)
    (hg : Within g srv.supports) (ht : Serving srv b g tree st t)
    (hpath : ∀ x ∈ path, EntryName x) :
    Answers srv net fl b st t (.exists' (joinSlash path)) (.bool (found srv g tree path)) := by
  -- the fuel is for the longest listing on the way, and for the facts of either kind
  obtain ⟨m, hm⟩ := exists_bound (fun q => (srv.listing (listerOf g) tree q).length) path
  refine ⟨srv.limit + m + (srv.facts path true).bytes.length +
    (srv.facts path false).bytes.length, fun fuel hfuel => ?_⟩
  have hfacts : ∀ isDir, (srv.facts path isDir).bytes.length < fuel := by
    rintro (_ | _) <;> omega
  have hexists : EndsWith (session srv.peer net) (Serving srv b g tree) (found srv g tree path)
      (FTPBlob.exists' fl.dialect fuel (fl.connection b fuel) (joinSlash path)) :=
    ends_exists hnet (by omega) hnamed hg hpath (fun n => (hm n).trans_lt (by omega)) hfacts
  have hanswer : EndsWith (session srv.peer net) (Serving srv b g tree)
      (Value.bool (found srv g tree path))
      ((fl.backend b fuel).perform (.exists' (joinSlash path))) := hexists.bind (ends_pure rfl)
  exact hanswer.run ht

/-- Facts are wrong about a directory that looks like a file, and about nothing else. -/
theorem found_iff {srv : FileServer} {g : FTPFeatures} {tree : RemoteTree} {path : List Str} :
    found srv g tree path = tree.isFile path ↔ ¬ (g.supportsSize = false ∧ g.supportsMlst = true ∧
      tree.isDir path = true ∧ looksLikeFile (srv.facts path true) = true) := by
  have hfile : looksLikeFile (srv.facts path false) = true := srv.facts_file path
  unfold found factsSay FileTree.isFile FileTree.isDir
  cases tree.node path with
  | none => simp
  | some n =>
      cases n with
      | dir => grind
      | file d => grind

/-- A directory looks like a file when its path does. -/
theorem looksLikeFile_plainFacts {path : List Str} (h : ¬ HasCrlf (factsLine path true)) :
    looksLikeFile (plainFacts path true) = true ↔ typeFile <:+: encode (joinSlash path) := by
  have hspace : 32 ∉ typeFile := by decide
  have hline : typeFile <:+: factsLine path true ↔ typeFile <:+: encode (joinSlash path) := by
    have hcut : factsLine path true = 32 :: typeDir ++ [59] ++ 32 :: encode (joinSlash path) :=
      (List.append_assoc (32 :: typeDir) [59] _).symm
    rw [hcut, infix_append_cons_iff hspace]
    exact or_iff_right (by decide)
  have hfirst : ¬ typeFile <:+: line "250-." := by decide
  have hlast : ¬ typeFile <:+: line "250 ." := by decide
  unfold looksLikeFile
  rw [lines_plainFacts h]
  simp [hline, hfirst, hlast]

/-- **`exists` answers whether a file is stored**, whatever the features are, unless it asks with
`MLST` for a directory that looks like a file. -/
theorem exists_iff {N : Type} {net : N → Option Nat × N} {srv : FileServer} (fl : Flavour)
    {b : FTPBlob} {g : FTPFeatures} {tree : RemoteTree} {st : State} {t : Session ServerState N}
    {path : List Str} (hnet : ∀ n, (net n).1 ≠ none) (hnamed : Named tree)
    (hg : Within g srv.supports) (ht : Serving srv b g tree st t)
    (hpath : ∀ x ∈ path, EntryName x) :
    Answers srv net fl b st t (.exists' (joinSlash path)) (.bool (tree.isFile path)) ↔
      ¬ (g.supportsSize = false ∧ g.supportsMlst = true ∧ tree.isDir path = true ∧
        looksLikeFile (srv.facts path true) = true) := by
  have hanswer := answers_exists fl hnet hnamed hg ht hpath
  rw [← found_iff]
  constructor
  · intro h
    exact Value.bool.inj (hanswer.unique h)
  · intro h
    rwa [← h]

/-- A directory whose name looks like a fact. -/
def factsDir : RemoteTree :=
  FileTree.empty.insert [] "type=file".toList .dir isDir_emptyTree (by decide)

theorem entryName_typeFile : EntryName "type=file".toList := entryName_of_decide (by decide)

theorem named_factsDir : Named factsDir := named_empty.insert entryName_typeFile [] _ rfl rfl

theorem within_supports (g : FTPFeatures) : Within g ⟨true, true, true⟩ :=
  ⟨fun _ => rfl, fun _ => rfl, fun _ => rfl⟩

/-- With a scan, the directory is not found. -/
theorem exists_factsDir :
    Answers (plainServer [] 0) prompt .sync (knowing {}) (knowing {}).start
      (.start (idleServer factsDir) ()) (.exists' (joinSlash ["type=file".toList])) (.bool false) :=
  (exists_iff .sync prompt_ne_none named_factsDir (within_supports _) (serving_start _ _ _ _)
    (by simpa using entryName_typeFile)).mpr (by simp)

/-- With `MLST`, it is found. -/
theorem not_exists_factsDir :
    Answers (plainServer [] 0) prompt .sync (knowing { supportsMlst := true })
      (knowing { supportsMlst := true }).start (.start (idleServer factsDir) ())
      (.exists' (joinSlash ["type=file".toList])) (.bool true) ∧
    factsDir.isFile ["type=file".toList] = false := by
  constructor
  · exact answers_exists .sync prompt_ne_none named_factsDir (within_supports _)
      (serving_start _ _ _ _) (by simpa using entryName_typeFile)
  · rfl

end GufoBlob.Ftp
