import GufoBlob.OpenBlob
import GufoBlob.Uri.Compose
import Mathlib.Data.List.DropRight

/-!
# Opening a directory by its path

`open_blob` with a path instead of a URL. A path without a colon selects the file backend, whose
`parse_url` takes the path apart as a URL: `left` is what it keeps as the root, and `bare` says which
characters of the path these are. The blob has the directory as its root when `left` names it too
(`opens_iff`).

A path names a directory by a walk over its names. What `urlparse` removes is part of some name, or a
name of its own, so without `..` in it a path that loses something leads elsewhere
(`literal_of_walk`).
-/

namespace GufoBlob

open Text Data Interaction Program Uri

namespace File

/-! ## Walking -/

/-- Where an absolute path leads. -/
def walk (s : Str) : Path := (names s).foldl realpathStep []

theorem resolve_eq_walk {s : Str} (h : '\x00' ∉ s) : resolve [] s = .ok (walk s) := by
  unfold resolve parts walk
  rw [if_neg h, foldl_parts]

theorem walk_append (a b : Str) : walk (a ++ '/' :: b) = (names b).foldl realpathStep (walk a) := by
  unfold walk names
  rw [List.splitOn_append_cons_self, List.foldl_append]

/-- A path that is resolved has no null character in it. -/
theorem walk_of_resolve {s : Str} {q : Path} (h : resolve [] s = .ok q) :
    '\x00' ∉ s ∧ q = walk s := by
  have hnul : '\x00' ∉ s := by
    intro hmem
    rw [resolve, if_pos hmem] at h
    cases h
  rw [resolve_eq_walk hnul] at h
  exact ⟨hnul, (Except.ok.inj h).symm⟩

/-- A step stays, goes up, or goes down. -/
theorem realpathStep_cases (p : Path) (c : Str) :
    realpathStep p c = p ∨ realpathStep p c = p.dropLast ∨
      ∃ h : IsComponent c, realpathStep p c = p ++ [⟨c, h⟩] := by
  unfold realpathStep
  split
  · exact .inr (.inl rfl)
  · split
    · next h => exact .inr (.inr ⟨h, rfl⟩)
    · exact .inl rfl

/-- Where the walk leads is spelled with names of the path. -/
theorem mem_foldl {l : List Str} {p : Path} {x : Component} (hx : x ∈ l.foldl realpathStep p) :
    x ∈ p ∨ x.1 ∈ l := by
  induction l generalizing p with
  | nil => exact .inl hx
  | cons c l ih =>
      rcases ih hx with h | h
      · rcases realpathStep_cases p c with hstep | hstep | ⟨hc, hstep⟩
        · exact .inl (hstep ▸ h)
        · rw [hstep] at h
          exact .inl (List.mem_of_mem_dropLast h)
        · rw [hstep] at h
          rcases List.mem_append.mp h with h | h
          · exact .inl h
          · obtain rfl := List.mem_singleton.mp h
            exact .inr (by simp)
      · exact .inr (by simp [h])

/-- Each name leads at most one step down. -/
theorem length_foldl_le (l : List Str) (p : Path) :
    (l.foldl realpathStep p).length ≤ p.length + l.countP (fun c => IsComponent c) := by
  induction l generalizing p with
  | nil => simp
  | cons c l ih =>
      have hrest := ih (realpathStep p c)
      rw [List.foldl_cons, List.countP_cons]
      rcases realpathStep_cases p c with hstep | hstep | ⟨hc, hstep⟩
      · rw [hstep] at hrest ⊢
        omega
      · rw [hstep] at hrest ⊢
        rw [List.length_dropLast] at hrest
        omega
      · rw [hstep] at hrest ⊢
        simp [hc] at hrest ⊢
        omega

/-- Without `..` nothing is left again. -/
theorem foldl_plain {l : List Str} (hl : ['.', '.'] ∉ l) (p : Path) :
    p <+: l.foldl realpathStep p ∧
      (l.foldl realpathStep p).length = p.length + l.countP (fun c => IsComponent c) ∧
      ∀ c, ∀ h : IsComponent c, c ∈ l → ⟨c, h⟩ ∈ l.foldl realpathStep p := by
  induction l generalizing p with
  | nil => simp
  | cons c l ih =>
      have hfirst : c ≠ ['.', '.'] := by
        rintro rfl
        exact hl (by simp)
      have hrest : ['.', '.'] ∉ l := fun h => hl (by simp [h])
      obtain ⟨hpre, hlen, hmem⟩ := ih hrest (realpathStep p c)
      rw [List.foldl_cons, List.countP_cons]
      by_cases hc : IsComponent c
      · rw [realpathStep_component p hc] at hpre hlen hmem ⊢
        refine ⟨(List.prefix_append p _).trans hpre, by simp [hlen, hc]; omega, ?_⟩
        intro d hd hdl
        rcases List.mem_cons.mp hdl with rfl | hdl
        · exact hpre.subset (by simp)
        · exact hmem d hd hdl
      · have hstay : realpathStep p c = p := by
          unfold realpathStep
          rw [if_neg hfirst, dif_neg hc]
        rw [hstay] at hpre hlen hmem ⊢
        refine ⟨hpre, by simp [hlen, hc], ?_⟩
        intro d hd hdl
        rcases List.mem_cons.mp hdl with rfl | hdl
        · exact absurd hd hc
        · exact hmem d hd hdl

/-- A character of a path that is no slash is in a name. -/
theorem exists_mem_names {s : Str} {c : Char} (hc : c ∈ s) (hne : c ≠ '/') :
    ∃ n ∈ names s, c ∈ n := by
  have hflat : c ∈ (names s).flatten := by
    unfold names
    rw [flatten_splitOn, List.mem_filter]
    exact ⟨hc, by simpa using hne⟩
  simpa using List.mem_flatten.mp hflat

theorem mem_of_mem_names {s n : Str} {c : Char} (hn : n ∈ names s) (hc : c ∈ n) : c ∈ s := by
  have hflat : c ∈ (names s).flatten := List.mem_flatten.mpr ⟨n, hn, hc⟩
  unfold names at hflat
  rw [flatten_splitOn] at hflat
  exact List.mem_of_mem_filter hflat

end File

namespace FileBlob

open File

/-! ## What is left of a path -/

/-- The root that `parse_url` finds in a path. -/
def left (p : Str) : Str := if (parsed p).path.isEmpty then ['/'] else (parsed p).path

/-- The path without the characters that `urlsplit` removes. -/
def kept (p : Str) : Str := p.filter fun c => !isUnsafe c

/-- Up to the query or the fragment. -/
def cut (s : Str) : Str := (partition '?' (partition '#' s).1).1

variable {p : Str}

theorem head?_kept (habs : p.head? = some '/') : (kept p).head? = some '/' := by
  cases p with
  | nil => simp at habs
  | cons c p =>
      obtain rfl : c = '/' := by simpa using habs
      rfl

/-- A path without a colon has no scheme. -/
theorem split_path (habs : p.head? = some '/') (hcolon : ':' ∉ p) :
    (split p).scheme = [] ∧ (split p).netloc = (splitNetloc (kept p)).1 ∧
      (split p).path = cut (splitNetloc (kept p)).2 := by
  have hstrip : lstrip isC0OrSpace p = p := by
    cases p with
    | nil => rfl
    | cons c p =>
        obtain rfl : c = '/' := by simpa using habs
        rfl
  have hkept : ':' ∉ kept p := fun h => hcolon (List.mem_of_mem_filter h)
  have hscheme : splitScheme (kept p) = ([], kept p) := by
    unfold splitScheme
    rw [partition_of_notMem hkept]
    cases kept p <;> rfl
  unfold split cut
  rw [hstrip]
  dsimp only
  rw [← kept, hscheme]
  exact ⟨rfl, rfl, rfl⟩

theorem path_parsed (habs : p.head? = some '/') (hcolon : ':' ∉ p) :
    (parsed p).scheme = [] ∧ (parsed p).path = splitParams (cut (splitNetloc (kept p)).2) := by
  obtain ⟨hscheme, -, hpath⟩ := split_path habs hcolon
  have hmem : ([] : Str) ∈ usesParams := by decide
  unfold parsed
  rw [if_pos (by rw [hscheme]; exact hmem)]
  exact ⟨hscheme, by rw [hpath]⟩

theorem mem_cut {s : Str} {c : Char} (h : c ∈ cut s) : c ∈ s ∧ endsPath c = false := by
  obtain ⟨hmem, hmark⟩ := mem_partition h
  obtain ⟨hs, hhash⟩ := mem_partition hmem
  exact ⟨hs, by simp [endsPath, hmark, hhash]⟩

theorem cut_of_clean {s : Str} (hs : Clean s) : cut s = s := by
  have hhash : '#' ∉ s := fun h => absurd (hs _ h).1 (by decide)
  have hmark : '?' ∉ s := fun h => absurd (hs _ h).1 (by decide)
  unfold cut
  rw [partition_of_notMem hhash, partition_of_notMem hmark]

/-- An authority, or none, is taken off the front. -/
theorem splitNetloc_cases (s : Str) :
    splitNetloc s = ([], s) ∨ ∃ n rest, s = '/' :: '/' :: (n ++ rest) ∧ splitNetloc s = (n, rest) ∧
      (∀ c ∈ n, endsAuthority c = false) ∧ ∀ c, rest.head? = some c → endsAuthority c = true := by
  fun_cases splitNetloc s with
  | case1 rest =>
      refine .inr ⟨_, _, ?_, List.span_eq_takeWhile_dropWhile _ _, ?_, ?_⟩
      · rw [List.takeWhile_append_dropWhile]
      · intro c hc
        simpa [endsAuthority] using List.mem_takeWhile_imp hc
      · intro c hc
        have hstop := List.head?_dropWhile_not (fun c => !(c = '/' || c = '?' || c = '#')) rest
        rw [hc] at hstop
        simp only [Bool.not_eq_false'] at hstop
        exact hstop
  | case2 => exact .inl rfl

theorem mem_splitNetloc {s : Str} {c : Char} (hc : c ∈ (splitNetloc s).2) : c ∈ s := by
  rcases splitNetloc_cases s with h | ⟨n, rest, hs, h, -, -⟩
  · rwa [h] at hc
  · rw [h] at hc
    rw [hs]
    simp only [List.mem_cons, List.mem_append]
    exact .inr (.inr (.inr hc))

/-- `_splitparams` on a path. -/
theorem splitParams_append (dir : Str) {name : Str} (hname : '/' ∉ name) :
    splitParams (dir ++ '/' :: name) = dir ++ '/' :: (partition ';' name).1 := by
  unfold splitParams
  rw [rpartition_append hname]

/-- A path is cut at its last slash. -/
theorem exists_name {s : Str} (habs : s.head? = some '/') :
    ∃ dir name, s = dir ++ '/' :: name ∧ '/' ∉ name ∧ rpartition '/' s = (some dir, name) := by
  rcases rpartition_cases '/' s with ⟨hno, -⟩ | ⟨dir, name, hs, hname, hcut⟩
  · exact absurd (List.mem_of_mem_head? habs) hno
  · exact ⟨dir, name, hs, hname, hcut⟩

/-- What is cut off leaves a path from the root, or nothing. -/
theorem cut_cases (habs : p.head? = some '/') :
    cut (splitNetloc (kept p)).2 = [] ∨ (cut (splitNetloc (kept p)).2).head? = some '/' := by
  have hcut : ∀ r, (cut ('/' :: r)).head? = some '/' := by
    intro r
    simp [cut, partition_fst]
  have hfirst := head?_kept habs
  rcases splitNetloc_cases (kept p) with h | ⟨n, rest, -, h, -, hrest⟩
  · rw [h]
    cases hk : kept p with
    | nil => simp [hk] at hfirst
    | cons c r =>
        obtain rfl : c = '/' := by simpa [hk] using hfirst
        exact .inr (hcut r)
  · rw [h]
    cases rest with
    | nil => exact .inl rfl
    | cons c r =>
        have hc := hrest c rfl
        simp only [endsAuthority, Bool.or_eq_true, decide_eq_true_eq] at hc
        rcases hc with (rfl | rfl) | rfl
        · exact .inr (hcut r)
        · exact .inl (by simp [cut, partition_fst])
        · exact .inl (by simp [cut, partition_fst])

/-- What is left is the path up to its parameters, or the root. -/
theorem left_cases (habs : p.head? = some '/') (hcolon : ':' ∉ p) :
    (cut (splitNetloc (kept p)).2 = [] ∧ left p = ['/']) ∨
      ∃ dir name, cut (splitNetloc (kept p)).2 = dir ++ '/' :: name ∧ '/' ∉ name ∧
        left p = dir ++ '/' :: (partition ';' name).1 := by
  have hpath := (path_parsed habs hcolon).2
  unfold left
  rcases cut_cases habs with h | h
  · rw [hpath, h]
    exact .inl ⟨rfl, rfl⟩
  · obtain ⟨dir, name, hsplit, hname, -⟩ := exists_name h
    refine .inr ⟨dir, name, hsplit, hname, ?_⟩
    rw [hpath, hsplit, splitParams_append dir hname]
    simp

theorem head?_left (habs : p.head? = some '/') (hcolon : ':' ∉ p) : (left p).head? = some '/' := by
  rcases left_cases habs hcolon with ⟨-, h⟩ | ⟨dir, name, hsplit, -, h⟩
  · rw [h]
    rfl
  · rw [h]
    rcases cut_cases habs with hcut | hcut
    · simp [hcut] at hsplit
    · rw [hsplit] at hcut
      cases dir with
      | nil => rfl
      | cons c dir => simpa using hcut

/-- What is kept of a path, by its characters. Tabs and line ends go, then the text between a leading
`//` and the next slash, then everything from a question mark or number sign on, and everything from
a semicolon on in the last name. -/
def bare (p : Str) : Str :=
  let path := (splitNetloc (kept p)).2.takeWhile fun c => !endsPath c
  path.rdropWhile (· != '/') ++ (path.rtakeWhile (· != '/')).takeWhile (· != ';')

example : bare "//h/a;b/c;d#/e".toList = "/a;b/c".toList := by decide

theorem mem_bare {c : Char} (h : c ∈ bare p) : c ∈ p := by
  have hpath : c ∈ (splitNetloc (kept p)).2.takeWhile fun c => !endsPath c := by
    rcases List.mem_append.mp h with h | h
    · exact (List.rdropWhile_prefix _ _).mem h
    · exact (List.rtakeWhile_suffix _ _).mem ((List.takeWhile_sublist _).subset h)
  exact List.mem_of_mem_filter (mem_splitNetloc ((List.takeWhile_sublist _).subset hpath))

theorem cut_eq_takeWhile (s : Str) : cut s = s.takeWhile fun c => !endsPath c := by
  unfold cut
  rw [partition_fst, partition_fst, List.takeWhile_takeWhile]
  congr 1
  funext c
  simp [endsPath, bne, Bool.decide_and]

theorem rdropWhile_name (dir : Str) {name : Str} (hname : '/' ∉ name) :
    (dir ++ '/' :: name).rdropWhile (· != '/') = dir ++ ['/'] ∧
      (dir ++ '/' :: name).rtakeWhile (· != '/') = name := by
  have hall : ∀ c ∈ name.reverse, (c != '/') = true := by
    intro c hc
    have hmem := List.mem_reverse.mp hc
    exact bne_iff_ne.mpr fun h => hname (h ▸ hmem)
  have hreverse : (dir ++ '/' :: name).reverse = name.reverse ++ '/' :: dir.reverse := by simp
  unfold List.rdropWhile List.rtakeWhile
  rw [hreverse, List.dropWhile_append_of_pos hall, List.takeWhile_append_of_pos hall]
  simp

/-- What is left names the same directory. -/
theorem walk_left (habs : p.head? = some '/') (hcolon : ':' ∉ p) : walk (left p) = walk (bare p) := by
  unfold bare
  dsimp only
  rw [← cut_eq_takeWhile]
  rcases left_cases habs hcolon with ⟨hcut, hleft⟩ | ⟨dir, name, hcut, hname, hleft⟩
  · rw [hcut, hleft]
    rfl
  · obtain ⟨hdir, hlast⟩ := rdropWhile_name dir hname
    rw [hcut, hleft, hdir, hlast, partition_fst, List.append_assoc]
    rfl

/-- What is left has nothing in it that `urlsplit` cuts at or removes. -/
theorem mem_left (habs : p.head? = some '/') (hcolon : ':' ∉ p) {c : Char} (hc : c ∈ left p) :
    c ∈ p ∧ endsPath c = false ∧ isUnsafe c = false := by
  have hrest : ∀ d ∈ cut (splitNetloc (kept p)).2, d ∈ p ∧ endsPath d = false ∧ isUnsafe d = false := by
    intro d hd
    obtain ⟨hmem, hends⟩ := mem_cut hd
    obtain ⟨hp, hsafe⟩ := List.mem_filter.mp (mem_splitNetloc hmem)
    exact ⟨hp, hends, by simpa using hsafe⟩
  rcases left_cases habs hcolon with ⟨-, h⟩ | ⟨dir, name, hsplit, -, h⟩
  · rw [h] at hc
    obtain rfl := List.mem_singleton.mp hc
    exact ⟨List.mem_of_mem_head? habs, by decide, by decide⟩
  · apply hrest
    rw [h] at hc
    rw [hsplit]
    rcases List.mem_append.mp hc with hc | hc
    · simp [hc]
    · rcases List.mem_cons.mp hc with rfl | hc
      · simp
      · simp [(mem_partition hc).1]

/-! ## Literal paths -/

/-- Nothing in the path means anything in a URL: no query and no fragment, no character that is
removed, no parameters behind the last name, and no authority but `.`. -/
structure Literal (p : Str) : Prop where
  clean : Clean p
  name : ';' ∉ (rpartition '/' p).2
  authority : (splitNetloc p).1 = [] ∨ (splitNetloc p).1 = ['.']

/-- An empty name and `.` lead nowhere. -/
theorem walk_authority {n : Str} (hn : n = [] ∨ n = ['.']) (r : Str) :
    walk ('/' :: '/' :: (n ++ '/' :: r)) = walk ('/' :: r) := by
  have hfront : walk ('/' :: '/' :: n) = walk [] := by
    rcases hn with rfl | rfl <;> rfl
  have hsplit : '/' :: '/' :: (n ++ '/' :: r) = ('/' :: '/' :: n) ++ '/' :: r := by simp
  have hrest : walk ('/' :: r) = (names r).foldl realpathStep (walk []) := walk_append [] r
  rw [hsplit, walk_append, hfront, hrest]

theorem walk_last {dir name : Str} (hname : '/' ∉ name) :
    walk (dir ++ '/' :: name) = realpathStep (walk dir) name := by
  have hnames : names name = [name] := List.splitOn_eq_singleton hname
  rw [walk_append, hnames]
  rfl

/-- What follows an authority. -/
theorem rest_cases {rest : Str} (hclean : Clean rest)
    (hrest : ∀ c, rest.head? = some c → endsAuthority c = true) :
    rest = [] ∨ ∃ r, rest = '/' :: r := by
  cases rest with
  | nil => exact .inl rfl
  | cons c r =>
      have hc := hrest c rfl
      have hends := (hclean c (by simp)).1
      simp only [endsAuthority, endsPath, Bool.or_eq_true, Bool.or_eq_false_iff,
        decide_eq_true_eq, decide_eq_false_iff_not] at hc hends
      exact .inr ⟨r, by grind⟩

/-- A literal path is left as it is, or without an authority that leads nowhere. -/
theorem walk_left_of_literal (habs : p.head? = some '/') (hcolon : ':' ∉ p) (h : Literal p) :
    walk (left p) = walk p := by
  have hkept : kept p = p := filter_clean h.clean
  have hleft := left_cases habs hcolon
  rw [hkept] at hleft
  rcases splitNetloc_cases p with hnet | ⟨n, rest, hp, hnet, -, hrest⟩
  · -- no authority: nothing is cut off
    rw [hnet, cut_of_clean h.clean] at hleft
    rcases hleft with ⟨hnil, -⟩ | ⟨dir, name, hp, hname, hleft⟩
    · simp [hnil] at habs
    · have hlast : ';' ∉ name := by
        have hsemi := h.name
        rwa [hp, rpartition_append hname] at hsemi
      rw [hleft, partition_of_notMem hlast, ← hp]
  · -- the authority is cut off, and leads nowhere
    have hn : n = [] ∨ n = ['.'] := by
      have hauthority := h.authority
      rwa [hnet] at hauthority
    have hclean : Clean rest := fun c hc => h.clean c (by simp [hp, hc])
    rw [hnet, cut_of_clean hclean] at hleft
    rcases hleft with ⟨rfl, hleft⟩ | ⟨dir, name, hsplit, hname, hleft⟩
    · rw [hleft, hp]
      rcases hn with rfl | rfl <;> rfl
    · have hp' : p = ('/' :: '/' :: (n ++ dir)) ++ '/' :: name := by simp [hp, hsplit]
      have hlast : ';' ∉ name := by
        have hsemi := h.name
        rwa [hp', rpartition_append hname] at hsemi
      rcases rest_cases hclean hrest with rfl | ⟨r, hr⟩
      · simp at hsplit
      · rw [hleft, partition_of_notMem hlast, ← hsplit, hp, hr, walk_authority hn]

/-- A name with a character that is no dot is a name of a directory entry. -/
theorem isComponent_of_mem {n : Str} {c : Char} (hn : '/' ∉ n) (hc : c ∈ n) (hdot : c ≠ '.') :
    IsComponent n := by
  refine ⟨?_, ?_, ?_, hn⟩
  · rintro rfl
    simp at hc
  · rintro rfl
    exact hdot (by simpa using hc)
  · rintro rfl
    exact hdot (by simpa using hc)

/-- Cutting at a semicolon in the last name leads elsewhere. -/
theorem notMem_of_walk {dir name : Str} (hname : '/' ∉ name)
    (h : walk (dir ++ '/' :: (partition ';' name).1) = walk (dir ++ '/' :: name)) : ';' ∉ name := by
  intro hsemi
  have hcut : '/' ∉ (partition ';' name).1 := fun hc => hname (mem_partition hc).1
  have hc : IsComponent name := isComponent_of_mem hname hsemi (by decide)
  rw [walk_last hcut, walk_last hname, realpathStep_component _ hc] at h
  rcases realpathStep_cases (walk dir) (partition ';' name).1 with hstep | hstep | ⟨hc', hstep⟩
  · have hlen := congrArg List.length (hstep.symm.trans h)
    simp at hlen
  · have hlen := congrArg List.length (hstep.symm.trans h)
    simp at hlen
  · have hlast := List.append_cancel_left (hstep.symm.trans h)
    have hsame : (partition ';' name).1 = name := congrArg Subtype.val (List.cons.inj hlast).1
    rw [← hsame] at hsemi
    exact (mem_partition hsemi).2 rfl

/-- A path without `..` that still leads to the same place has nothing in it that is cut at or
removed: the name with that character would be missing. -/
theorem clean_of_walk (habs : p.head? = some '/') (hcolon : ':' ∉ p)
    (hup : ['.', '.'] ∉ names p) (h : walk (left p) = walk p) : Clean p := by
  intro c hc
  by_cases hclean : endsPath c = false ∧ isUnsafe c = false
  · exact hclean
  · have hchar : c ≠ '/' ∧ c ≠ '.' := by
      constructor
      · rintro rfl
        exact hclean (by decide)
      · rintro rfl
        exact hclean (by decide)
    obtain ⟨n, hn, hcn⟩ := exists_mem_names hc hchar.1
    have hcomp : IsComponent n := isComponent_of_mem (notMem_of_mem_splitOn hn) hcn hchar.2
    have hwalk : ⟨n, hcomp⟩ ∈ walk p := (foldl_plain hup []).2.2 n hcomp hn
    rw [← h] at hwalk
    rcases mem_foldl hwalk with hmem | hmem
    · simp at hmem
    · exact absurd (mem_left habs hcolon (mem_of_mem_names hmem hcn)).2 hclean

theorem names_slash (s : Str) : names ('/' :: s) = [] :: names s :=
  List.splitOn_append_cons_self [] s

/-- The names of a path are its authority and those that follow it. -/
theorem countP_names {n rest : Str} (hn : '/' ∉ n) (hrest : rest = [] ∨ ∃ r, rest = '/' :: r) :
    (names ('/' :: '/' :: (n ++ rest))).countP (fun c => IsComponent c) =
      [n].countP (fun c => IsComponent c) + (names rest).countP fun c => IsComponent c := by
  have hempty : ¬ IsComponent [] := by decide
  have hnames : names n = [n] := List.splitOn_eq_singleton hn
  rw [names_slash, names_slash]
  rcases hrest with rfl | ⟨r, rfl⟩
  · have hnil : names [] = [[]] := rfl
    simp [hnames, hempty, hnil]
  · have hsplit : names (n ++ '/' :: r) = names n ++ names r := List.splitOn_append_cons_self n r
    rw [hsplit, hnames, names_slash]
    simp [List.countP_cons, hempty]
    omega

/-- Cutting the last name makes no names. -/
theorem countP_left_le {dir name : Str} (hname : '/' ∉ name) :
    (names (dir ++ '/' :: (partition ';' name).1)).countP (fun c => IsComponent c) ≤
      (names (dir ++ '/' :: name)).countP fun c => IsComponent c := by
  have hcut : '/' ∉ (partition ';' name).1 := fun hc => hname (mem_partition hc).1
  have hsplit : ∀ s : Str, '/' ∉ s → names (dir ++ '/' :: s) = names dir ++ [s] := by
    intro s hs
    have hs' : names s = [s] := List.splitOn_eq_singleton hs
    rw [← hs']
    exact List.splitOn_append_cons_self dir s
  rw [hsplit _ hname, hsplit _ hcut, List.countP_append, List.countP_append]
  apply Nat.add_le_add_left
  by_cases hsemi : ';' ∈ name
  · have hcomp : IsComponent name := isComponent_of_mem hname hsemi (by decide)
    simp [hcomp, List.countP_cons]
    split <;> omega
  · rw [partition_of_notMem hsemi]

/-- The authority of a path without `..` that still leads to the same place without it leads
nowhere: a name there would be missing. -/
theorem authority_of_walk {n rest s : Str} (hp : p = '/' :: '/' :: (n ++ rest)) (hn : '/' ∉ n)
    (hrest : rest = [] ∨ ∃ r, rest = '/' :: r) (hup : ['.', '.'] ∉ names p)
    (hcount : (names s).countP (fun c => IsComponent c) ≤
      (names rest).countP fun c => IsComponent c)
    (h : walk s = walk p) : n = [] ∨ n = ['.'] := by
  have hnone : ¬ IsComponent n := by
    intro hcomp
    have hlong : (walk p).length = [n].countP (fun c => IsComponent c) +
        (names rest).countP fun c => IsComponent c := by
      rw [← countP_names hn hrest, ← hp]
      simpa [walk] using (foldl_plain hup []).2.1
    have hshort : (walk s).length ≤ (names s).countP fun c => IsComponent c := by
      simpa [walk] using length_foldl_le (names s) []
    rw [h, hlong] at hshort
    simp [hcomp] at hshort
    omega
  have hmem : n ∈ names p := by
    rw [hp, names_slash, names_slash]
    rcases hrest with rfl | ⟨r, rfl⟩
    · simp [names, List.splitOn_eq_singleton hn]
    · simp [names, List.splitOn_append_cons_self, List.splitOn_eq_singleton hn]
  have hdots : n ≠ ['.', '.'] := by
    rintro rfl
    exact hup hmem
  by_contra hno
  rw [not_or] at hno
  exact hnone ⟨hno.1, hno.2, hdots, hn⟩

theorem literal_of_walk (habs : p.head? = some '/') (hcolon : ':' ∉ p)
    (hup : ['.', '.'] ∉ names p) (h : walk (left p) = walk p) : Literal p := by
  have hclean := clean_of_walk habs hcolon hup h
  have hkept : kept p = p := filter_clean hclean
  have hleft := left_cases habs hcolon
  rw [hkept] at hleft
  rcases splitNetloc_cases p with hnet | ⟨n, rest, hp, hnet, hends, hrest⟩
  · rw [hnet, cut_of_clean hclean] at hleft
    rcases hleft with ⟨hnil, -⟩ | ⟨dir, name, hsplit, hname, hleft⟩
    · simp [hnil] at habs
    · refine ⟨hclean, ?_, .inl (by rw [hnet])⟩
      have hsame : walk (dir ++ '/' :: (partition ';' name).1) = walk (dir ++ '/' :: name) := by
        rw [← hleft, ← hsplit, h]
      rw [hsplit, rpartition_append hname]
      exact notMem_of_walk hname hsame
  · have hcleanRest : Clean rest := fun c hc => hclean c (by simp [hp, hc])
    have hnoSlash : '/' ∉ n := fun hc => absurd (hends _ hc) (by decide)
    have hshape := rest_cases hcleanRest hrest
    rw [hnet, cut_of_clean hcleanRest] at hleft
    -- What is left has at most the names behind the authority.
    have hcount : (names (left p)).countP (fun c => IsComponent c) ≤
        (names rest).countP fun c => IsComponent c := by
      rcases hleft with ⟨rfl, hleft⟩ | ⟨dir, name, hsplit, hname, hleft⟩
      · rw [hleft]
        decide
      · rw [hleft, hsplit]
        exact countP_left_le hname
    have hn : n = [] ∨ n = ['.'] := authority_of_walk hp hnoSlash hshape hup hcount h
    refine ⟨hclean, ?_, by rw [hnet]; exact hn⟩
    rcases hleft with ⟨rfl, -⟩ | ⟨dir, name, hsplit, hname, hleft⟩
    · have hp' : p = ['/'] ++ '/' :: n := by simp [hp]
      rw [hp', rpartition_append hnoSlash]
      rcases hn with rfl | rfl <;> decide
    · have hp' : p = ('/' :: '/' :: (n ++ dir)) ++ '/' :: name := by simp [hp, hsplit]
      have hsame : walk (dir ++ '/' :: (partition ';' name).1) = walk (dir ++ '/' :: name) := by
        rcases hshape with rfl | ⟨r, hr⟩
        · simp at hsplit
        · rw [← hleft, h, hp, ← hsplit, hr, walk_authority hn]
      rw [hp', rpartition_append hname]
      exact notMem_of_walk hname hsame

/-! ## `open_blob` -/

section Open

variable {py : Python} {cwd : Path} {t : Disk} {q : Path}

/-- With a colon in the path, the text before it is the schema, and no backend has a slash in its
name. -/
theorem loader_schemaOf (habs : p.head? = some '/') (hcolon : ':' ∈ p) :
    loader (schemaOf p) = none := by
  have hhead : (schemaOf p).head? = some '/' := by
    have hfst : schemaOf p = (partition ':' p).1 := by
      unfold schemaOf
      cases hcut : partition ':' p with
      | mk before after =>
          cases after with
          | some after => rfl
          | none =>
              unfold partition at hcut
              split at hcut
              · next hdrop =>
                  rw [List.dropWhile_eq_nil_iff] at hdrop
                  exact absurd (hdrop _ hcolon) (by simp)
              · simp at hcut
    rw [hfst, partition_fst]
    cases p with
    | nil => simp at habs
    | cons c p =>
        obtain rfl : c = '/' := by simpa using habs
        simp
  have hne : ∀ name : Str, name.head? ≠ some '/' → schemaOf p ≠ name := by
    intro name hname heq
    rw [heq] at hhead
    exact hname hhead
  unfold loader
  rw [if_neg (hne _ (by decide)), if_neg (hne _ (by decide)), if_neg (hne _ (by decide)),
    if_neg (hne _ (by decide)), if_neg (hne _ (by decide))]

theorem schemaOf_path (hcolon : ':' ∉ p) : schemaOf p = "file".toList := by
  unfold schemaOf
  rw [partition_of_notMem hcolon]

theorem parseUrl_path (habs : p.head? = some '/') (hcolon : ':' ∉ p) (hok : AuthorityOk py p) :
    parseUrl py p = .ok (left p) := by
  unfold parseUrl left
  rw [urlparse_of_ok hok]
  dsimp only [Bind.bind, Except.bind]
  rw [if_neg (by simp [(path_parsed habs hcolon).1])]
  rfl

theorem parseUrl_refused (hok : ¬ AuthorityOk py p) :
    ∃ msg, parseUrl py p = .error (.valueError msg) := by
  cases hcheck : checkNetloc py (split p).netloc with
  | ok a => exact absurd hcheck hok
  | error e =>
      obtain ⟨msg, rfl⟩ := valueError_of_checkNetloc hcheck
      refine ⟨msg, ?_⟩
      unfold parseUrl
      rw [urlparse_of_error hcheck]
      rfl

/-- The constructor opens a directory, and nothing else. -/
theorem run_init {root : Str} (hroot : resolveRoot cwd root = .ok q) (schema : Str) :
    ((((FileBlob.init cwd root).bind fun b => .pure (Blob.file b)).tryCatch (caught schema)).run
        disk () t).1 =
      if t.isDir q then .ok (.file ⟨q⟩)
      else .error (.blobError ("invalid root directory: " ++ fmt root)) := by
  have hrun : wp disk (((FileBlob.init cwd root).bind fun b => .pure (Blob.file b)).tryCatch
      (caught schema)) (fun o _ _ => o = if t.isDir q then .ok (.file ⟨q⟩)
        else .error (.blobError ("invalid root directory: " ++ fmt root))) () t := by
    unfold FileBlob.init FileBlob.pathExists FileBlob.isDir
    rw [hroot, wp_tryCatch, wp_bind]
    have hexists : File.pathExists t q = false → t.isDir q = false := by
      unfold File.pathExists FileTree.isDir
      cases t.node q <;> simp
    cases hthere : File.pathExists t q with
    | false => simp [Program.ofExcept, disk, raising, hthere, hexists, caught]
    | true =>
        cases hdir : t.isDir q with
        | false => simp [Program.ofExcept, disk, raising, hthere, hdir, caught]
        | true => simp [Program.ofExcept, disk, raising, hthere, hdir]
  exact hrun

/-- The directory is opened when nothing is taken for a schema, the authority is not refused, and
what is left names the same directory. -/
theorem opens_iff (habs : p.head? = some '/') (hp : File.resolve [] p = .ok q)
    (hdir : t.isDir q = true) :
    ((openBlob py cwd p).run disk () t).1 = .ok (.file ⟨q⟩) ↔
      ':' ∉ p ∧ AuthorityOk py p ∧ File.resolve [] (left p) = .ok q := by
  by_cases hcolon : ':' ∈ p
  · -- the text before the colon is no schema
    refine iff_of_false ?_ fun h => h.1 hcolon
    unfold openBlob
    dsimp only
    rw [loader_schemaOf habs hcolon]
    rintro ⟨⟩
  · have hfile : loader "file".toList = some .file := rfl
    obtain ⟨hnul, hq⟩ := walk_of_resolve hp
    unfold openBlob
    dsimp only
    rw [schemaOf_path hcolon, hfile]
    dsimp only [GufoBlob.fromUrl, FileBlob.fromUrl]
    by_cases hok : AuthorityOk py p
    · have hnul' : '\x00' ∉ left p := fun h => hnul (mem_left habs hcolon h).1
      have hroot : resolveRoot cwd (left p) = .ok (walk (left p)) := by
        unfold resolveRoot
        rw [if_pos (head?_left habs hcolon), resolve_eq_walk hnul']
      rw [parseUrl_path habs hcolon hok, Program.ofExcept, bind_eq, pure_bind', run_init hroot,
        resolve_eq_walk hnul']
      constructor
      · intro h
        split at h
        · obtain hsame : walk (left p) = q := by simpa using h
          exact ⟨hcolon, hok, by rw [hsame]⟩
        · simp at h
      · intro h
        have hsame : walk (left p) = q := Except.ok.inj h.2.2
        rw [hsame, hdir]
        rfl
    · -- `urlsplit` raises before there is a blob
      obtain ⟨msg, herror⟩ := parseUrl_refused hok
      rw [herror]
      refine iff_of_false ?_ fun h => hok h.2.1
      rintro ⟨⟩

/-- **When a bare path is taken literally**: for every existing directory, the blob has it as its root
exactly when the path has no colon and either is literal, or goes up somewhere and what is kept of it
happens to name the same directory. -/
theorem literally_iff (habs : p.head? = some '/') (hp : File.resolve [] p = .ok q)
    (hdir : t.isDir q = true) :
    ((openBlob py cwd p).run disk () t).1 = .ok (.file ⟨q⟩) ↔
      ':' ∉ p ∧ (Literal p ∨ (['.', '.'] ∈ names p ∧
        checkNetloc py (splitNetloc (kept p)).1 = .ok () ∧ File.resolve [] (bare p) = .ok q)) := by
  rw [opens_iff habs hp hdir]
  refine and_congr_right fun hcolon => ?_
  obtain ⟨hnul, rfl⟩ := walk_of_resolve hp
  have hnul' : '\x00' ∉ left p := fun h => hnul (mem_left habs hcolon h).1
  have hbare : '\x00' ∉ bare p := fun h => hnul (mem_bare h)
  have hauth : AuthorityOk py p ↔ checkNetloc py (splitNetloc (kept p)).1 = .ok () := by
    unfold AuthorityOk
    rw [(split_path habs hcolon).2.1]
  rw [resolve_eq_walk hnul', resolve_eq_walk hbare, ← hauth, ← walk_left habs hcolon]
  constructor
  · rintro ⟨hok, hsame⟩
    by_cases hup : ['.', '.'] ∈ names p
    · exact .inr ⟨hup, hok, hsame⟩
    · exact .inl (literal_of_walk habs hcolon hup (Except.ok.inj hsame))
  · rintro (h | ⟨-, hok, hsame⟩)
    · -- the authority of a literal path is `.` or none, and passes the checks
      refine ⟨?_, congrArg Except.ok (walk_left_of_literal habs hcolon h)⟩
      have hkept : kept p = p := filter_clean h.clean
      have hnetloc := (split_path habs hcolon).2.1
      rw [hkept] at hnetloc
      unfold AuthorityOk
      rw [hnetloc]
      apply checkNetloc_ascii
      intro c hc
      rcases h.authority with hn | hn
      · simp [hn] at hc
      · obtain rfl : c = '.' := by simpa [hn] using hc
        decide
    · exact ⟨hok, hsame⟩

end Open

/-- A file system with these directories. -/
def directories (ps : List Str) : Disk :=
  ps.foldl (fun t p => (File.mkdir t (walk p)).disk) .empty

/-- A semicolon in a name that is not the last one. -/
theorem literally_iff_semicolon :
    ((openBlob asciiPython [] "/a;b/c".toList).run disk ()
        (directories ["/a;b/c".toList])).1 = .ok (.file ⟨walk "/a;b/c".toList⟩) ↔
      ':' ∉ "/a;b/c".toList ∧ (Literal "/a;b/c".toList ∨
        (['.', '.'] ∈ names "/a;b/c".toList ∧
          checkNetloc asciiPython (splitNetloc (kept "/a;b/c".toList)).1 = .ok () ∧
          File.resolve [] (bare "/a;b/c".toList) = .ok (walk "/a;b/c".toList))) :=
  literally_iff (by decide) (resolve_eq_walk (by decide)) (by decide)

/-- `/x#y` opens the directory `/x`, and `/x:y` none. -/
theorem not_literally_hash :
    FileTree.isDir (directories ["/x".toList, "/x#y".toList]) (walk "/x#y".toList) = true ∧
      ((openBlob asciiPython [] "/x#y".toList).run disk ()
        (directories ["/x".toList, "/x#y".toList])).1 = .ok (.file ⟨walk "/x".toList⟩) ∧
      walk "/x".toList ≠ walk "/x#y".toList ∧
      FileTree.isDir (directories ["/x:y".toList]) (walk "/x:y".toList) = true ∧
      ((openBlob asciiPython [] "/x:y".toList).run disk () (directories ["/x:y".toList])).1 =
        .error (.blobError "invalid schema: /x") :=
  ⟨by decide, rfl, by decide, by decide, rfl⟩

end FileBlob

end GufoBlob
