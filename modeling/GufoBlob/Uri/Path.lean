import GufoBlob.Text.Split
import GufoBlob.Uri.Percent
import Mathlib.Algebra.BigOperators.Group.List.Basic
import Mathlib.Data.List.TakeWhile

/-!
# Paths of absolute URLs

The parts of RFC 3986 that decide which resource a URL addresses: where its path begins and ends,
and what the removal of dot segments (5.2.4) makes of it. A path is handled segment by segment: a
`.` segment is dropped, a `..` segment takes the segment before it along, and a dot segment at the
end leaves an empty one behind.

* `urlPath_origin` — the path of a URL that is put together from an origin and a path.
* `undotted_eq_self_iff` — removal changes nothing exactly when there is no dot segment.
* `undotted_quote` — removal commutes with quoting.
-/

namespace GufoBlob.Uri

open Text

/-! ## The parts of a URL -/

/-- What follows the first `://`. -/
def afterScheme : Str → Str
  | ':' :: '/' :: '/' :: rest => rest
  | _ :: rest => afterScheme rest
  | [] => []

/-- The path starts at the first of `/`, `?` and `#` after the authority. -/
def endsAuthority (c : Char) : Bool := c = '/' || c = '?' || c = '#'

/-- It ends at the first `?` or `#`. -/
def endsPath (c : Char) : Bool := c = '?' || c = '#'

def urlPath (url : Str) : Str :=
  ((afterScheme url).dropWhile fun c => !endsAuthority c).takeWhile fun c => !endsPath c

/-- The query, without its `?`. -/
def urlQuery (url : Str) : Str :=
  match (afterScheme url).dropWhile fun c => !endsPath c with
  | '?' :: rest => rest.takeWhile fun c => c ≠ '#'
  | _ => []

/-- `scheme://host[:port]`. -/
structure Origin where
  scheme : Str
  host : Str
  port : Option Nat
  scheme_ok : ':' ∉ scheme
  host_ne : host ≠ []
  host_ok : ∀ c ∈ host, endsAuthority c = false

namespace Origin

def authority (o : Origin) : Str :=
  match o.port with
  | none => o.host
  | some n => o.host ++ ':' :: Nat.toDigits 10 n

def url (o : Origin) : Str := o.scheme ++ ':' :: '/' :: '/' :: o.authority

theorem authority_ok (o : Origin) : ∀ c ∈ o.authority, endsAuthority c = false := by
  intro c hc
  unfold authority at hc
  split at hc
  · exact o.host_ok c hc
  · next n _ =>
      rcases List.mem_append.mp hc with hc | hc
      · exact o.host_ok c hc
      · rcases List.mem_cons.mp hc with rfl | hc
        · rfl
        · have hdigit := Nat.isDigit_of_mem_toDigits (by decide) (by decide) hc
          cases h : endsAuthority c with
          | false => rfl
          | true =>
              simp only [endsAuthority, Bool.or_eq_true, decide_eq_true_eq] at h
              rcases h with (rfl | rfl) | rfl <;> exact absurd hdigit (by decide)

theorem authority_ne (o : Origin) : o.authority ≠ [] := by
  unfold authority
  split
  · exact o.host_ne
  · simp

end Origin

theorem afterScheme_origin {scheme : Str} (h : ':' ∉ scheme) (rest : Str) :
    afterScheme (scheme ++ ':' :: '/' :: '/' :: rest) = rest := by
  induction scheme with
  | nil => rfl
  | cons c s ih =>
      have hc : c ≠ ':' := (List.ne_of_not_mem_cons h).symm
      rw [List.cons_append, afterScheme, ih (List.not_mem_of_not_mem_cons h)]
      rintro r rfl
      exact absurd rfl hc

/-- The path of a URL that is put together from an origin, a path and what follows the path. -/
theorem urlPath_origin (o : Origin) (p rest : Str) (hp : ∀ c ∈ p, endsPath c = false)
    (hrest : ∀ c, rest.head? = some c → endsPath c = true) :
    urlPath (o.url ++ '/' :: (p ++ rest)) = '/' :: p := by
  have hauthority : (o.authority ++ '/' :: (p ++ rest)).dropWhile (fun c => !endsAuthority c) =
      '/' :: (p ++ rest) := by
    rw [List.dropWhile_append_of_pos (by intro c hc; simp [o.authority_ok c hc])]
    rfl
  have hpath : (p ++ rest).takeWhile (fun c => !endsPath c) = p := by
    rw [List.takeWhile_append_of_pos (by intro c hc; simp [hp c hc])]
    cases rest with
    | nil => simp
    | cons c rest => simp [hrest c rfl]
  rw [urlPath, Origin.url, List.append_assoc, List.cons_append, List.cons_append, List.cons_append,
    afterScheme_origin o.scheme_ok, hauthority]
  show '/' :: (p ++ rest).takeWhile _ = _
  rw [hpath]

theorem urlQuery_origin (o : Origin) {p q : Str} (hp : ∀ c ∈ p, endsPath c = false)
    (hq : '#' ∉ q) : urlQuery (o.url ++ '/' :: (p ++ '?' :: q)) = q := by
  have hauthority : ∀ c ∈ o.authority, (!endsPath c) = true := by
    intro c hc
    have h := o.authority_ok c hc
    simp only [endsAuthority, Bool.or_eq_false_iff] at h
    simp [endsPath, h.1.2, h.2]
  have hdrop : (o.authority ++ '/' :: (p ++ '?' :: q)).dropWhile (fun c => !endsPath c) =
      '?' :: q := by
    rw [List.dropWhile_append_of_pos hauthority]
    show ((p ++ '?' :: q).dropWhile fun c => !endsPath c) = _
    rw [List.dropWhile_append_of_pos (by intro c hc; simp [hp c hc])]
    rfl
  rw [urlQuery, Origin.url, List.append_assoc, List.cons_append, List.cons_append, List.cons_append,
    afterScheme_origin o.scheme_ok, hdrop]
  show q.takeWhile _ = q
  rw [List.takeWhile_eq_self_iff]
  intro c hc
  simpa using fun h : c = '#' => hq (h ▸ hc)

/-! ## Dot segments -/

/-- `.` and `..`. -/
def isDotSegment (s : Str) : Bool := s = ['.'] || s = ['.', '.']

/-- The segments that are left; `out` holds those already handled, last one first. -/
def dropDots : List Str → List Str → List Str
  | out, [] => out.reverse
  | out, [s] =>
      if s = ['.'] then ([] :: out).reverse
      else if s = ['.', '.'] then ([] :: out.tail).reverse
      else (s :: out).reverse
  | out, s :: t :: rest =>
      if s = ['.'] then dropDots out (t :: rest)
      else if s = ['.', '.'] then dropDots out.tail (t :: rest)
      else dropDots (s :: out) (t :: rest)

/-- Dot-segment removal on the part of a path after its first `/`. -/
def undotted (s : Str) : Str := ['/'].intercalate (dropDots [] (s.splitOn '/'))

/-- Dot-segment removal on a path. -/
def removeDotSegments : Str → Str
  | '/' :: rest => '/' :: undotted rest
  | p => p

example : removeDotSegments "/a/b/c/./../../g".toList = "/a/g".toList := by decide

/-- The length of the segments with a separator for each. -/
def width (segs : List Str) : Nat := (segs.map fun s => s.length + 1).sum

@[simp] theorem width_nil : width [] = 0 := rfl

@[simp] theorem width_cons (s : Str) (segs : List Str) :
    width (s :: segs) = s.length + 1 + width segs := by
  simp [width]

@[simp] theorem width_append (segs segs' : List Str) :
    width (segs ++ segs') = width segs + width segs' := by
  simp [width]

@[simp] theorem width_reverse (segs : List Str) : width segs.reverse = width segs := by
  simp [width, List.sum_reverse]

theorem width_tail_le (segs : List Str) : width segs.tail ≤ width segs := by
  cases segs with
  | nil => exact Nat.le_refl _
  | cons s segs => simp

theorem length_intercalate {segs : List Str} (h : segs ≠ []) :
    (['/'].intercalate segs).length + 1 = width segs := by
  induction segs with
  | nil => exact absurd rfl h
  | cons s segs ih =>
      cases segs with
      | nil => simp
      | cons t segs =>
          have ih := ih (List.cons_ne_nil t segs)
          rw [List.intercalate_cons_cons, width_cons, ← ih]
          simp only [List.length_append, List.length_cons, List.length_nil]
          omega

theorem dropDots_ne_nil (out : List Str) {segs : List Str} (h : segs ≠ []) :
    dropDots out segs ≠ [] := by
  induction out, segs using dropDots.induct with
  | case1 out => exact absurd rfl h
  | case2 out => simp [dropDots]
  | case3 out _ => simp [dropDots]
  | case4 out s hdot hdots => simp [dropDots, hdot, hdots]
  | case5 out t rest ih => simpa [dropDots] using ih (List.cons_ne_nil t rest)
  | case6 out t rest _ ih => simpa [dropDots] using ih (List.cons_ne_nil t rest)
  | case7 out s t rest hdot hdots ih =>
      simpa [dropDots, hdot, hdots] using ih (List.cons_ne_nil t rest)

/-- Every dot segment makes the path shorter. -/
theorem width_dropDots (out segs : List Str) :
    width (dropDots out segs) + segs.countP isDotSegment ≤ width out + width segs := by
  induction out, segs using dropDots.induct with
  | case1 out => simp [dropDots]
  | case2 out =>
      simp [dropDots, isDotSegment]
  | case3 out _ =>
      have hle := width_tail_le out
      simp [dropDots, isDotSegment]
      omega
  | case4 out s hdot hdots =>
      simp [dropDots, isDotSegment, hdot, hdots]
  | case5 out t rest ih =>
      simp [dropDots, List.countP_cons, isDotSegment] at ih ⊢
      omega
  | case6 out t rest _ ih =>
      have hle := width_tail_le out
      simp [dropDots, List.countP_cons, isDotSegment] at ih ⊢
      omega
  | case7 out s t rest hdot hdots ih =>
      simp [dropDots, List.countP_cons, isDotSegment, hdot, hdots] at ih ⊢
      omega

/-- Without a dot segment all segments are left. -/
theorem dropDots_of_none {out segs : List Str} (h : ∀ s ∈ segs, isDotSegment s = false) :
    dropDots out segs = out.reverse ++ segs := by
  induction out, segs using dropDots.induct with
  | case1 out => simp [dropDots]
  | case2 out => exact absurd (h _ List.mem_cons_self) (by decide)
  | case3 out _ => exact absurd (h _ List.mem_cons_self) (by decide)
  | case4 out s hdot hdots => simp [dropDots, hdot, hdots]
  | case5 out t rest _ => exact absurd (h _ List.mem_cons_self) (by decide)
  | case6 out t rest _ _ => exact absurd (h _ List.mem_cons_self) (by decide)
  | case7 out s t rest hdot hdots ih =>
      have ih := ih fun s hs => h s (List.mem_cons_of_mem _ hs)
      simpa [dropDots, hdot, hdots] using ih

/-- Removal changes nothing exactly when there is no dot segment. -/
theorem undotted_eq_self_iff (s : Str) :
    undotted s = s ↔ ∀ seg ∈ s.splitOn '/', isDotSegment seg = false := by
  have hjoin : ['/'].intercalate (s.splitOn '/') = s := List.intercalate_splitOn '/'
  constructor
  · intro heq seg hseg
    have hne := List.splitOn_ne_nil '/' s
    have hlength := length_intercalate (dropDots_ne_nil [] hne)
    have hlength' := length_intercalate hne
    have hwidth := width_dropDots [] (s.splitOn '/')
    rw [hjoin] at hlength'
    rw [show ['/'].intercalate (dropDots [] (s.splitOn '/')) = s from heq] at hlength
    by_contra hdot
    have hpos : 0 < (s.splitOn '/').countP isDotSegment :=
      List.countP_pos_iff.mpr ⟨seg, hseg, by simpa using hdot⟩
    rw [width_nil] at hwidth
    omega
  · intro hnone
    rw [undotted, dropDots_of_none hnone]
    exact hjoin

/-! ### What is left -/

/-- No segment of the path is a dot segment. -/
def NoDotSegment (s : Str) : Prop := ∀ seg ∈ s.splitOn '/', isDotSegment seg = false

instance (s : Str) : Decidable (NoDotSegment s) := List.decidableBAll _ _

theorem noDotSegment_append_slash_iff (s t : Str) :
    NoDotSegment (s ++ '/' :: t) ↔ NoDotSegment s ∧ NoDotSegment t := by
  unfold NoDotSegment
  rw [List.splitOn_append_cons_self, List.forall_mem_append]

/-- Handling segments that are not the last ones. -/
def handleSegment (out : List Str) (s : Str) : List Str :=
  if s = ['.'] then out else if s = ['.', '.'] then out.tail else s :: out

theorem dropDots_append (out segs : List Str) {rest : List Str} (hrest : rest ≠ []) :
    dropDots out (segs ++ rest) = dropDots (segs.foldl handleSegment out) rest := by
  obtain ⟨t, rest, rfl⟩ := List.exists_cons_of_ne_nil hrest
  induction segs generalizing out with
  | nil => rfl
  | cons s segs ih =>
      have hstep : dropDots out (s :: (segs ++ t :: rest)) =
          dropDots (handleSegment out s) (segs ++ t :: rest) := by
        obtain ⟨u, more, hmore⟩ := List.exists_cons_of_ne_nil
          (List.append_ne_nil_of_right_ne_nil segs (List.cons_ne_nil t rest))
        rw [hmore, dropDots]
        unfold handleSegment
        split_ifs <;> rfl
      rw [List.cons_append, hstep, ih]
      rfl

/-- Enough `..` segments lead to the root. -/
theorem foldl_handleSegment_dots (out : List Str) {n : Nat} (hn : out.length ≤ n) :
    (List.replicate n ['.', '.']).foldl handleSegment out = [] := by
  induction n generalizing out with
  | zero => exact List.length_eq_zero_iff.mp (Nat.le_zero.mp hn)
  | succ n ih =>
      rw [List.replicate_succ, List.foldl_cons]
      apply ih
      show (handleSegment out ['.', '.']).length ≤ n
      have htail : handleSegment out ['.', '.'] = out.tail := rfl
      rw [htail, List.length_tail]
      omega

theorem dropDots_ok (out segs : List Str)
    (hout : ∀ s ∈ out, isDotSegment s = false ∧ '/' ∉ s) (hsegs : ∀ s ∈ segs, '/' ∉ s) :
    ∀ s ∈ dropDots out segs, isDotSegment s = false ∧ '/' ∉ s := by
  have htail : ∀ {l : List Str}, (∀ s ∈ l, isDotSegment s = false ∧ '/' ∉ s) →
      ∀ s ∈ l.tail, isDotSegment s = false ∧ '/' ∉ s :=
    fun hl s hs => hl s (List.mem_of_mem_tail hs)
  have hcons : ∀ {l : List Str} {s : Str}, (∀ s ∈ l, isDotSegment s = false ∧ '/' ∉ s) →
      isDotSegment s = false ∧ '/' ∉ s → ∀ t ∈ s :: l, isDotSegment t = false ∧ '/' ∉ t :=
    fun hl hs => List.forall_mem_cons.mpr ⟨hs, hl⟩
  have hempty : isDotSegment ([] : Str) = false ∧ '/' ∉ ([] : Str) := ⟨rfl, List.not_mem_nil⟩
  have hplain : ∀ {s : Str}, s ≠ ['.'] → s ≠ ['.', '.'] → isDotSegment s = false := by
    intro s hdot hdots
    simp [isDotSegment, hdot, hdots]
  have hreverse : ∀ {l : List Str}, (∀ s ∈ l, isDotSegment s = false ∧ '/' ∉ s) →
      ∀ s ∈ l.reverse, isDotSegment s = false ∧ '/' ∉ s :=
    fun hl s hs => hl s (List.mem_reverse.mp hs)
  induction out, segs using dropDots.induct with
  | case1 out => exact hreverse hout
  | case2 out => exact hreverse (hcons hout hempty)
  | case3 out _ => exact hreverse (hcons (htail hout) hempty)
  | case4 out s hdot hdots =>
      rw [dropDots, if_neg hdot, if_neg hdots]
      exact hreverse (hcons hout ⟨hplain hdot hdots, hsegs s List.mem_cons_self⟩)
  | case5 out t rest ih =>
      simpa [dropDots] using ih hout fun s hs => hsegs s (List.mem_cons_of_mem _ hs)
  | case6 out t rest _ ih =>
      simpa [dropDots] using ih (htail hout) fun s hs => hsegs s (List.mem_cons_of_mem _ hs)
  | case7 out s t rest hdot hdots ih =>
      have hs := hcons hout ⟨hplain hdot hdots, hsegs s List.mem_cons_self⟩
      simpa [dropDots, hdot, hdots] using ih hs fun s hs => hsegs s (List.mem_cons_of_mem _ hs)

/-- Removal leaves no dot segment. -/
theorem noDotSegment_undotted (s : Str) : NoDotSegment (undotted s) := by
  have hok := dropDots_ok [] (s.splitOn '/') (fun _ h => absurd h List.not_mem_nil)
    fun seg hseg => notMem_of_mem_splitOn hseg
  unfold NoDotSegment undotted
  rw [List.splitOn_intercalate '/' (fun seg hseg => (hok seg hseg).2)
    (dropDots_ne_nil [] (List.splitOn_ne_nil '/' s))]
  exact fun seg hseg => (hok seg hseg).1

/-- Up to the root, and down again. -/
def viaRoot (n : Nat) (s : Str) : Str := (List.replicate n ['.', '.', '/']).flatten ++ s

theorem splitOn_viaRoot (n : Nat) (s : Str) :
    (viaRoot n s).splitOn '/' = List.replicate n ['.', '.'] ++ s.splitOn '/' := by
  induction n with
  | zero => rfl
  | succ n ih =>
      have hcons : viaRoot (n + 1) s = ['.', '.'] ++ '/' :: viaRoot n s := rfl
      rw [hcons, List.splitOn_append_cons_self_of_not_mem (by decide), ih]
      rfl

theorem length_viaRoot_ge (n : Nat) (s : Str) : n ≤ (viaRoot n s).length := by
  induction n with
  | zero => exact Nat.zero_le _
  | succ n ih =>
      have hcons : viaRoot (n + 1) s = '.' :: '.' :: '/' :: viaRoot n s := rfl
      simp only [hcons, List.length_cons]
      omega

/-- A path that goes up to the root leaves what comes after that. -/
theorem undotted_viaRoot (r s : Str) {n : Nat} (hn : (r.splitOn '/').length ≤ n) :
    undotted (r ++ '/' :: viaRoot n s) = undotted s := by
  have hlength : ∀ segs out : List Str,
      (segs.foldl handleSegment out).length ≤ out.length + segs.length := by
    intro segs
    induction segs with
    | nil => exact fun out => Nat.le_refl _
    | cons s segs ih =>
        intro out
        have hstep : (handleSegment out s).length ≤ out.length + 1 := by
          unfold handleSegment
          split_ifs
          · exact Nat.le_succ _
          · rw [List.length_tail]
            omega
          · exact Nat.le_refl _
        have h := ih (handleSegment out s)
        rw [List.foldl_cons, List.length_cons]
        omega
  have hup := hlength (r.splitOn '/') []
  rw [List.length_nil, Nat.zero_add] at hup
  unfold undotted
  rw [List.splitOn_append_cons_self, splitOn_viaRoot,
    dropDots_append [] _ (List.append_ne_nil_of_right_ne_nil _ (List.splitOn_ne_nil '/' s)),
    dropDots_append _ _ (List.splitOn_ne_nil '/' s), foldl_handleSegment_dots _ (hup.trans hn)]

/-! ## Dot segments of a quoted path -/

section Quote

variable {safe : List Char}

theorem quote_eq_dots {s : Str} (hsafe : '%' ∉ safe) {n : Nat} :
    quote safe s = List.replicate n '.' ↔ s = List.replicate n '.' := by
  have hdots : quote safe (List.replicate n '.') = List.replicate n '.' := by
    apply quote_of_safe
    intro c hc
    obtain rfl := List.eq_of_mem_replicate hc
    rfl
  constructor
  · intro h
    exact quote_injective hsafe (h.trans hdots.symm)
  · rintro rfl
    exact hdots

theorem dropDots_map_quote (hsafe : '%' ∉ safe) (out segs : List Str) :
    dropDots (out.map (quote safe)) (segs.map (quote safe)) =
      (dropDots out segs).map (quote safe) := by
  have hdot : ∀ s, quote safe s = ['.'] ↔ s = ['.'] := fun s => quote_eq_dots (n := 1) hsafe
  have hdots : ∀ s, quote safe s = ['.', '.'] ↔ s = ['.', '.'] :=
    fun s => quote_eq_dots (n := 2) hsafe
  induction out, segs using dropDots.induct with
  | case1 out => simp [dropDots]
  | case2 out => simp [dropDots, hdot]
  | case3 out _ => simp [dropDots, hdot, hdots]
  | case4 out s h h' => simp [dropDots, hdot, hdots, h, h']
  | case5 out t rest ih => simpa [dropDots, hdot] using ih
  | case6 out t rest _ ih => simpa [dropDots, hdot, hdots] using ih
  | case7 out s t rest h h' ih => simpa [dropDots, hdot, hdots, h, h'] using ih

theorem intercalate_map_quote (hslash : isSafe safe '/' = true) (segs : List Str) :
    ['/'].intercalate (segs.map (quote safe)) = quote safe (['/'].intercalate segs) := by
  induction segs with
  | nil => rfl
  | cons s segs ih =>
      cases segs with
      | nil => simp
      | cons t segs =>
          rw [List.map_cons, List.map_cons, List.intercalate_cons_cons,
            List.intercalate_cons_cons, ← List.map_cons, ih, quote_append, quote_append,
            quote_cons_of_safe hslash]
          rfl

/-- Dot-segment removal commutes with quoting, because a dot is never quoted. -/
theorem undotted_quote (hsafe : '%' ∉ safe) (hslash : isSafe safe '/' = true) (s : Str) :
    undotted (quote safe s) = quote safe (undotted s) := by
  rw [undotted, splitOn_quote hslash rfl (by decide), undotted, ← intercalate_map_quote hslash,
    ← dropDots_map_quote hsafe]
  rfl

theorem noDotSegment_quote_iff (hsafe : '%' ∉ safe) (hslash : isSafe safe '/' = true) (s : Str) :
    NoDotSegment (quote safe s) ↔ NoDotSegment s := by
  unfold NoDotSegment
  rw [← undotted_eq_self_iff, ← undotted_eq_self_iff, undotted_quote hsafe hslash,
    (quote_injective hsafe).eq_iff]

end Quote

end GufoBlob.Uri
