import GufoBlob.Common.Ftp

/-!
# The features of a server

What `FTPFeatures.from_feat` makes of the answer to `FEAT`. RFC 3659 lets a server advertise `MLST`
for both `MLST` and `MLSD`.

* `fromFeat_exact_iff` — the answer is understood exactly when `MLSD` is advertised wherever `MLST`
  is, and no line consists of white space.
* `not_exact_mlst` — a server that advertises `MLST`.
-/

namespace GufoBlob.Ftp

open Text

/-- `b"MLST"`. -/
def mlst : Bytes := encode "MLST".toList

/-- The first word of a line, in upper case. -/
def firstWord (line : Bytes) : Option Bytes := (words line).head?.map fun w => w.map upper

/-! ## The loop -/

/-- Some line begins with the word `w`. -/
def Lists (w : Bytes) (lines : List Bytes) : Prop := ∃ l ∈ lines, firstWord l = some w

/-- A line that is not empty has a first word, except for one of white space. -/
theorem addFeature_cases (f : FTPFeatures) (line : Bytes) :
    (line ≠ [] ∧ words line = [] ∧ addFeature f line = .error .indexError) ∨
      ((words line = [] → line = []) ∧ ∃ g, addFeature f line = .ok g ∧
        (g.supportsSize = true ↔ f.supportsSize = true ∨ firstWord line = some size) ∧
        (g.supportsMlsd = true ↔ f.supportsMlsd = true ∨ firstWord line = some mlsd) ∧
        (g.supportsMlst = true ↔ f.supportsMlst = true ∨ firstWord line = some mlsd)) := by
  have hne : mlsd ≠ size := by decide
  unfold addFeature firstWord
  by_cases hline : line = []
  · right
    subst hline
    refine ⟨fun _ => rfl, f, rfl, ?_⟩
    simp [words]
  · rw [if_neg (by simpa using hline)]
    cases hwords : words line with
    | nil => exact .inl ⟨hline, rfl, rfl⟩
    | cons word rest =>
        right
        refine ⟨by simp, ?_⟩
        dsimp only
        by_cases hmlsd : word.map upper = mlsd
        · rw [if_pos hmlsd]
          exact ⟨_, rfl, by simp [hmlsd, hne], by simp [hmlsd], by simp [hmlsd]⟩
        · rw [if_neg hmlsd]
          by_cases hsize : word.map upper = size
          · rw [if_pos hsize]
            exact ⟨_, rfl, by simp [hsize], by simp [hsize, hne.symm], by simp [hsize, hne.symm]⟩
          · rw [if_neg hsize]
            exact ⟨_, rfl, by simp [hsize], by simp [hmlsd], by simp [hmlsd]⟩

/-- The flags after the lines, when the loop began with those of `f`. -/
structure Collects (f : FTPFeatures) (lines : List Bytes) (g : FTPFeatures) : Prop where
  supportsSize : g.supportsSize = true ↔ f.supportsSize = true ∨ Lists size lines
  supportsMlsd : g.supportsMlsd = true ↔ f.supportsMlsd = true ∨ Lists mlsd lines
  supportsMlst : g.supportsMlst = true ↔ f.supportsMlst = true ∨ Lists mlsd lines

theorem lists_cons_iff {w l : Bytes} {ls : List Bytes} :
    Lists w (l :: ls) ↔ firstWord l = some w ∨ Lists w ls := by
  unfold Lists
  rw [List.exists_mem_cons_iff]

/-- The loop collects the flags, unless a line consists of white space. -/
theorem foldlM_addFeature (lines : List Bytes) (f : FTPFeatures) :
    ((∀ l ∈ lines, words l = [] → l = []) →
        ∃ g, lines.foldlM addFeature f = .ok g ∧ Collects f lines g) ∧
      (¬ (∀ l ∈ lines, words l = [] → l = []) →
        lines.foldlM addFeature f = .error .indexError) := by
  induction lines generalizing f with
  | nil => exact ⟨fun _ => ⟨f, rfl, by simp [Lists], by simp [Lists], by simp [Lists]⟩,
      fun h => absurd (by simp) h⟩
  | cons l ls ih =>
      rw [List.forall_mem_cons, List.foldlM_cons]
      rcases addFeature_cases f l with ⟨hne, hnone, hadd⟩ | ⟨hline, g, hadd, hsize, hmlsd, hmlst⟩
      · rw [hadd]
        exact ⟨fun h => absurd (h.1 hnone) hne, fun _ => rfl⟩
      · obtain ⟨hok, herror⟩ := ih g
        rw [hadd]
        constructor
        · rintro ⟨-, hls⟩
          obtain ⟨g', hrun, hg'⟩ := hok hls
          refine ⟨g', hrun, ?_, ?_, ?_⟩
          · rw [hg'.supportsSize, hsize, lists_cons_iff, or_assoc]
          · rw [hg'.supportsMlsd, hmlsd, lists_cons_iff, or_assoc]
          · rw [hg'.supportsMlst, hmlst, lists_cons_iff, or_assoc]
        · exact fun h => herror fun hls => h ⟨hline, hls⟩

/-! ## Answers to `FEAT` -/

/-- The lines of an answer to `FEAT`: `ddd-text`, what is between, and `ddd text`. -/
structure FeatAnswer where
  code : Bytes
  text : Bytes
  features : List Bytes
  endCode : Bytes
  endText : Bytes
  code_digits : code.length = 3 ∧ code.all isDigit = true
  endCode_digits : endCode.length = 3 ∧ endCode.all isDigit = true
  /-- The lines between begin with a space, or are blank. -/
  feature : ∀ l ∈ features, l.head? = some 32 ∨ l.all isSpace = true

namespace FeatAnswer

variable (a : FeatAnswer)

def lines : List Bytes :=
  (a.code ++ 45 :: a.text) :: a.features ++ [a.endCode ++ 32 :: a.endText]

/-- Some feature line's first word is `w`. -/
def Advertises (w : Bytes) : Prop := Lists w a.features

/-- `from_feat` finds what the server advertises. -/
def Exact : Prop :=
  ∃ f, fromFeat a.lines = .ok f ∧ (f.supportsSize = true ↔ a.Advertises size) ∧
    (f.supportsMlsd = true ↔ a.Advertises mlst ∨ a.Advertises mlsd) ∧
    (f.supportsMlst = true ↔ a.Advertises mlst ∨ a.Advertises mlsd)

/-- No line consists of white space; an empty line is not one of them. -/
def NoSpaceLine : Prop := ∀ l ∈ a.features, (∀ x ∈ l, isSpace x = true) → l = []

end FeatAnswer

/-- A line that begins with a reply code has a first word, but advertises nothing. -/
theorem words_of_code {code : Bytes} (hcode : code.length = 3 ∧ code.all isDigit = true)
    (rest : Bytes) : words (code ++ rest) ≠ [] ∧
      ∀ w ∈ [size, mlst, mlsd], firstWord (code ++ rest) ≠ some w := by
  obtain ⟨hlength, hdigits⟩ := hcode
  obtain ⟨d, ds, rfl⟩ := List.exists_cons_of_length_eq_add_one hlength
  have hd : 48 ≤ d.toNat ∧ d.toNat ≤ 57 :=
    isDigit_iff.mp (List.all_eq_true.mp hdigits d List.mem_cons_self)
  have hspace : isSpace d = false := by
    simp [isSpace, ← UInt8.toNat_inj, UInt8.le_iff_toNat_le]
    omega
  have hupper : upper d = d := by
    unfold upper
    rw [if_neg]
    simp [UInt8.le_iff_toNat_le]
    omega
  obtain ⟨v, vs, hv⟩ := words_cons hspace (ds ++ rest)
  rw [List.cons_append]
  refine ⟨by simp [hv], fun w hw hfirst => ?_⟩
  have hhead : w.head? = some d := by
    rw [firstWord, hv] at hfirst
    obtain rfl := Option.some.inj hfirst
    simp [hupper]
  -- the commands begin with letters
  have hletter : ∀ w ∈ [size, mlst, mlsd], w.head? = some 83 ∨ w.head? = some 77 := by decide
  rcases hletter w hw with h | h
  · obtain rfl := Option.some.inj (hhead.symm.trans h)
    exact absurd hd.2 (by decide)
  · obtain rfl := Option.some.inj (hhead.symm.trans h)
    exact absurd hd.2 (by decide)

namespace FeatAnswer

variable (a : FeatAnswer)

/-- The first line and the last one advertise nothing. -/
theorem lists_iff {w : Bytes} (hw : w ∈ [size, mlst, mlsd]) :
    Lists w a.lines ↔ a.Advertises w := by
  have hfirst := (words_of_code a.code_digits (45 :: a.text)).2 w hw
  have hlast := (words_of_code a.endCode_digits (32 :: a.endText)).2 w hw
  unfold Advertises Lists lines
  constructor
  · rintro ⟨l, hl, hword⟩
    rcases List.mem_append.mp hl with hl | hl
    · rcases List.mem_cons.mp hl with rfl | hl
      · exact absurd hword hfirst
      · exact ⟨l, hl, hword⟩
    · rw [List.mem_singleton.mp hl] at hword
      exact absurd hword hlast
  · rintro ⟨l, hl, hword⟩
    exact ⟨l, List.mem_append_left _ (List.mem_cons_of_mem _ hl), hword⟩

theorem noSpaceLine_iff : a.NoSpaceLine ↔ ∀ l ∈ a.lines, words l = [] → l = [] := by
  have hfirst := (words_of_code a.code_digits (45 :: a.text)).1
  have hlast := (words_of_code a.endCode_digits (32 :: a.endText)).1
  unfold NoSpaceLine lines
  constructor
  · intro h l hl hwords
    rcases List.mem_append.mp hl with hl | hl
    · rcases List.mem_cons.mp hl with rfl | hl
      · exact absurd hwords hfirst
      · exact h l hl (words_eq_nil_iff.mp hwords)
    · rw [List.mem_singleton.mp hl] at hwords
      exact absurd hwords hlast
  · intro h l hl hspace
    exact h l (List.mem_append_left _ (List.mem_cons_of_mem _ hl)) (words_eq_nil_iff.mpr hspace)

end FeatAnswer

/-- **The answer to `FEAT` is understood exactly when it is a simple one**: no line consists of white
space, and `MLSD` is advertised by its own name. -/
theorem fromFeat_exact_iff (a : FeatAnswer) :
    a.Exact ↔ a.NoSpaceLine ∧ (a.Advertises mlst → a.Advertises mlsd) := by
  obtain ⟨hok, herror⟩ := foldlM_addFeature a.lines {}
  rw [← a.noSpaceLine_iff] at hok herror
  unfold FeatAnswer.Exact fromFeat
  constructor
  · rintro ⟨f, hrun, -, hmlsd, -⟩
    have hno : a.NoSpaceLine := by
      by_contra hspace
      rw [herror hspace] at hrun
      cases hrun
    obtain ⟨g, hrun', hg⟩ := hok hno
    obtain rfl : f = g := Except.ok.inj (hrun.symm.trans hrun')
    refine ⟨hno, fun hmlst => ?_⟩
    have hfound := hg.supportsMlsd.mp (hmlsd.mpr (.inl hmlst))
    rw [a.lists_iff (by simp)] at hfound
    exact hfound.resolve_left (by simp)
  · rintro ⟨hno, hmlst⟩
    obtain ⟨g, hrun, hg⟩ := hok hno
    have heither : a.Advertises mlst ∨ a.Advertises mlsd ↔ a.Advertises mlsd :=
      ⟨fun h => h.elim hmlst id, .inr⟩
    refine ⟨g, hrun, ?_, ?_, ?_⟩
    · rw [hg.supportsSize, a.lists_iff (by simp)]
      simp
    · rw [hg.supportsMlsd, a.lists_iff (by simp), heither]
      simp
    · rw [hg.supportsMlst, a.lists_iff (by simp), heither]
      simp

/-! ## Two answers -/

theorem digits_status : (encode "211".toList).length = 3 ∧
    (encode "211".toList).all isDigit = true := by decide

/-- `211-Features:`, the lines, and `211 End`. -/
def featAnswer (features : List Bytes)
    (feature : ∀ l ∈ features, l.head? = some 32 ∨ l.all isSpace = true) : FeatAnswer where
  code := encode "211".toList
  text := encode "Features:".toList
  features
  endCode := encode "211".toList
  endText := encode "End".toList
  code_digits := digits_status
  endCode_digits := digits_status
  feature

/-- ` MLST size*;` and ` SIZE`. -/
def mlstLines : List Bytes := [encode " MLST size*;".toList, encode " SIZE".toList]

/-- ` MLSD size*;` and a line with one space. -/
def spaceLines : List Bytes := [encode " MLSD size*;".toList, [32]]

theorem feature_mlstLines : ∀ l ∈ mlstLines, l.head? = some 32 ∨ l.all isSpace = true := by decide

theorem feature_spaceLines : ∀ l ∈ spaceLines, l.head? = some 32 ∨ l.all isSpace = true := by
  decide

/-- One answer is taken for one without `MLST` and `MLSD`, and the other one raises `IndexError`. -/
theorem not_exact_mlst :
    (fromFeat (featAnswer mlstLines feature_mlstLines).lines = .ok { supportsSize := true } ∧
        ¬ (featAnswer mlstLines feature_mlstLines).Exact) ∧
      (fromFeat (featAnswer spaceLines feature_spaceLines).lines = .error .indexError ∧
        ¬ (featAnswer spaceLines feature_spaceLines).Exact) := by
  have hmlst : fromFeat (featAnswer mlstLines feature_mlstLines).lines =
      .ok { supportsSize := true } := by decide
  have hspace : fromFeat (featAnswer spaceLines feature_spaceLines).lines = .error .indexError := by
    decide
  refine ⟨⟨hmlst, ?_⟩, hspace, ?_⟩
  · rintro ⟨f, hrun, -, -, hiff⟩
    obtain rfl := Except.ok.inj (hmlst.symm.trans hrun)
    have hlisted : Lists mlst mlstLines := ⟨_, List.mem_cons_self, by decide⟩
    exact absurd (hiff.mpr (.inl hlisted)) (by simp)
  · rintro ⟨f, hrun, -⟩
    rw [hspace] at hrun
    cases hrun

end GufoBlob.Ftp
