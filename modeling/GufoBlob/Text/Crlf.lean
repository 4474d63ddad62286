import GufoBlob.Text.Basic

/-!
# CRLF-terminated lines

The framing of line protocols: a line is sent as its octets followed by CR LF, and read back up to
the first CR LF. `splitCrlf` is `b.split(b"\r\n")` and `cutLine` is `b.partition(b"\r\n")`.

The two are inverse to framing exactly on lines that contain no CR LF themselves
(`splitCrlf_frames_iff`, `cutLine_frame`).
-/

namespace GufoBlob.Text

/-- `b"\r\n"`. -/
def crlf : Bytes := [13, 10]

/-- CR LF occurs in the line. -/
def HasCrlf (b : Bytes) : Prop := crlf <:+: b

instance (b : Bytes) : Decidable (HasCrlf b) := inferInstanceAs (Decidable (crlf <:+: b))

/-- A line as it is sent. -/
def frame (l : Bytes) : Bytes := l ++ crlf

/-- `b.partition(b"\r\n")`: the text before the first CR LF and the text after it, or `none` when
there is no CR LF. -/
def cutLine : Bytes → Option (Bytes × Bytes)
  | [] => none
  | 13 :: 10 :: rest => some ([], rest)
  | b :: rest => (cutLine rest).map fun x => (b :: x.1, x.2)

/-- Adds an octet to the first line. -/
def consLine (b : UInt8) : List Bytes → List Bytes
  | [] => [[b]]
  | l :: ls => (b :: l) :: ls

/-- `b.split(b"\r\n")`. -/
def splitCrlf : Bytes → List Bytes
  | [] => [[]]
  | 13 :: 10 :: rest => [] :: splitCrlf rest
  | b :: rest => consLine b (splitCrlf rest)

/-- The octet sequence begins with LF. -/
def StartsLf (b : Bytes) : Prop := b.head? = some 10

theorem cutLine_cons {b : UInt8} {rest : Bytes} (h : ¬ (b = 13 ∧ StartsLf rest)) :
    cutLine (b :: rest) = (cutLine rest).map fun x => (b :: x.1, x.2) := by
  rw [cutLine]
  rintro r rfl rfl
  exact h ⟨rfl, rfl⟩

theorem splitCrlf_cons {b : UInt8} {rest : Bytes} (h : ¬ (b = 13 ∧ StartsLf rest)) :
    splitCrlf (b :: rest) = consLine b (splitCrlf rest) := by
  rw [splitCrlf]
  rintro r rfl rfl
  exact h ⟨rfl, rfl⟩

theorem not_hasCrlf_nil : ¬ HasCrlf [] := by
  rintro ⟨s, t, h⟩
  simp [crlf] at h

theorem hasCrlf_cons_iff {b : UInt8} {rest : Bytes} :
    HasCrlf (b :: rest) ↔ (b = 13 ∧ StartsLf rest) ∨ HasCrlf rest := by
  unfold HasCrlf
  rw [List.infix_cons_iff]
  refine or_congr_left ⟨?_, ?_⟩
  · rintro ⟨t, ht⟩
    simp only [crlf, List.cons_append, List.nil_append, List.cons.injEq] at ht
    obtain ⟨rfl, rfl⟩ := ht
    exact ⟨rfl, rfl⟩
  · rintro ⟨rfl, hlf⟩
    cases rest with
    | nil => simp [StartsLf] at hlf
    | cons c r =>
        obtain rfl : c = 10 := by simpa [StartsLf] using hlf
        exact ⟨r, rfl⟩

/-- A part of a line without CR LF has none either. -/
theorem not_hasCrlf_of_isInfix {b c : Bytes} (hb : ¬ HasCrlf b) (hc : c <:+: b) : ¬ HasCrlf c :=
  fun h => hb (List.IsInfix.trans h hc)

/-- No CR LF arises where a text is put in front of one that does not begin with LF. -/
theorem hasCrlf_append {l r : Bytes} (hr : ¬ StartsLf r) :
    HasCrlf (l ++ r) ↔ HasCrlf l ∨ HasCrlf r := by
  induction l with
  | nil => simp [not_hasCrlf_nil]
  | cons c l ih =>
      have hstarts : StartsLf (l ++ r) ↔ StartsLf l := by
        cases l with
        | nil => simpa [StartsLf] using hr
        | cons d l => rfl
      rw [List.cons_append, hasCrlf_cons_iff, hasCrlf_cons_iff, ih, hstarts, or_assoc]

/-- A line without CR LF, at the front of `l ++ crlf ++ rest`, keeps the recursions below on their
last clause. -/
private theorem head_ok {b : UInt8} {l rest : Bytes} (h : ¬ HasCrlf (b :: l)) :
    ¬ (b = 13 ∧ StartsLf (l ++ crlf ++ rest)) := by
  rintro ⟨rfl, hs⟩
  cases l with
  | nil => simp [StartsLf, crlf] at hs
  | cons c l => exact h (hasCrlf_cons_iff.mpr (Or.inl ⟨rfl, hs⟩))

/-- Reading a line back: the first CR LF is the one that ends it. -/
theorem cutLine_frame {l : Bytes} (h : ¬ HasCrlf l) (rest : Bytes) :
    cutLine (l ++ crlf ++ rest) = some (l, rest) := by
  induction l with
  | nil => rfl
  | cons b l ih =>
      rw [List.cons_append, List.cons_append, cutLine_cons (head_ok h),
        ih fun hl => h (hasCrlf_cons_iff.mpr (Or.inr hl))]
      rfl

theorem splitCrlf_frame {l : Bytes} (h : ¬ HasCrlf l) (rest : Bytes) :
    splitCrlf (l ++ crlf ++ rest) = l :: splitCrlf rest := by
  induction l with
  | nil => rfl
  | cons b l ih =>
      rw [List.cons_append, List.cons_append, splitCrlf_cons (head_ok h),
        ih fun hl => h (hasCrlf_cons_iff.mpr (Or.inr hl))]
      rfl

/-- `cutLine` finds nothing exactly where there is no CR LF. -/
theorem cutLine_eq_none_iff {b : Bytes} : cutLine b = none ↔ ¬ HasCrlf b := by
  induction b with
  | nil => simp [cutLine, not_hasCrlf_nil]
  | cons c b ih =>
      by_cases h : c = 13 ∧ StartsLf b
      · obtain ⟨rfl, hlf⟩ := h
        cases b with
        | nil => simp [StartsLf] at hlf
        | cons d b =>
            obtain rfl : d = 10 := by simpa [StartsLf] using hlf
            simp [cutLine, hasCrlf_cons_iff, StartsLf]
      · rw [cutLine_cons h, Option.map_eq_none_iff, ih, hasCrlf_cons_iff]
        simp [h]

/-- What `cutLine` returns: a line without CR LF, and the rest behind its terminator. -/
theorem cutLine_eq_some {b l rest : Bytes} (h : cutLine b = some (l, rest)) :
    b = l ++ crlf ++ rest ∧ ¬ HasCrlf l := by
  induction b generalizing l with
  | nil => simp [cutLine] at h
  | cons c b ih =>
      by_cases hc : c = 13 ∧ StartsLf b
      · obtain ⟨rfl, hlf⟩ := hc
        cases b with
        | nil => simp [StartsLf] at hlf
        | cons d b =>
            obtain rfl : d = 10 := by simpa [StartsLf] using hlf
            simp only [cutLine, Option.some.injEq, Prod.mk.injEq] at h
            obtain ⟨rfl, rfl⟩ := h
            exact ⟨rfl, not_hasCrlf_nil⟩
      · rw [cutLine_cons hc] at h
        obtain ⟨⟨l', r'⟩, hx, hl⟩ := Option.map_eq_some_iff.mp h
        simp only [Prod.mk.injEq] at hl
        obtain ⟨rfl, rfl⟩ := hl
        obtain ⟨rfl, hl'⟩ := ih hx
        refine ⟨rfl, fun hcr => ?_⟩
        rcases hasCrlf_cons_iff.mp hcr with ⟨rfl, hlf⟩ | hcr
        · refine hc ⟨rfl, ?_⟩
          cases l' with
          | nil => simp [StartsLf] at hlf
          | cons d l' => exact hlf
        · exact hl' hcr

/-- More text behind the first line. -/
theorem cutLine_append {b l rest : Bytes} (h : cutLine b = some (l, rest)) (y : Bytes) :
    cutLine (b ++ y) = some (l, rest ++ y) := by
  obtain ⟨rfl, hl⟩ := cutLine_eq_some h
  rw [List.append_assoc]
  exact cutLine_frame hl (rest ++ y)

/-- A text that ends with CR LF is made of lines. -/
theorem exists_frames (b : Bytes) :
    ∃ l ls, (∀ x ∈ l :: ls, ¬ HasCrlf x) ∧ b ++ crlf = (l :: ls).flatMap frame := by
  induction hn : b.length using Nat.strong_induction_on generalizing b with
  | h n ih =>
      cases hb : cutLine b with
      | none =>
          refine ⟨b, [], ?_, by simp [frame]⟩
          simpa using cutLine_eq_none_iff.mp hb
      | some x =>
          obtain ⟨l, rest⟩ := x
          obtain ⟨rfl, hl⟩ := cutLine_eq_some hb
          have hlt : rest.length < n := by
            rw [← hn]
            simp [crlf]
            omega
          obtain ⟨l', ls, hls, heq⟩ := ih rest.length hlt rest rfl
          refine ⟨l, l' :: ls, ?_, ?_⟩
          · intro x hx
            rcases List.mem_cons.mp hx with rfl | hx
            · exact hl
            · exact hls x hx
          · rw [List.append_assoc, heq]
            rfl

theorem splitCrlf_ne_nil (b : Bytes) : splitCrlf b ≠ [] := by
  fun_induction splitCrlf b with
  | case1 => simp
  | case2 rest ih => simp
  | case3 b rest _ ih =>
      cases h : splitCrlf rest with
      | nil => exact absurd h ih
      | cons l ls => simp [consLine]

/-- The pieces of a split contain no CR LF, and the first one starts as the whole text does. -/
theorem splitCrlf_spec (b : Bytes) :
    (∀ l ∈ splitCrlf b, ¬ HasCrlf l) ∧ ∀ l ls, splitCrlf b = l :: ls → l <+: b := by
  fun_induction splitCrlf b with
  | case1 => simp [not_hasCrlf_nil]
  | case2 rest ih =>
      refine ⟨?_, by simp +contextual⟩
      rintro l (_ | ⟨_, hl⟩)
      · exact not_hasCrlf_nil
      · exact ih.1 l hl
  | case3 b rest hne ih =>
      obtain ⟨l, ls, hs⟩ := List.exists_cons_of_ne_nil (splitCrlf_ne_nil rest)
      rw [hs] at ih ⊢
      have hpre : l <+: rest := ih.2 l ls rfl
      have hb : ¬ HasCrlf (b :: l) := by
        intro hcr
        rcases hasCrlf_cons_iff.mp hcr with ⟨rfl, hlf⟩ | hcr
        · obtain ⟨t, rfl⟩ := hpre
          cases l with
          | nil => simp [StartsLf] at hlf
          | cons d l =>
              obtain rfl : d = 10 := by simpa [StartsLf] using hlf
              exact hne _ rfl rfl
        · exact ih.1 l List.mem_cons_self hcr
      refine ⟨?_, ?_⟩
      · rintro x (_ | ⟨_, hx⟩)
        · exact hb
        · exact ih.1 x (List.mem_cons_of_mem _ hx)
      · rintro x xs hx
        obtain ⟨rfl, rfl⟩ := List.cons.inj hx
        exact (List.prefix_cons_inj b).mpr hpre

/-- Lines in front of a text are pieces of their own. -/
theorem splitCrlf_frames_append {ls : List Bytes} (h : ∀ l ∈ ls, ¬ HasCrlf l) (b : Bytes) :
    splitCrlf (ls.flatMap frame ++ b) = ls ++ splitCrlf b := by
  induction ls with
  | nil => rfl
  | cons l ls ih =>
      rw [List.flatMap_cons, List.append_assoc, frame, splitCrlf_frame (h l List.mem_cons_self),
        ih fun x hx => h x (List.mem_cons_of_mem _ hx)]
      rfl

theorem splitCrlf_of_not_hasCrlf {b : Bytes} (h : ¬ HasCrlf b) : splitCrlf b = [b] := by
  induction b with
  | nil => rfl
  | cons c b ih =>
      rw [splitCrlf_cons fun hc => h (hasCrlf_cons_iff.mpr (.inl hc)),
        ih fun hb => h (hasCrlf_cons_iff.mpr (.inr hb))]
      rfl

/-- **Framing is faithful exactly on lines without CR LF**: the octets of the framed lines, split
at CR LF, are the lines again (and the empty text behind the last terminator). -/
theorem splitCrlf_frames_iff {ls : List Bytes} :
    splitCrlf (ls.flatMap frame) = ls ++ [[]] ↔ ∀ l ∈ ls, ¬ HasCrlf l := by
  constructor
  · intro h l hl
    refine (splitCrlf_spec (ls.flatMap frame)).1 l ?_
    rw [h]
    exact List.mem_append_left _ hl
  · intro h
    have hsplit := splitCrlf_frames_append h []
    rwa [List.append_nil] at hsplit

/-! ## CR LF in text -/

/-- The text contains CR LF. -/
def BreaksLine (s : Str) : Prop := ['\r', '\n'] <:+: s

instance (s : Str) : Decidable (BreaksLine s) := inferInstanceAs (Decidable (_ <:+: s))

theorem breaksLine_cons_iff {c : Char} {s : Str} :
    BreaksLine (c :: s) ↔ (c = '\r' ∧ s.head? = some '\n') ∨ BreaksLine s := by
  unfold BreaksLine
  rw [List.infix_cons_iff]
  refine or_congr_left ⟨?_, ?_⟩
  · rintro ⟨t, ht⟩
    simp only [List.cons_append, List.nil_append, List.cons.injEq] at ht
    obtain ⟨rfl, rfl⟩ := ht
    exact ⟨rfl, rfl⟩
  · rintro ⟨rfl, hlf⟩
    cases s with
    | nil => simp at hlf
    | cons d s =>
        obtain rfl : d = '\n' := by simpa using hlf
        exact ⟨s, rfl⟩

theorem startsLf_encode {s : Str} : StartsLf (encode s) ↔ s.head? = some '\n' := by
  constructor
  · intro h
    obtain ⟨t, ht⟩ := List.head?_eq_some_iff.mp h
    obtain ⟨t', rfl, -⟩ := (encode_eq_cons_iff (a := '\n') (by decide)).mp ht
    rfl
  · intro h
    obtain ⟨t, rfl⟩ := List.head?_eq_some_iff.mp h
    rfl

/-- Encoding neither adds nor removes a CR LF. -/
theorem hasCrlf_encode {s : Str} : HasCrlf (encode s) ↔ BreaksLine s := by
  induction s with
  | nil => simp [not_hasCrlf_nil, BreaksLine]
  | cons c s ih =>
      rw [breaksLine_cons_iff, ← ih, ← startsLf_encode, encode_cons]
      by_cases hc : c.toNat < 128
      · rw [utf8EncodeChar_of_lt hc, List.singleton_append, hasCrlf_cons_iff]
        refine or_congr_left (and_congr_left fun _ => ⟨fun h => ?_, fun h => by rw [h]; rfl⟩)
        exact ofNat_toNat_inj hc (by decide : ('\r' : Char).toNat < 128) h
      · -- the octets of `c` are all outside ASCII, so none of them is a CR
        have hne : c ≠ '\r' := fun h => hc (h ▸ by decide)
        have hskip : ∀ x : Bytes, (∀ b ∈ x, 128 ≤ b.toNat) →
            (HasCrlf (x ++ encode s) ↔ HasCrlf (encode s)) := by
          intro x hx
          induction x with
          | nil => rfl
          | cons b x ihx =>
              have hb : b ≠ 13 := fun h => by
                have := hx b List.mem_cons_self
                rw [h] at this
                exact absurd this (by decide)
              rw [List.cons_append, hasCrlf_cons_iff,
                ihx fun y hy => hx y (List.mem_cons_of_mem _ hy)]
              simp [hb]
        rw [hskip _ fun b => le_of_mem_utf8EncodeChar (Nat.le_of_not_lt hc)]
        simp [hne]

end GufoBlob.Text
