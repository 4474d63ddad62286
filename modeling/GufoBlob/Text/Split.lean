import GufoBlob.Text.Crlf

/-!
# Stripping and splitting

The methods of `str` and `bytes` that cut a text at its ends or at separators: `strip`, `rstrip`,
`lstrip`, `split()` and `splitlines`. `s.split(c)` is `List.splitOn c`.

What is proved is what the callers need to know about the pieces: they are parts of the text, and a
line has no line break in it.
-/

namespace GufoBlob.Text

section Strip

variable {α : Type} (p : α → Bool) (s : List α)

/-- `s.lstrip(chars)`, where `p` says which characters those are. -/
def lstrip : List α := s.dropWhile p

/-- `s.rstrip(chars)`. -/
def rstrip : List α := (s.reverse.dropWhile p).reverse

/-- `s.strip(chars)`. -/
def strip : List α := rstrip p (lstrip p s)

theorem lstrip_isSuffix : lstrip p s <:+ s := List.dropWhile_suffix p

theorem rstrip_isPrefix : rstrip p s <+: s := by
  have h := List.reverse_prefix.mpr (List.dropWhile_suffix p (l := s.reverse))
  rwa [List.reverse_reverse] at h

theorem strip_of_forall (h : ∀ x ∈ s, p x = false) : strip p s = s := by
  have hdrop : ∀ t : List α, (∀ x ∈ t, p x = false) → t.dropWhile p = t := by
    intro t ht
    cases t with
    | nil => rfl
    | cons x t => exact List.dropWhile_cons_of_neg (by simp [ht x])
  unfold strip rstrip lstrip
  rw [hdrop s h, hdrop s.reverse (by simpa using h), List.reverse_reverse]

theorem strip_isInfix : strip p s <:+: s :=
  (rstrip_isPrefix p _).isInfix.trans (lstrip_isSuffix p s).isInfix

/-- Nothing is stripped from a text that does not end in one of the characters. -/
theorem rstrip_append_singleton {c : α} (hc : p c = false) : rstrip p (s ++ [c]) = s ++ [c] := by
  simp [rstrip, hc]

end Strip

/-- The octet is ASCII white space. -/
def isSpace (b : UInt8) : Bool := b = 32 || (9 ≤ b && b ≤ 13)

/-- `b.split()`: the words between runs of white space. -/
def words (b : Bytes) : List Bytes := (b.splitOnP isSpace).filter fun w => !w.isEmpty

/-- `b.splitlines()`. -/
def splitlines : Bytes → List Bytes
  | [] => []
  | 13 :: 10 :: rest => [] :: splitlines rest
  | 13 :: rest => [] :: splitlines rest
  | 10 :: rest => [] :: splitlines rest
  | b :: rest => consLine b (splitlines rest)

/-- A line contains no line feed. -/
theorem notMem_of_mem_splitlines {b l : Bytes} (hl : l ∈ splitlines b) : 10 ∉ l := by
  fun_induction splitlines b generalizing l with
  | case1 => cases hl
  | case2 rest ih =>
      rcases List.mem_cons.mp hl with rfl | hl
      · simp
      · exact ih hl
  | case3 rest _ ih =>
      rcases List.mem_cons.mp hl with rfl | hl
      · simp
      · exact ih hl
  | case4 rest ih =>
      rcases List.mem_cons.mp hl with rfl | hl
      · simp
      · exact ih hl
  | case5 b rest _ _ hb ih =>
      have hne : (10 : UInt8) ≠ b := fun h => hb h.symm
      cases hs : splitlines rest with
      | nil =>
          obtain rfl : l = [b] := by simpa [hs, consLine] using hl
          simpa using hne
      | cons x xs =>
          rw [hs] at hl ih
          rcases List.mem_cons.mp hl with rfl | hl
          · have hx := ih List.mem_cons_self
            simp [hne, hx]
          · exact ih (List.mem_cons_of_mem _ hl)

/-! ## Parts of a text -/

section SplitOn

variable {α : Type} {p : α → Bool}

/-- The pieces of a split are parts of the text without separators, and the first one is a prefix
of it. -/
theorem splitOnP_pieces (xs : List α) :
    (∀ w ∈ xs.splitOnP p, w <:+: xs ∧ ∀ x ∈ w, p x = false) ∧
      ∀ w ws, xs.splitOnP p = w :: ws → w <+: xs := by
  induction xs with
  | nil => simp
  | cons a xs ih =>
      rw [List.splitOnP_cons_eq_if_modifyHead]
      obtain ⟨hpieces, hhead⟩ := ih
      split
      · refine ⟨fun w hw => ?_, fun w ws h => ?_⟩
        · rcases List.mem_cons.mp hw with rfl | hw
          · exact ⟨List.nil_infix, by simp⟩
          · obtain ⟨hin, hno⟩ := hpieces w hw
            exact ⟨hin.trans (List.suffix_cons a xs).isInfix, hno⟩
        · obtain ⟨rfl, -⟩ := List.cons.inj h
          exact List.nil_prefix
      · next ha =>
          obtain ⟨v, vs, hv⟩ := List.exists_cons_of_ne_nil (List.splitOnP_ne_nil p xs)
          have hpre : v <+: xs := hhead v vs hv
          rw [hv] at hpieces
          rw [hv, List.modifyHead_cons]
          refine ⟨fun w hw => ?_, fun w ws h => ?_⟩
          · rcases List.mem_cons.mp hw with rfl | hw
            · have hno := (hpieces v List.mem_cons_self).2
              refine ⟨((List.prefix_cons_inj a).mpr hpre).isInfix, fun x hx => ?_⟩
              rcases List.mem_cons.mp hx with rfl | hx
              · simpa using ha
              · exact hno x hx
            · obtain ⟨hin, hno⟩ := hpieces w (List.mem_cons_of_mem _ hw)
              exact ⟨hin.trans (List.suffix_cons a xs).isInfix, hno⟩
          · obtain ⟨rfl, -⟩ := List.cons.inj h
            exact (List.prefix_cons_inj a).mpr hpre

theorem infix_of_mem_splitOn [BEq α] {c : α} {w xs : List α} (h : w ∈ xs.splitOn c) : w <:+: xs := by
  rw [List.splitOn_eq_splitOnP] at h
  exact ((splitOnP_pieces xs).1 w h).1

theorem notMem_of_mem_splitOn [BEq α] [LawfulBEq α] {c : α} {w xs : List α}
    (h : w ∈ xs.splitOn c) : c ∉ w := by
  rw [List.splitOn_eq_splitOnP] at h
  intro hc
  simpa using ((splitOnP_pieces xs).1 w h).2 c hc

/-- What is left of a text without its separators. -/
theorem flatten_splitOn [BEq α] [LawfulBEq α] (c : α) (xs : List α) :
    (xs.splitOn c).flatten = xs.filter fun x => !(x == c) := by
  rw [List.splitOn_eq_splitOnP]
  induction xs with
  | nil => simp
  | cons a xs ih =>
      rw [List.splitOnP_cons_eq_if_modifyHead]
      obtain ⟨v, vs, hv⟩ := List.exists_cons_of_ne_nil (List.splitOnP_ne_nil (· == c) xs)
      rw [hv] at ih ⊢
      by_cases ha : a == c
      · simpa [ha] using ih
      · simpa [ha] using ih

/-- Joining the first pieces gives a prefix of joining all of them. -/
theorem intercalate_take_isPrefix (sep : List α) (n : Nat) (ws : List (List α)) :
    sep.intercalate (ws.take n) <+: sep.intercalate ws := by
  induction n generalizing ws with
  | zero => exact List.nil_prefix
  | succ n ih =>
      match ws with
      | [] => exact List.nil_prefix
      | [w] => simp
      | w :: v :: vs =>
          rw [List.take_succ_cons]
          cases n with
          | zero =>
              rw [List.take_zero, List.intercalate_singleton, List.intercalate_cons_cons,
                List.append_assoc]
              exact List.prefix_append _ _
          | succ n =>
              have hrest := ih (v :: vs)
              rw [List.take_succ_cons] at hrest ⊢
              rw [List.intercalate_cons_cons, List.intercalate_cons_cons]
              exact (List.prefix_append_right_inj _).mpr hrest

end SplitOn

/-- A part without `c` lies on one side of it. -/
theorem infix_append_cons_iff {c : α} {w xs ys : List α} (hc : c ∉ w) :
    w <:+: xs ++ c :: ys ↔ w <:+: xs ∨ w <:+: ys := by
  constructor
  · rintro ⟨s, t, h⟩
    rw [List.append_assoc] at h
    rcases List.append_eq_append_iff.mp h with ⟨u, hxs, hw⟩ | ⟨u, rfl, hys⟩
    · -- the part begins in `xs`
      rcases List.append_eq_append_iff.mp hw with ⟨v, hu, -⟩ | ⟨v, hwv, hv⟩
      · left
        exact ⟨s, v, by rw [hxs, hu, List.append_assoc]⟩
      · cases v with
        | nil => exact .inl ⟨s, [], by rw [hxs, hwv]; simp⟩
        | cons b v =>
            obtain ⟨rfl, -⟩ := List.cons.inj hv
            exact absurd (by rw [hwv]; simp) hc
    · right
      cases u with
      | nil =>
          cases w with
          | nil => exact List.nil_infix
          | cons b w =>
              obtain ⟨rfl, -⟩ := List.cons.inj hys
              exact absurd List.mem_cons_self hc
      | cons b u =>
          obtain ⟨-, hys⟩ := List.cons.inj hys
          exact ⟨u, t, (List.append_assoc u w t).trans hys.symm⟩
  · rintro (h | h)
    · exact h.trans (List.prefix_append xs _).isInfix
    · exact h.trans ((List.suffix_cons c ys).trans (List.suffix_append xs _)).isInfix

/-- A word is a part of the text. -/
theorem infix_of_mem_words {b w : Bytes} (h : w ∈ words b) : w <:+: b :=
  ((splitOnP_pieces b).1 w (List.mem_of_mem_filter h)).1

/-- A word contains no white space. -/
theorem isSpace_of_mem_words {b w : Bytes} (h : w ∈ words b) : ∀ x ∈ w, isSpace x = false :=
  ((splitOnP_pieces b).1 w (List.mem_of_mem_filter h)).2

theorem words_append {s : UInt8} (hs : isSpace s = true) (b c : Bytes) :
    words (b ++ s :: c) = words b ++ words c := by
  unfold words
  rw [List.splitOnP_append_cons b c hs, List.filter_append]

theorem words_singleton {w : Bytes} (hw : w ≠ []) (hspace : ∀ x ∈ w, isSpace x = false) :
    words w = [w] := by
  unfold words
  rw [List.splitOnP_eq_singleton hspace, List.filter_cons_of_pos (by simpa using hw)]
  rfl

/-- The first word begins where the white space ends. -/
theorem words_cons {a : UInt8} (ha : isSpace a = false) (b : Bytes) :
    ∃ w ws, words (a :: b) = (a :: w) :: ws := by
  obtain ⟨v, vs, hv⟩ := List.exists_cons_of_ne_nil (List.splitOnP_ne_nil isSpace b)
  refine ⟨v, vs.filter fun w => !w.isEmpty, ?_⟩
  unfold words
  rw [List.splitOnP_cons_eq_if_modifyHead, ha, if_neg (by decide), hv, List.modifyHead_cons,
    List.filter_cons_of_pos (by simp)]

theorem words_eq_nil_iff {b : Bytes} : words b = [] ↔ ∀ x ∈ b, isSpace x = true := by
  induction b with
  | nil => simp [words]
  | cons a b ih =>
      rw [List.forall_mem_cons, ← ih]
      cases ha : isSpace a with
      | true =>
          have hspace : words (a :: b) = words b := words_append ha [] b
          simp [hspace]
      | false =>
          obtain ⟨w, ws, hw⟩ := words_cons ha b
          simp [hw]

/-- A line without CR and LF. -/
def OneLine (l : Bytes) : Prop := 13 ∉ l ∧ 10 ∉ l

theorem oneLine_append {l r : Bytes} : OneLine (l ++ r) ↔ OneLine l ∧ OneLine r := by
  unfold OneLine
  grind

theorem oneLine_encode {s : Str} (hcr : '\r' ∉ s) (hlf : '\n' ∉ s) : OneLine (encode s) :=
  ⟨fun h => hcr ((mem_encode_iff (a := '\r') (by decide)).mp h),
    fun h => hlf ((mem_encode_iff (a := '\n') (by decide)).mp h)⟩

theorem splitlines_cons {b : UInt8} {rest : Bytes} (hb : b ≠ 13 ∧ b ≠ 10) :
    splitlines (b :: rest) = consLine b (splitlines rest) := by
  rw [splitlines]
  · exact fun _ h _ => hb.1 h
  · exact hb.1
  · exact hb.2

theorem splitlines_frame {l : Bytes} (hl : OneLine l) (rest : Bytes) :
    splitlines (frame l ++ rest) = l :: splitlines rest := by
  unfold frame
  induction l with
  | nil => rfl
  | cons b l ih =>
      obtain ⟨hcr, hlf⟩ := hl
      rw [List.cons_append, List.cons_append, splitlines_cons ⟨by grind, by grind⟩,
        ih ⟨by grind, by grind⟩]
      rfl

/-- Lines that end in CR LF are read back. -/
theorem splitlines_frames {ls : List Bytes} (hls : ∀ l ∈ ls, OneLine l) :
    splitlines (ls.flatMap frame) = ls := by
  induction ls with
  | nil => rfl
  | cons l ls ih =>
      rw [List.flatMap_cons, splitlines_frame (hls l List.mem_cons_self),
        ih fun l' hl' => hls l' (List.mem_cons_of_mem l hl')]

/-- Octets that can be decoded are the encoding of the text. -/
theorem encode_of_decode {b : Bytes} {s : Str} (h : decode b = some s) : encode s = b := by
  obtain ⟨cs, hcs, rfl⟩ := Option.map_eq_some_iff.mp h
  have hsome : b.toByteArray.utf8Decode?.isSome := by rw [hcs]; rfl
  have henc := ByteArray.utf8Encode_get_utf8Decode? (b := b.toByteArray) (h := hsome)
  have hget : b.toByteArray.utf8Decode?.get hsome = cs := by simp [hcs]
  rw [hget] at henc
  have h₁ : (encode cs.toList).toByteArray = cs.toList.utf8Encode := rfl
  have h₂ := congrArg (fun x : ByteArray => x.data.toList) (h₁.trans henc)
  simpa using h₂

theorem BreaksLine.mem {s : Str} (h : BreaksLine s) : '\n' ∈ s := by
  obtain ⟨u, v, rfl⟩ := h
  simp

theorem BreaksLine.of_infix {s t : Str} (h : BreaksLine s) (hst : s <:+: t) : BreaksLine t :=
  List.IsInfix.trans h hst

/-- Text in front that has no CR adds no CR LF. -/
theorem breaksLine_append_iff {s t : Str} (hs : '\r' ∉ s) : BreaksLine (s ++ t) ↔ BreaksLine t := by
  induction s with
  | nil => rfl
  | cons c s ih =>
      have hc : c ≠ '\r' := fun h => hs (by simp [h])
      have htail : '\r' ∉ s := fun h => hs (List.mem_cons_of_mem _ h)
      rw [List.cons_append, breaksLine_cons_iff, ih htail]
      simp [hc]

end GufoBlob.Text
