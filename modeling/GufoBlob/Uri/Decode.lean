import GufoBlob.Uri.Urllib
import Mathlib.Data.List.TakeWhile

/-!
# Decoding what was quoted

`unquote` replaces what is no UTF-8, and so has nothing to replace in a quoted text: it gives the
text back (`unquote_quote`). `parse_qsl` gives back the pairs of a query whose names and values are
quoted (`parseQsl_quoted`).

The decoder is followed character by character: `decodeFrom_utf8EncodeChar` has one case for each
length of an encoding.
-/

namespace GufoBlob.Uri

open Text

/-! ## UTF-8 -/

/-- An octet that continues a sequence which needs more of them. -/
theorem decodeFrom_more {p : Pending} {b : UInt8} {bs : Bytes} (hlo : p.lo ≤ b.toNat)
    (hhi : b.toNat ≤ p.hi) (hneed : p.need ≠ 1) :
    decodeFrom (some p) (b :: bs) =
      decodeFrom (some ⟨p.need - 1, 0x80, 0xBF, 64 * p.bits + (b.toNat - 0x80)⟩) bs := by
  simp [decodeFrom, hlo, hhi, hneed]

/-- The last octet of a sequence. -/
theorem decodeFrom_last {p : Pending} {b : UInt8} {bs : Bytes} (hlo : p.lo ≤ b.toNat)
    (hhi : b.toNat ≤ p.hi) (hneed : p.need = 1) :
    decodeFrom (some p) (b :: bs) =
      Char.ofNat (64 * p.bits + (b.toNat - 0x80)) :: decodeFrom none bs := by
  simp [decodeFrom, hlo, hhi, hneed]

theorem toNat_ofNat {n : Nat} (h : n < 256) : (UInt8.ofNat n).toNat = n := by
  rw [UInt8.toNat_ofNat', Nat.mod_eq_of_lt h]

/-! A leading octet says which octets may follow it: not those of a longer encoding than is needed,
and not those of a surrogate. -/

theorem firstOctet_two {v : Nat} (hlo : 0x80 ≤ v) (hhi : v ≤ 0x7ff) :
    firstOctet (v / 64 + 0xc0) = ([], some ⟨1, 0x80, 0xBF, v / 64⟩) := by
  unfold firstOctet
  rw [if_neg (by omega), if_pos (by omega)]
  simp

theorem firstOctet_three {v : Nat} (hlo : 0x800 ≤ v) (hhi : v ≤ 0xffff)
    (hvalid : v < 0xD800 ∨ 0xDFFF < v) :
    ∃ lo hi, firstOctet (v / 4096 + 0xe0) = ([], some ⟨2, lo, hi, v / 4096⟩) ∧
      lo ≤ v / 64 % 64 + 0x80 ∧ v / 64 % 64 + 0x80 ≤ hi := by
  unfold firstOctet
  rw [if_neg (by omega), if_neg (by omega)]
  by_cases hzero : v / 4096 = 0
  · rw [if_pos (by omega), hzero]
    exact ⟨_, _, rfl, by omega, by omega⟩
  · rw [if_neg (by omega)]
    by_cases hsurrogates : v / 4096 = 0xD
    · rw [if_pos (by omega), hsurrogates]
      exact ⟨_, _, rfl, by omega, by omega⟩
    · rw [if_neg (by omega), if_pos (by omega)]
      refine ⟨0x80, 0xBF, ?_, by omega, by omega⟩
      simp

theorem firstOctet_four {v : Nat} (hlo : 0x10000 ≤ v) (hhi : v < 0x110000) :
    ∃ lo hi, firstOctet (v / 262144 + 0xf0) = ([], some ⟨3, lo, hi, v / 262144⟩) ∧
      lo ≤ v / 4096 % 64 + 0x80 ∧ v / 4096 % 64 + 0x80 ≤ hi := by
  unfold firstOctet
  rw [if_neg (by omega), if_neg (by omega), if_neg (by omega), if_neg (by omega), if_neg (by omega)]
  by_cases hzero : v / 262144 = 0
  · rw [if_pos (by omega), hzero]
    exact ⟨_, _, rfl, by omega, by omega⟩
  · rw [if_neg (by omega)]
    by_cases hlast : v / 262144 = 4
    · rw [if_pos (by omega), hlast]
      exact ⟨_, _, rfl, by omega, by omega⟩
    · rw [if_neg (by omega), if_pos (by omega)]
      refine ⟨0x80, 0xBF, ?_, by omega, by omega⟩
      simp

/-- A character is read back from its octets. -/
theorem decodeFrom_utf8EncodeChar (c : Char) (bs : Bytes) :
    decodeFrom none (String.utf8EncodeChar c ++ bs) = c :: decodeFrom none bs := by
  have hc : Char.ofNat c.val.toNat = c := Char.ofNat_toNat c
  have hvalid : c.val.toNat < 0xD800 ∨ (0xDFFF < c.val.toNat ∧ c.val.toNat < 0x110000) := c.valid
  unfold String.utf8EncodeChar
  generalize c.val.toNat = v at hc hvalid ⊢
  -- The first octet gives the length, and the bits of the octets are the number again. The octets
  -- behind it hold six bits each.
  have hsix : ∀ n, (UInt8.ofNat (n % 0x40 + 0x80)).toNat = n % 64 + 0x80 := by
    intro n
    exact toNat_ofNat (by omega)
  by_cases h1 : v ≤ 0x7f
  · have hfirst : (UInt8.ofNat v).toNat = v := toNat_ofNat (by omega)
    have hlt : v < 0x80 := by omega
    simp [h1, decodeFrom, firstOctet, hfirst, hlt, hc]
  by_cases h2 : v ≤ 0x7ff
  · have hfirst : (UInt8.ofNat (v / 64 % 0x20 + 0xc0)).toNat = v / 64 + 0xc0 := by
      rw [toNat_ofNat (by omega)]
      omega
    have hbits : 64 * (v / 64) + v % 64 = v := by omega
    rw [if_neg h1, if_pos h2, List.cons_append, List.cons_append, decodeFrom, hfirst,
      firstOctet_two (by omega) h2, decodeFrom_last (by rw [hsix]; dsimp only; omega)
        (by rw [hsix]; dsimp only; omega) rfl, hsix]
    simp [hbits, hc]
  by_cases h3 : v ≤ 0xffff
  · have hfirst : (UInt8.ofNat (v / 4096 % 0x10 + 0xe0)).toNat = v / 4096 + 0xe0 := by
      rw [toNat_ofNat (by omega)]
      omega
    have hbits : 64 * (64 * (v / 4096) + v / 64 % 64) + v % 64 = v := by omega
    obtain ⟨lo, hi, hoctet, hlo, hhi⟩ := firstOctet_three (v := v) (by omega) h3 (by omega)
    rw [if_neg h1, if_neg h2, if_pos h3, List.cons_append, List.cons_append, List.cons_append,
      decodeFrom, hfirst, hoctet, decodeFrom_more (by rw [hsix]; exact hlo)
        (by rw [hsix]; exact hhi) (by simp), hsix,
      decodeFrom_last (by rw [hsix]; dsimp only; omega) (by rw [hsix]; dsimp only; omega) rfl, hsix]
    simp [hbits, hc]
  · have hfirst : (UInt8.ofNat (v / 262144 % 0x08 + 0xf0)).toNat = v / 262144 + 0xf0 := by
      rw [toNat_ofNat (by omega)]
      omega
    have hbits : 64 * (64 * (64 * (v / 262144) + v / 4096 % 64) + v / 64 % 64) + v % 64 = v := by
      omega
    obtain ⟨lo, hi, hoctet, hlo, hhi⟩ := firstOctet_four (v := v) (by omega) (by omega)
    rw [if_neg h1, if_neg h2, if_neg h3, List.cons_append, List.cons_append, List.cons_append,
      List.cons_append, decodeFrom, hfirst, hoctet, decodeFrom_more (by rw [hsix]; exact hlo)
        (by rw [hsix]; exact hhi) (by simp), hsix,
      decodeFrom_more (by rw [hsix]; dsimp only; omega) (by rw [hsix]; dsimp only; omega) (by simp),
      hsix,
      decodeFrom_last (by rw [hsix]; dsimp only; omega) (by rw [hsix]; dsimp only; omega) rfl, hsix]
    simp [hbits, hc]

theorem decodeReplace_encode_append (s : Str) (bs : Bytes) :
    decodeReplace (encode s ++ bs) = s ++ decodeReplace bs := by
  unfold decodeReplace
  induction s with
  | nil => rfl
  | cons c s ih =>
      rw [encode_cons, List.append_assoc, decodeFrom_utf8EncodeChar, ih]
      rfl

@[simp] theorem decodeReplace_encode (s : Str) : decodeReplace (encode s) = s := by
  have h := decodeReplace_encode_append s []
  rw [List.append_nil] at h
  simpa [decodeReplace, decodeFrom] using h

/-! ## Quoted text -/

section Quote

variable {safe : List Char}

/-- `unquote` undoes `quote`. -/
theorem unquote_quote (hsafe : '%' ∉ safe) (s : Str) : unquote (quote safe s) = s := by
  unfold unquote
  rw [percentDecode_quote hsafe, decodeReplace_encode]

/-- A text without `%` stands for itself. -/
theorem unquote_of_notMem {s : Str} (hs : '%' ∉ s) : unquote s = s := by
  have hdecode : percentDecode s = encode s := by
    induction s with
    | nil => rfl
    | cons c s ih =>
        have hc : c ≠ '%' := by
          rintro rfl
          simp at hs
        rw [percentDecode_cons hc, ih (List.not_mem_of_not_mem_cons hs), encode_cons]
  unfold unquote
  rw [hdecode, decodeReplace_encode]

/-- `unquote_plus` is `unquote` where there is no plus sign. -/
theorem unquotePlus_of_notMem {s : Str} (hs : '+' ∉ s) : unquotePlus s = unquote s := by
  have hmap : s.map (fun c => if c = '+' then ' ' else c) = s.map id := by
    apply List.map_congr_left
    intro c hc
    have hne : c ≠ '+' := by
      rintro rfl
      exact hs hc
    simp [hne]
  unfold unquotePlus
  rw [hmap, List.map_id]

/-- `unquote_plus` undoes `quote`, which leaves no plus sign. -/
theorem unquotePlus_quote (hsafe : '%' ∉ safe) (hplus : '+' ∉ safe) (s : Str) :
    unquotePlus (quote safe s) = s := by
  have hno : '+' ∉ quote safe s := by
    apply notMem_quote (by simp)
    simp [isSafe, unreserved, hplus]
  rw [unquotePlus_of_notMem hno, unquote_quote hsafe]

end Quote

/-! ## Cutting at a separator -/

theorem partition_of_notMem {c : Char} {s : Str} (hs : c ∉ s) : partition c s = (s, none) := by
  have hdrop : s.dropWhile (· != c) = [] := by
    rw [List.dropWhile_eq_nil_iff]
    intro d hd
    have hne : d ≠ c := by
      rintro rfl
      exact hs hd
    simpa using hne
  unfold partition
  rw [hdrop]

theorem partition_fst (c : Char) (s : Str) : (partition c s).1 = s.takeWhile (· != c) := by
  by_cases hc : c ∈ s
  · unfold partition
    split
    · next hdrop =>
        rw [List.dropWhile_eq_nil_iff] at hdrop
        exact absurd (hdrop c hc) (by simp)
    · rfl
  · rw [partition_of_notMem hc]
    refine (List.takeWhile_eq_self_iff.mpr fun d hd => ?_).symm
    have hne : d ≠ c := by
      rintro rfl
      exact hc hd
    simpa using hne

/-- What is before the separator. -/
theorem mem_partition {c d : Char} {s : Str} (h : d ∈ (partition c s).1) : d ∈ s ∧ d ≠ c := by
  rw [partition_fst] at h
  exact ⟨(List.takeWhile_prefix _).subset h, by simpa using List.mem_takeWhile_imp h⟩

theorem partition_append {c : Char} {s : Str} (hs : c ∉ s) (t : Str) :
    partition c (s ++ c :: t) = (s, some t) := by
  have hne : ∀ d ∈ s, (d != c) = true := by
    intro d hd
    have hdc : d ≠ c := by
      rintro rfl
      exact hs hd
    simpa using hdc
  have hdrop : (s ++ c :: t).dropWhile (· != c) = c :: t := by
    rw [List.dropWhile_append_of_pos hne]
    simp
  have htake : (s ++ c :: t).takeWhile (· != c) = s := by
    rw [List.takeWhile_append_of_pos hne]
    simp
  unfold partition
  rw [hdrop, htake]

theorem rpartition_of_notMem {c : Char} {s : Str} (hs : c ∉ s) : rpartition c s = (none, s) := by
  unfold rpartition
  rw [partition_of_notMem (by simpa using hs)]
  simp

theorem rpartition_append {c : Char} {t : Str} (ht : c ∉ t) (s : Str) :
    rpartition c (s ++ c :: t) = (some s, t) := by
  have hreverse : (s ++ c :: t).reverse = t.reverse ++ c :: s.reverse := by simp
  unfold rpartition
  rw [hreverse, partition_append (by simpa using ht)]
  simp

/-- What `rpartition` does: nothing, or it cuts at the last separator. -/
theorem rpartition_cases (c : Char) (s : Str) :
    (c ∉ s ∧ rpartition c s = (none, s)) ∨
      ∃ before after, s = before ++ c :: after ∧ c ∉ after ∧
        rpartition c s = (some before, after) := by
  by_cases hc : c ∈ s
  · have hmem : c ∈ s.reverse := by simpa using hc
    obtain ⟨after, before, hs, hafter⟩ := List.eq_append_cons_of_mem hmem
    have hsplit : s = before.reverse ++ c :: after.reverse := by
      rw [← List.reverse_reverse s, hs]
      simp
    have hnot : c ∉ after.reverse := by simpa using hafter
    exact .inr ⟨_, _, hsplit, hnot, by rw [hsplit, rpartition_append hnot]⟩
  · exact .inl ⟨hc, rpartition_of_notMem hc⟩

/-! ## Queries -/

/-- `"&".join(f"{k}={v}" for k, v in pairs)`. -/
def joinPairs (pairs : List (Str × Str)) : Str :=
  ['&'].intercalate (pairs.map fun nv => nv.1 ++ '=' :: nv.2)

/-- What holds for the separators, the names and the values holds for the query. -/
theorem forall_mem_joinPairs {P : Char → Prop} (hand : P '&') (heq : P '=')
    {pairs : List (Str × Str)} (h : ∀ nv ∈ pairs, (∀ c ∈ nv.1, P c) ∧ ∀ c ∈ nv.2, P c) :
    ∀ c ∈ joinPairs pairs, P c := by
  have hpair : ∀ nv ∈ pairs, ∀ c ∈ nv.1 ++ '=' :: nv.2, P c := by
    intro nv hnv c hc
    rcases List.mem_append.mp hc with hc | hc
    · exact (h nv hnv).1 c hc
    · rcases List.mem_cons.mp hc with rfl | hc
      · exact heq
      · exact (h nv hnv).2 c hc
  unfold joinPairs
  induction pairs with
  | nil => simp
  | cons nv pairs ih =>
      have hrest := ih (fun nv' hnv' => h nv' (by simp [hnv'])) fun nv' hnv' => hpair nv' (by simp [hnv'])
      cases pairs with
      | nil => simpa using hpair nv
      | cons nv' pairs =>
          simp only [List.map_cons, List.intercalate_cons_cons] at hrest ⊢
          intro c hc
          rcases List.mem_append.mp hc with hc | hc
          · rcases List.mem_append.mp hc with hc | hc
            · exact hpair nv (by simp) c hc
            · obtain rfl : c = '&' := by simpa using hc
              exact hand
          · exact hrest c hc

/-- The separators of a query are not in the names, and `&` is not in the values. -/
def Separable (pairs : List (Str × Str)) : Prop :=
  ∀ nv ∈ pairs, '&' ∉ nv.1 ∧ '=' ∉ nv.1 ∧ '&' ∉ nv.2

/-- `parse_qsl` finds the pairs that were joined. -/
theorem parseQsl_joinPairs {pairs : List (Str × Str)} (h : Separable pairs) :
    parseQsl (joinPairs pairs) true =
      pairs.map fun nv => (unquotePlus nv.1, unquotePlus nv.2) := by
  have hsplit : pairs ≠ [] → (joinPairs pairs).splitOn '&' =
      pairs.map fun nv => nv.1 ++ '=' :: nv.2 := by
    intro hne
    apply List.splitOn_intercalate '&' _ (by simpa using hne)
    intro seg hseg
    obtain ⟨nv, hnv, rfl⟩ := List.mem_map.mp hseg
    obtain ⟨hname, -, hvalue⟩ := h nv hnv
    simp [hname, hvalue]
  cases pairs with
  | nil => simp [joinPairs, parseQsl]
  | cons nv pairs =>
      unfold parseQsl
      rw [hsplit (by simp), List.filterMap_map, ← List.filterMap_eq_map]
      apply List.filterMap_congr
      intro nv' hnv'
      obtain ⟨-, heq, -⟩ := h nv' hnv'
      simp [partition_append heq]

/-- Collecting the pairs of a query appends the values of each name. -/
theorem get?_collect (pairs : List (Str × Str)) (params : Data.Dict Str (List Str)) (name : Str) :
    ((pairs.foldl (fun params nv => params.set nv.1 ((params.get? nv.1).getD [] ++ [nv.2]))
        params).get? name).getD [] =
      (params.get? name).getD [] ++ (pairs.filter fun nv => nv.1 = name).map Prod.snd := by
  induction pairs generalizing params with
  | nil => simp
  | cons nv pairs ih =>
      rw [List.foldl_cons, ih, Data.Dict.get?_set]
      by_cases hname : nv.1 = name
      · simp [hname]
      · have hne : ¬ name = nv.1 := fun h => hname h.symm
        simp [hname, hne]

/-- The first value of a name is that of the first pair. -/
theorem firstParam_parseQs (qs : Str) (keep : Bool) (name default : Str) :
    firstParam (parseQs qs keep) name default =
      ((parseQsl qs keep).lookup name).getD default := by
  have hfirst : firstParam (parseQs qs keep) name default =
      (((parseQs qs keep).get? name).getD []).headD default := by
    unfold firstParam
    cases (parseQs qs keep).get? name <;> rfl
  have hempty : (Data.Dict.empty : Data.Dict Str (List Str)).get? name = none := rfl
  rw [hfirst, parseQs, get?_collect, hempty]
  induction parseQsl qs keep with
  | nil => rfl
  | cons nv pairs ih =>
      obtain ⟨n, v⟩ := nv
      by_cases hname : n = name
      · subst hname
        simp
      · have hne : (name == n) = false := by simp [Ne.symm hname]
        simpa [hname, List.lookup_cons, hne] using ih

end GufoBlob.Uri
