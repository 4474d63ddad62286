import GufoBlob.Text.Basic
import Mathlib.Tactic.IntervalCases

/-!
# Percent-encoding

`quote` is `urllib.parse.quote`: the octets of a text, each as itself when it is an unreserved
character or one of the `safe` ones, and as `%XX` otherwise. `percentDecode` reads the octets back.

* `percentDecode_quote` — decoding undoes encoding, so `quote` is injective.
* `mem_quote` — which characters occur in a quoted text.
* `splitOn_quote` — quoting commutes with splitting at a safe separator.
-/

namespace GufoBlob.Uri

open Text

/-- A character that is never quoted. -/
def unreserved (c : Char) : Bool := c.isAlphanum || c = '_' || c = '.' || c = '-' || c = '~'

/-- The upper-case hexadecimal digit of a number below 16. -/
def hexDigit (n : Nat) : Char := if n < 10 then Char.ofNat (48 + n) else Char.ofNat (55 + n)

/-- The value of a hexadecimal digit. -/
def hexVal (c : Char) : Option Nat :=
  if '0' ≤ c ∧ c ≤ '9' then some (c.toNat - 48)
  else if 'A' ≤ c ∧ c ≤ 'F' then some (c.toNat - 55)
  else if 'a' ≤ c ∧ c ≤ 'f' then some (c.toNat - 87)
  else none

/-- The characters that `quote(_, safe)` leaves alone. -/
def isSafe (safe : List Char) (c : Char) : Bool := c.toNat < 128 && (unreserved c || safe.contains c)

/-- `%XX`. -/
def escape (b : UInt8) : Str := ['%', hexDigit (b.toNat / 16), hexDigit (b.toNat % 16)]

def quoteByte (safe : List Char) (b : UInt8) : Str :=
  if isSafe safe (Char.ofNat b.toNat) then [Char.ofNat b.toNat] else escape b

/-- `quote(s, safe)`. -/
def quote (safe : List Char) (s : Str) : Str := (encode s).flatMap (quoteByte safe)

/-- The octets that a percent-encoded text stands for. A `%` that no two hexadecimal digits follow
stands for itself. -/
def percentDecode : Str → Bytes
  | [] => []
  | '%' :: a :: b :: rest =>
      match hexVal a, hexVal b with
      | some x, some y => UInt8.ofNat (16 * x + y) :: percentDecode rest
      | _, _ => UInt8.ofNat '%'.toNat :: percentDecode (a :: b :: rest)
  | c :: rest => String.utf8EncodeChar c ++ percentDecode rest

section Quote

variable {safe : List Char}

theorem isSafe_lt {c : Char} (h : isSafe safe c = true) : c.toNat < 128 := by
  simp only [isSafe, Bool.and_eq_true, decide_eq_true_eq] at h
  exact h.1

theorem hexVal_hexDigit {n : Nat} (h : n < 16) : hexVal (hexDigit n) = some n := by
  interval_cases n <;> rfl

theorem percentDecode_escape (b : UInt8) (t : Str) :
    percentDecode (escape b ++ t) = b :: percentDecode t := by
  have hb : b.toNat < 256 := b.toNat_lt
  have hhigh : b.toNat / 16 < 16 := by omega
  have hlow : b.toNat % 16 < 16 := by omega
  have hsum : 16 * (b.toNat / 16) + b.toNat % 16 = b.toNat := by omega
  show percentDecode ('%' :: hexDigit (b.toNat / 16) :: hexDigit (b.toNat % 16) :: t) = _
  rw [percentDecode, hexVal_hexDigit hhigh, hexVal_hexDigit hlow]
  simp [hsum]

/-- A character other than `%` stands for its own octets. -/
theorem percentDecode_cons {c : Char} (hc : c ≠ '%') (t : Str) :
    percentDecode (c :: t) = String.utf8EncodeChar c ++ percentDecode t := by
  rw [percentDecode]
  rintro a b rest rfl
  exact absurd rfl hc

theorem toNat_ofNat_toNat (b : UInt8) : (Char.ofNat b.toNat).toNat = b.toNat := by
  have hvalid : b.toNat.isValidChar := .inl (Nat.lt_trans b.toNat_lt (by decide))
  rw [Char.ofNat, dif_pos hvalid]
  rfl

theorem ofNat_toNat_ofNat (b : UInt8) : UInt8.ofNat (Char.ofNat b.toNat).toNat = b := by
  rw [toNat_ofNat_toNat]
  exact UInt8.ofNat_toNat

theorem percentDecode_quoteByte (hsafe : '%' ∉ safe) (b : UInt8) (t : Str) :
    percentDecode (quoteByte safe b ++ t) = b :: percentDecode t := by
  rw [quoteByte]
  split
  · next h =>
      have hlt := isSafe_lt h
      have hne : Char.ofNat b.toNat ≠ '%' := by
        intro heq
        rw [heq] at h
        simp [isSafe, unreserved, hsafe] at h
      show percentDecode (Char.ofNat b.toNat :: t) = _
      rw [percentDecode_cons hne, utf8EncodeChar_of_lt hlt, ofNat_toNat_ofNat]
      rfl
  · exact percentDecode_escape b t

/-- Decoding undoes quoting. -/
theorem percentDecode_quote_append (hsafe : '%' ∉ safe) (s t : Str) :
    percentDecode (quote safe s ++ t) = encode s ++ percentDecode t := by
  rw [quote]
  induction encode s with
  | nil => rfl
  | cons b bs ih =>
      rw [List.flatMap_cons, List.append_assoc, percentDecode_quoteByte hsafe, ih]
      rfl

theorem percentDecode_quote (hsafe : '%' ∉ safe) (s : Str) :
    percentDecode (quote safe s) = encode s := by
  have h := percentDecode_quote_append hsafe s []
  rw [List.append_nil] at h
  rw [h, percentDecode, List.append_nil]

theorem quote_injective (hsafe : '%' ∉ safe) : Function.Injective (quote safe) := by
  intro s t h
  have hd := congrArg percentDecode h
  rw [percentDecode_quote hsafe, percentDecode_quote hsafe] at hd
  exact encode_injective hd

@[simp] theorem quote_nil : quote safe [] = [] := rfl

@[simp] theorem quote_append (s t : Str) : quote safe (s ++ t) = quote safe s ++ quote safe t := by
  simp [quote]

/-- A safe character is quoted as itself. -/
theorem quote_cons_of_safe {c : Char} (hc : isSafe safe c = true) (s : Str) :
    quote safe (c :: s) = c :: quote safe s := by
  have hlt := isSafe_lt hc
  have hback : Char.ofNat (UInt8.ofNat c.toNat).toNat = c := by
    rw [UInt8.toNat_ofNat', Nat.mod_eq_of_lt (by omega)]
    exact Char.ofNat_toNat c
  rw [quote, encode_cons, utf8EncodeChar_of_lt hlt, List.singleton_append, List.flatMap_cons,
    quoteByte, hback, if_pos hc]
  rfl

/-- A text of safe characters is quoted as itself. -/
theorem quote_of_safe {s : Str} (hs : ∀ c ∈ s, isSafe safe c = true) : quote safe s = s := by
  induction s with
  | nil => rfl
  | cons c s ih =>
      rw [quote_cons_of_safe (hs c List.mem_cons_self), ih fun d hd => hs d (List.mem_cons_of_mem c hd)]

theorem hexDigit_unreserved {n : Nat} (h : n < 16) : unreserved (hexDigit n) = true := by
  interval_cases n <;> rfl

/-- Every character of a quoted text is `%`, unreserved or safe. -/
theorem mem_quote {s : Str} {c : Char} (hc : c ∈ quote safe s) :
    c = '%' ∨ isSafe safe c = true := by
  obtain ⟨b, -, hb⟩ := List.mem_flatMap.mp hc
  rw [quoteByte] at hb
  split at hb
  · next h =>
      obtain rfl := List.mem_singleton.mp hb
      exact .inr h
  · have hlt := b.toNat_lt
    have hhex : ∀ n, n < 16 → isSafe safe (hexDigit n) = true := by
      intro n hn
      have hun := hexDigit_unreserved hn
      interval_cases n <;> simp_all [isSafe] <;> decide
    simp only [escape, List.mem_cons, List.not_mem_nil, or_false] at hb
    rcases hb with rfl | rfl | rfl
    · exact .inl rfl
    · exact .inr (hhex _ (by omega))
    · exact .inr (hhex _ (by omega))

/-- A character that is not safe does not occur in a quoted text. -/
theorem notMem_quote {s : Str} {c : Char} (hne : c ≠ '%') (hc : isSafe safe c = false) :
    c ∉ quote safe s := by
  intro hmem
  rcases mem_quote hmem with rfl | h
  · exact hne rfl
  · rw [hc] at h
    exact Bool.false_ne_true h

theorem hexDigit_isAlphanum {n : Nat} (h : n < 16) : (hexDigit n).isAlphanum = true := by
  interval_cases n <;> rfl

/-- A character that is not safe is quoted as an escape, or several. -/
theorem one_lt_length_quote {c : Char} (hc : isSafe safe c = false) :
    1 < (quote safe [c]).length := by
  have hescape : ∀ b : UInt8, isSafe safe (Char.ofNat b.toNat) = false → ∀ bs : Bytes,
      1 < ((b :: bs).flatMap (quoteByte safe)).length := by
    intro b hb bs
    simp [quoteByte, hb, escape]
  have hencode : encode [c] = String.utf8EncodeChar c := by simp [encode]
  unfold quote
  rw [hencode]
  by_cases hlt : c.toNat < 128
  · have hback : Char.ofNat (UInt8.ofNat c.toNat).toNat = c := by
      rw [UInt8.toNat_ofNat', Nat.mod_eq_of_lt (by omega)]
      exact Char.ofNat_toNat c
    rw [utf8EncodeChar_of_lt hlt]
    exact hescape _ (by rw [hback, hc]) []
  · cases hbytes : String.utf8EncodeChar c with
    | nil =>
        have hlen : (String.utf8EncodeChar c).length = 0 := by rw [hbytes]; rfl
        rw [String.length_utf8EncodeChar] at hlen
        have hpos := c.utf8Size_pos
        omega
    | cons b bs =>
        have hb : 128 ≤ b.toNat := by
          apply le_of_mem_utf8EncodeChar (c := c) (by omega)
          simp [hbytes]
        apply hescape b
        cases hsafe : isSafe safe (Char.ofNat b.toNat) with
        | false => rfl
        | true =>
            have hsmall := isSafe_lt hsafe
            rw [toNat_ofNat_toNat] at hsmall
            omega

theorem length_le_quote (s : Str) : s.length ≤ (quote safe s).length := by
  induction s with
  | nil => simp
  | cons c s ih =>
      have hfirst : quote safe (c :: s) = quote safe [c] ++ quote safe s := quote_append [c] s
      have hone : 1 ≤ (quote safe [c]).length := by
        cases hc : isSafe safe c with
        | true => simp [quote_cons_of_safe hc]
        | false => exact Nat.le_of_lt (one_lt_length_quote hc)
      rw [hfirst, List.length_append, List.length_cons]
      omega

/-- A text is quoted as itself only when all of it is safe. -/
theorem quote_eq_self_iff {s : Str} : quote safe s = s ↔ ∀ c ∈ s, isSafe safe c = true := by
  refine ⟨fun h => ?_, quote_of_safe⟩
  induction s with
  | nil => simp
  | cons c s ih =>
      have hfirst : quote safe (c :: s) = quote safe [c] ++ quote safe s := quote_append [c] s
      cases hc : isSafe safe c with
      | true =>
          rw [quote_cons_of_safe hc] at h
          intro d hd
          rcases List.mem_cons.mp hd with rfl | hd
          · exact hc
          · exact ih (List.cons.inj h).2 d hd
      | false =>
          -- the escape makes the text longer
          have hlong := one_lt_length_quote hc
          have hrest : s.length ≤ (quote safe s).length := length_le_quote s
          have hlen := congrArg List.length (hfirst.symm.trans h)
          rw [List.length_append, List.length_cons] at hlen
          omega

/-- A safe separator occurs in a quoted text exactly where it occurs in the text. -/
theorem mem_quote_iff {c : Char} (hsafe : isSafe safe c = true) (hsep : c.isAlphanum = false)
    (hne : c ≠ '%') {s : Str} : c ∈ quote safe s ↔ c ∈ s := by
  have hlt := isSafe_lt hsafe
  constructor
  · intro hmem
    rw [← mem_encode_iff hlt]
    obtain ⟨b, hb, hc⟩ := List.mem_flatMap.mp hmem
    unfold quoteByte at hc
    split at hc
    · rw [List.mem_singleton.mp hc, ofNat_toNat_ofNat]
      exact hb
    · have hb' := b.toNat_lt
      have hhex : ∀ n, n < 16 → c ≠ hexDigit n := by
        rintro n hn rfl
        rw [hexDigit_isAlphanum hn] at hsep
        exact Bool.noConfusion hsep
      simp only [escape, List.mem_cons, List.not_mem_nil, or_false] at hc
      rcases hc with h | h | h
      · exact absurd h hne
      · exact absurd h (hhex _ (by omega))
      · exact absurd h (hhex _ (by omega))
  · intro hmem
    rw [← mem_encode_iff hlt] at hmem
    refine List.mem_flatMap.mpr ⟨UInt8.ofNat c.toNat, hmem, ?_⟩
    have hback : Char.ofNat (UInt8.ofNat c.toNat).toNat = c := by
      rw [UInt8.toNat_ofNat', Nat.mod_eq_of_lt (by omega)]
      exact Char.ofNat_toNat c
    rw [quoteByte, hback, if_pos hsafe]
    exact List.mem_singleton_self c

end Quote

/-! ## Splitting -/

theorem splitOn_append_of_notMem {c : Char} {s : Str} (hs : c ∉ s) (t : Str) :
    (s ++ t).splitOn c = (t.splitOn c).modifyHead (s ++ ·) := by
  induction s with
  | nil =>
      rw [List.nil_append]
      cases t.splitOn c <;> rfl
  | cons d s ih =>
      have hd : (d == c) = false := beq_eq_false_iff_ne.mpr (List.ne_of_not_mem_cons hs).symm
      rw [List.cons_append, List.splitOn_cons_eq_if_modifyHead, hd,
        ih (List.not_mem_of_not_mem_cons hs)]
      cases t.splitOn c <;> rfl

/-- Quoting commutes with splitting at a safe separator. -/
theorem splitOn_quote {safe : List Char} {c : Char} (hsafe : isSafe safe c = true)
    (hsep : c.isAlphanum = false) (hne : c ≠ '%') (s : Str) :
    (quote safe s).splitOn c = (s.splitOn c).map (quote safe) := by
  induction s with
  | nil => rw [quote_nil, List.splitOn_nil]; rfl
  | cons d s ih =>
      rw [List.splitOn_cons_eq_if_modifyHead]
      by_cases hd : d = c
      · subst hd
        rw [quote_cons_of_safe hsafe, List.splitOn_cons_eq_if_modifyHead, ih]
        simp
      · have hnot : c ∉ quote safe [d] := by
          rw [mem_quote_iff hsafe hsep hne, List.mem_singleton]
          exact fun h => hd h.symm
        have hsplit : quote safe (d :: s) = quote safe [d] ++ quote safe s :=
          quote_append [d] s
        rw [hsplit, splitOn_append_of_notMem hnot, ih, if_neg (by simpa using hd)]
        cases h : s.splitOn c with
        | nil => rfl
        | cons l ls =>
            show (quote safe [d] ++ quote safe l) :: _ = quote safe (d :: l) :: _
            rw [← quote_append]
            rfl

end GufoBlob.Uri
