import Mathlib.Data.List.Basic
import Mathlib.Data.List.Infix

/-!
# Text and bytes

A Python `str` that encodes as UTF-8 is a list of Unicode scalar values, and `bytes` is a list of
octets. `encode` and `decode` are `str.encode` and the strict `bytes.decode`; both rest on Lean's
own UTF-8 library, so only the facts about ASCII octets are proved here.
-/

namespace GufoBlob.Text

/-- A `str` without lone surrogates: those are code points that a Python `str` may hold, but that no
encoding takes. -/
abbrev Str := List Char

abbrev Bytes := List UInt8

instance : LawfulBEq Str := inferInstance

/-- `s.encode()`. -/
def encode (s : Str) : Bytes := s.flatMap String.utf8EncodeChar

/-- `b.decode()`: `none` where Python raises `UnicodeDecodeError`. -/
def decode (b : Bytes) : Option Str := b.toByteArray.utf8Decode?.map Array.toList

@[simp] theorem encode_nil : encode [] = [] := rfl

@[simp] theorem encode_cons (c : Char) (s : Str) :
    encode (c :: s) = String.utf8EncodeChar c ++ encode s := rfl

@[simp] theorem encode_append (s t : Str) : encode (s ++ t) = encode s ++ encode t :=
  List.flatMap_append

@[simp] theorem decode_encode (s : Str) : decode (encode s) = some s := by
  have h : (encode s).toByteArray = s.utf8Encode := rfl
  simp [decode, h]

theorem encode_injective : Function.Injective encode := fun s t h => by
  simpa using congrArg decode h

/-! ## ASCII octets of an encoding -/

theorem utf8EncodeChar_of_lt {c : Char} (h : c.toNat < 128) :
    String.utf8EncodeChar c = [UInt8.ofNat c.toNat] := by
  have hc : c.val.toNat ≤ 127 := Nat.le_of_lt_succ h
  rw [String.utf8EncodeChar, if_pos hc]
  rfl

/-- What holds of the first 128 characters holds of every character of ASCII. -/
theorem of_ascii {P : Char → Prop} (hall : ∀ n < 128, P (Char.ofNat n)) {c : Char}
    (h : c.toNat < 128) : P c := by
  have hc := hall c.toNat h
  rwa [Char.ofNat_toNat] at hc

/-- A character outside ASCII is encoded by octets outside ASCII. -/
theorem le_of_mem_utf8EncodeChar {c : Char} (h : 128 ≤ c.toNat) {b : UInt8}
    (hb : b ∈ String.utf8EncodeChar c) : 128 ≤ b.toNat := by
  have hc : ¬ c.val.toNat ≤ 127 := fun hle => absurd h (Nat.not_le.mpr (Nat.lt_succ_of_le hle))
  unfold String.utf8EncodeChar at hb
  simp only [hc, if_false] at hb
  split at hb
  · rcases List.mem_cons.mp hb with rfl | hb
    · rw [UInt8.toNat_ofNat']; omega
    · rw [List.mem_singleton.mp hb, UInt8.toNat_ofNat']; omega
  · split at hb <;> simp only [List.mem_cons, List.not_mem_nil, or_false] at hb <;>
      rcases hb with rfl | rfl | rfl | rfl <;> rw [UInt8.toNat_ofNat'] <;> omega

theorem utf8EncodeChar_ne_nil (c : Char) : String.utf8EncodeChar c ≠ [] := by
  intro h
  have hl := String.length_utf8EncodeChar c
  rw [h] at hl
  have := c.utf8Size_pos
  simp at hl
  omega

theorem ofNat_toNat_inj {a b : Char} (ha : a.toNat < 128) (hb : b.toNat < 128)
    (h : UInt8.ofNat a.toNat = UInt8.ofNat b.toNat) : a = b := by
  have hn : a.toNat = b.toNat := by
    have := congrArg UInt8.toNat h
    rw [UInt8.toNat_ofNat', UInt8.toNat_ofNat', Nat.mod_eq_of_lt (by omega),
      Nat.mod_eq_of_lt (by omega)] at this
    exact this
  exact Char.ext (UInt32.toNat_inj.mp hn)

/-- The first octet of an encoding is the ASCII character `a` only where the text starts with `a`. -/
theorem encode_eq_cons_iff {a : Char} (ha : a.toNat < 128) {s : Str} {b : Bytes} :
    encode s = UInt8.ofNat a.toNat :: b ↔ ∃ t, s = a :: t ∧ b = encode t := by
  cases s with
  | nil => simp
  | cons c t =>
      rw [encode_cons]
      by_cases hc : c.toNat < 128
      · rw [utf8EncodeChar_of_lt hc, List.singleton_append, List.cons.injEq]
        constructor
        · rintro ⟨hca, rfl⟩
          exact ⟨t, by rw [ofNat_toNat_inj hc ha hca], rfl⟩
        · rintro ⟨t', ht, rfl⟩
          obtain ⟨rfl, rfl⟩ := List.cons.inj ht
          exact ⟨rfl, rfl⟩
      · constructor
        · intro h
          obtain ⟨x, xs, hx⟩ := List.exists_cons_of_ne_nil (utf8EncodeChar_ne_nil c)
          have hmem : x ∈ String.utf8EncodeChar c := by rw [hx]; exact List.mem_cons_self
          have hge := le_of_mem_utf8EncodeChar (Nat.le_of_not_lt hc) hmem
          rw [hx, List.cons_append] at h
          rw [(List.cons.inj h).1, UInt8.toNat_ofNat', Nat.mod_eq_of_lt (by omega)] at hge
          omega
        · rintro ⟨t', ht, -⟩
          rw [(List.cons.inj ht).1] at hc
          exact absurd ha hc

/-- An ASCII character occurs in an encoding exactly where it occurs in the text. -/
theorem mem_encode_iff {a : Char} (ha : a.toNat < 128) {s : Str} :
    UInt8.ofNat a.toNat ∈ encode s ↔ a ∈ s := by
  induction s with
  | nil => simp
  | cons c t ih =>
      rw [encode_cons, List.mem_append, ih, List.mem_cons]
      by_cases hc : c.toNat < 128
      · rw [utf8EncodeChar_of_lt hc, List.mem_singleton]
        exact or_congr_left ⟨fun h => ofNat_toNat_inj ha hc h, fun h => by rw [h]⟩
      · refine or_congr_left ⟨fun h => ?_, fun h => absurd (h ▸ ha) hc⟩
        have := le_of_mem_utf8EncodeChar (Nat.le_of_not_lt hc) h
        rw [UInt8.toNat_ofNat', Nat.mod_eq_of_lt (by omega)] at this
        omega

end GufoBlob.Text
