import GufoBlob.Error
import GufoBlob.Text.Split
import Mathlib.Algebra.Group.Nat.Defs

/-!
# Numbers in replies

`utils.py`: the conversions of octets to integers, with the messages of their errors. `pyInt` is
Python's `int` of a `bytes` value and `reprBytes` its `repr`; `reprText` is the `repr` of a `str`.
-/

namespace GufoBlob

open Text

/-- `sys.int_info.default_max_str_digits`. -/
def maxStrDigits : Nat := 4300

def isDigit (b : UInt8) : Bool := 48 ≤ b && b ≤ 57

/-- The number written with the digits `ds`. -/
def digitsValue (ds : Bytes) : Nat := ds.foldl (fun n b => 10 * n + (b.toNat - 48)) 0

/-- Digits, with single underscores between them. -/
def pyDigits (ds : Bytes) : Option Nat :=
  let groups := ds.splitOn 95
  if groups.all (fun g => !g.isEmpty && g.all isDigit) && groups.flatten.length ≤ maxStrDigits then
    some (digitsValue groups.flatten)
  else none

/-- `int(x)`; `none` where it raises `ValueError`. -/
def pyInt (x : Bytes) : Option Int :=
  match strip isSpace x with
  | 43 :: ds => (pyDigits ds).map Int.ofNat
  | 45 :: ds => (pyDigits ds).map fun n : Nat => -(n : Int)
  | ds => (pyDigits ds).map Int.ofNat

def hexDigit (n : Nat) : Char := if n < 10 then Char.ofNat (48 + n) else Char.ofNat (87 + n)

def reprByte (quote : Char) (b : UInt8) : List Char :=
  let c := Char.ofNat b.toNat
  if c = quote || c = '\\' then ['\\', c]
  else if c = '\t' then ['\\', 't']
  else if c = '\n' then ['\\', 'n']
  else if c = '\r' then ['\\', 'r']
  else if b < 32 || 127 ≤ b then ['\\', 'x', hexDigit (b.toNat / 16), hexDigit (b.toNat % 16)]
  else [c]

/-- `repr(x)`. -/
def reprBytes (x : Bytes) : String :=
  let quote := if x.contains 39 && !x.contains 34 then '"' else '\''
  String.ofList ('b' :: quote :: (x.flatMap (reprByte quote) ++ [quote]))

def reprChar (quote c : Char) : List Char :=
  if c = quote || c = '\\' then ['\\', c]
  else if c = '\t' then ['\\', 't']
  else if c = '\n' then ['\\', 'n']
  else if c = '\r' then ['\\', 'r']
  else if c.toNat < 32 || c.toNat = 127 then
    ['\\', 'x', hexDigit (c.toNat / 16), hexDigit (c.toNat % 16)]
  else [c]

/-- `repr(s)`, where every character beyond ASCII is taken for printable. -/
def reprText (s : Str) : String :=
  let quote := if s.contains '\'' && !s.contains '"' then '"' else '\''
  String.ofList (quote :: (s.flatMap (reprChar quote) ++ [quote]))

/-- `bytes_to_int`. -/
def bytesToInt (x : Bytes) : Except PyExc Int :=
  match pyInt x with
  | some n => .ok n
  | none => .error (.blobError ("Expecting integer: " ++ reprBytes x))

/-- `bytes_to_int_range` with both bounds given. -/
def bytesToIntRange (x : Bytes) (minValue maxValue : Int) : Except PyExc Int := do
  let n ← bytesToInt x
  if n < minValue then
    throw (.blobError ("too low. expected " ++ toString minValue ++ " or greater"))
  if n > maxValue then
    throw (.blobError ("too large. expected " ++ toString maxValue ++ " or less."))
  return n

def maxOctet : Int := 255

/-- `bytes_to_octet`, as a number. -/
def bytesToOctet (x : Bytes) : Except PyExc Nat := do
  let n ← bytesToInt x
  if n < 0 || n > maxOctet then
    throw (.blobError ("Octet is out of bounds: " ++ toString n))
  return n.toNat

theorem bytesToOctet_le {x : Bytes} {n : Nat} (h : bytesToOctet x = .ok n) : n ≤ 255 := by
  unfold bytesToOctet at h
  obtain ⟨i, -, h⟩ := except_bind_eq_ok_iff.mp h
  dsimp only at h
  split at h
  · cases h
  · next hi =>
      obtain rfl : i.toNat = n := Except.ok.inj h
      have hrange : 0 ≤ i ∧ i ≤ maxOctet := by simpa using hi
      unfold maxOctet at hrange
      omega

/-! ## Reply codes -/

theorem digitsValue_lt {ds : Bytes} (hds : ds.all isDigit) : digitsValue ds < 10 ^ ds.length := by
  -- with `n` in front of the digits
  have hfold : ∀ n, ds.foldl (fun n b => 10 * n + (b.toNat - 48)) n < (n + 1) * 10 ^ ds.length := by
    induction ds with
    | nil => intro n; simp
    | cons d ds ih =>
        intro n
        obtain ⟨hd, hds⟩ : isDigit d = true ∧ ds.all isDigit = true := by simpa using hds
        have hd : d.toNat ≤ 57 := by
          simp only [isDigit, Bool.and_eq_true, decide_eq_true_eq] at hd
          exact UInt8.le_iff_toNat_le.mp hd.2
        calc (d :: ds).foldl (fun n b => 10 * n + (b.toNat - 48)) n
            < (10 * n + (d.toNat - 48) + 1) * 10 ^ ds.length := ih hds _
          _ ≤ ((n + 1) * 10) * 10 ^ ds.length := Nat.mul_le_mul_right _ (by omega)
          _ = (n + 1) * 10 ^ (d :: ds).length := by
              rw [List.length_cons, Nat.pow_succ, Nat.mul_assoc, Nat.mul_comm 10]
  simpa [digitsValue] using hfold 0

theorem pyDigits_eq_some {ds : Bytes} {v : Nat} (h : pyDigits ds = some v) :
    (ds.filter fun b => !(b == 95)).all isDigit ∧
      digitsValue (ds.filter fun b => !(b == 95)) = v := by
  unfold pyDigits at h
  dsimp only at h
  rw [flatten_splitOn] at h
  split at h
  · next hdigits =>
      refine ⟨?_, Option.some.inj h⟩
      rw [← flatten_splitOn, List.all_flatten]
      simp only [Bool.and_eq_true, List.all_eq_true] at hdigits ⊢
      exact fun g hg => (hdigits.1 g hg).2
  · cases h

/-- A number of three digits in three octets. -/
theorem pyInt_three {x : Bytes} {n : Int} (hx : x.length ≤ 3) (hn : 100 ≤ n)
    (h : pyInt x = some n) : x.all isDigit ∧ (digitsValue x : Int) = n := by
  have hstrip : (strip isSpace x).length ≤ x.length := (strip_isInfix isSpace x).length_le
  -- a text with a value of three digits has three of them
  have hthree : ∀ {ds : Bytes} {v : Nat}, pyDigits ds = some v → 100 ≤ v →
      3 ≤ (ds.filter fun b => !(b == 95)).length := by
    intro ds v hds hv
    obtain ⟨hall, rfl⟩ := pyDigits_eq_some hds
    have hlt := digitsValue_lt hall
    by_contra hlen
    have hpow : 10 ^ (ds.filter fun b => !(b == 95)).length ≤ 10 ^ 2 :=
      Nat.pow_le_pow_right (by decide) (by omega)
    omega
  have hfilter : ∀ ds : Bytes, (ds.filter fun b => !(b == 95)).length ≤ ds.length :=
    fun ds => List.length_filter_le _ ds
  unfold pyInt at h
  split at h
  · next ds heq =>
      obtain ⟨v, hv, rfl⟩ := Option.map_eq_some_iff.mp h
      have := hthree hv (Int.ofNat_le.mp hn)
      have := hfilter ds
      rw [heq, List.length_cons] at hstrip
      omega
  · next ds heq =>
      obtain ⟨v, hv, rfl⟩ := Option.map_eq_some_iff.mp h
      have := Int.natCast_nonneg v
      omega
  · obtain ⟨v, hv, rfl⟩ := Option.map_eq_some_iff.mp h
    have hlen := hthree hv (Int.ofNat_le.mp hn)
    have hle := hfilter (strip isSpace x)
    have hx : strip isSpace x = x := (strip_isInfix isSpace x).eq_of_length_le (by omega)
    rw [hx] at hv hlen
    have hkeep : (x.filter fun b => !(b == 95)) = x :=
      List.filter_sublist.eq_of_length_le (by omega)
    obtain ⟨hall, hvalue⟩ := pyDigits_eq_some hv
    rw [hkeep] at hall hvalue
    exact ⟨hall, congrArg Int.ofNat hvalue⟩

/-- A reply code is written with its digits. -/
theorem digits_of_code {x : Bytes} {n : Int} (hx : x.length ≤ 3) (hn : 100 ≤ n)
    (h : bytesToIntRange x 0 999 = .ok n) : x.all isDigit ∧ (digitsValue x : Int) = n := by
  unfold bytesToIntRange bytesToInt at h
  cases hint : pyInt x with
  | none => simp [hint, bind, Except.bind] at h
  | some v =>
      have hv : v = n := by
        simp only [hint, bind, Except.bind] at h
        split at h
        · cases h
        · split at h
          · cases h
          · exact Except.ok.inj h
      exact pyInt_three hx (hv ▸ hn) (hv ▸ hint)

/-! ## What `int` accepts -/

/-- Groups of digits with single underscores between them. -/
def Digits (ds : Bytes) : Prop :=
  ∃ groups : List Bytes, groups ≠ [] ∧ (∀ g ∈ groups, g ≠ [] ∧ g.all isDigit) ∧
    ds = [95].intercalate groups

/-- A number that is not negative, as `int` reads it. -/
inductive Numeral (x : Bytes) : Prop where
  | unsigned : Digits (strip isSpace x) → Numeral x
  | plus (ds : Bytes) : strip isSpace x = 43 :: ds → Digits ds → Numeral x
  /-- Minus zero. -/
  | minus (ds : Bytes) : strip isSpace x = 45 :: ds → Digits ds → (∀ d ∈ ds, d = 48 ∨ d = 95) →
      Numeral x

theorem Digits.isDigit_head {d : UInt8} {ds : Bytes} (h : Digits (d :: ds)) : isDigit d = true := by
  obtain ⟨groups, hne, hgroups, heq⟩ := h
  cases groups with
  | nil => exact absurd rfl hne
  | cons g groups =>
      obtain ⟨hg, hall⟩ := hgroups g List.mem_cons_self
      cases g with
      | nil => exact absurd rfl hg
      | cons c g =>
          obtain rfl : d = c := by
            cases groups <;> simp_all [List.intercalate, List.intersperse]
          exact List.all_eq_true.mp hall d List.mem_cons_self

theorem digitsValue_append_singleton (ds : Bytes) (d : UInt8) :
    digitsValue (ds ++ [d]) = 10 * digitsValue ds + (d.toNat - 48) := by
  simp [digitsValue]

theorem isDigit_iff {d : UInt8} : isDigit d = true ↔ 48 ≤ d.toNat ∧ d.toNat ≤ 57 := by
  simp [isDigit, UInt8.le_iff_toNat_le]

theorem digitsValue_eq_zero_iff {ds : Bytes} (hds : ds.all isDigit) :
    digitsValue ds = 0 ↔ ∀ d ∈ ds, d = 48 := by
  induction ds using List.reverseRecOn with
  | nil => simp [digitsValue]
  | append_singleton ds d ih =>
      obtain ⟨hds, hd⟩ : ds.all isDigit = true ∧ isDigit d = true := by simpa using hds
      have hzero : d.toNat - 48 = 0 ↔ d = 48 := by
        rw [isDigit_iff] at hd
        rw [← UInt8.toNat_inj]
        change _ ↔ d.toNat = 48
        omega
      have hnil := ih hds
      rw [digitsValue_append_singleton]
      grind

/-- `int` accepts groups of digits, and adds up their digits. -/
theorem pyDigits_eq_some_iff {ds : Bytes} (hds : ds.length ≤ maxStrDigits) {v : Nat} :
    pyDigits ds = some v ↔ Digits ds ∧ digitsValue (ds.filter fun b => !(b == 95)) = v := by
  have hlength : ((ds.splitOn 95).flatten.length ≤ maxStrDigits) := by
    rw [flatten_splitOn]
    exact (List.length_filter_le _ ds).trans hds
  have hgroups : Digits ds ↔ (ds.splitOn 95).all (fun g => !g.isEmpty && g.all isDigit) = true := by
    constructor
    · rintro ⟨groups, hne, hgroups, rfl⟩
      have hsep : ∀ g ∈ groups, (95 : UInt8) ∉ g := by
        intro g hg hmem
        exact absurd (List.all_eq_true.mp (hgroups g hg).2 95 hmem) (by decide)
      rw [List.splitOn_intercalate 95 hsep hne]
      simpa [List.isEmpty_iff] using hgroups
    · intro hall
      refine ⟨ds.splitOn 95, List.splitOn_ne_nil 95 ds, ?_, (List.intercalate_splitOn 95).symm⟩
      simpa [List.isEmpty_iff] using hall
  unfold pyDigits
  dsimp only
  rw [hgroups, flatten_splitOn]
  rw [flatten_splitOn] at hlength
  grind

theorem bytesToIntRange_cases (x : Bytes) (lo hi : Int) :
    (∃ n, pyInt x = some n ∧ lo ≤ n ∧ n ≤ hi ∧ bytesToIntRange x lo hi = .ok n) ∨
      (∀ n, pyInt x = some n → n < lo ∨ hi < n) ∧
        ∃ msg, bytesToIntRange x lo hi = .error (.blobError msg) := by
  unfold bytesToIntRange bytesToInt
  cases hint : pyInt x with
  | none => exact .inr ⟨by simp, _, rfl⟩
  | some n =>
      simp only [bind, Except.bind]
      split
      · next hlo =>
          refine .inr ⟨?_, _, rfl⟩
          rintro m ⟨⟩
          exact .inl hlo
      · next hlo =>
          split
          · next hhi =>
              refine .inr ⟨?_, _, rfl⟩
              rintro m ⟨⟩
              exact .inr hhi
          · next hhi => exact .inl ⟨n, rfl, Int.not_lt.mp hlo, Int.not_lt.mp hhi, rfl⟩

/-- In three octets, the numbers that are not negative are the numerals. -/
theorem pyInt_code_iff {x : Bytes} (hx : x.length ≤ 3) :
    (∃ n, pyInt x = some n ∧ 0 ≤ n ∧ n ≤ 999) ↔ Numeral x := by
  have hstrip : (strip isSpace x).length ≤ 3 := (strip_isInfix isSpace x).length_le.trans hx
  have hshort : ∀ {ds : Bytes}, ds.length ≤ 3 → ds.length ≤ maxStrDigits :=
    fun h => h.trans (by decide)
  -- three digits do not exceed the largest code
  have hvalue : ∀ {ds : Bytes} {v : Nat}, ds.length ≤ 3 → pyDigits ds = some v → v ≤ 999 := by
    intro ds v hds hv
    obtain ⟨hall, rfl⟩ := pyDigits_eq_some hv
    have hlt := digitsValue_lt hall
    have hpow : 10 ^ (ds.filter fun b => !(b == 95)).length ≤ 10 ^ 3 :=
      Nat.pow_le_pow_right (by decide) ((List.length_filter_le _ ds).trans hds)
    omega
  have hzero : ∀ {ds : Bytes} {v : Nat}, pyDigits ds = some v →
      (v = 0 ↔ ∀ d ∈ ds, d = 48 ∨ d = 95) := by
    intro ds v hv
    obtain ⟨hall, rfl⟩ := pyDigits_eq_some hv
    rw [digitsValue_eq_zero_iff hall]
    simp only [List.mem_filter]
    grind
  have hdigits : ∀ {ds : Bytes}, ds.length ≤ 3 → ((∃ v, pyDigits ds = some v) ↔ Digits ds) := by
    intro ds hds
    simp [pyDigits_eq_some_iff (hshort hds)]
  have htail : ∀ {c : UInt8} {ds : Bytes}, strip isSpace x = c :: ds → ds.length ≤ 3 := by
    intro c ds heq
    rw [heq, List.length_cons] at hstrip
    omega
  constructor
  · rintro ⟨n, hn, hlo, hhi⟩
    unfold pyInt at hn
    split at hn
    · next ds heq =>
        obtain ⟨v, hv, rfl⟩ := Option.map_eq_some_iff.mp hn
        exact .plus ds heq ((hdigits (htail heq)).mp ⟨v, hv⟩)
    · next ds heq =>
        obtain ⟨v, hv, rfl⟩ := Option.map_eq_some_iff.mp hn
        exact .minus ds heq ((hdigits (htail heq)).mp ⟨v, hv⟩) ((hzero hv).mp (by omega))
    · obtain ⟨v, hv, rfl⟩ := Option.map_eq_some_iff.mp hn
      exact .unsigned ((hdigits hstrip).mp ⟨v, hv⟩)
  · intro hx
    cases hx with
    | unsigned h =>
        obtain ⟨v, hv⟩ := (hdigits hstrip).mpr h
        refine ⟨v, ?_, Int.natCast_nonneg v, Int.ofNat_le.mpr (hvalue hstrip hv)⟩
        unfold pyInt
        -- a digit is no sign
        split
        · next heq => exact absurd (heq ▸ h).isDigit_head (by decide)
        · next heq => exact absurd (heq ▸ h).isDigit_head (by decide)
        · rw [hv]
          rfl
    | plus ds heq h =>
        obtain ⟨v, hv⟩ := (hdigits (htail heq)).mpr h
        refine ⟨v, ?_, Int.natCast_nonneg v, Int.ofNat_le.mpr (hvalue (htail heq) hv)⟩
        simp [pyInt, heq, hv]
    | minus ds heq h hz =>
        obtain ⟨v, hv⟩ := (hdigits (htail heq)).mpr h
        obtain rfl := (hzero hv).mpr hz
        exact ⟨0, by simp [pyInt, heq, hv], by decide, by decide⟩

/-- Digits alone are read as they are. -/
theorem pyInt_digits {ds : Bytes} (hne : ds ≠ []) (hds : ds.all isDigit)
    (hlength : ds.length ≤ maxStrDigits) : pyInt ds = some (digitsValue ds) := by
  have hdigit : ∀ d ∈ ds, isDigit d = true := List.all_eq_true.mp hds
  have hstrip : strip isSpace ds = ds := by
    apply strip_of_forall
    intro d hd
    have hd := isDigit_iff.mp (hdigit d hd)
    simp [isSpace, ← UInt8.toNat_inj, UInt8.le_iff_toNat_le]
    omega
  have hfilter : (ds.filter fun b => !(b == 95)) = ds := by
    rw [List.filter_eq_self]
    intro d hd
    rw [Bool.not_eq_true', beq_eq_false_iff_ne]
    rintro rfl
    exact absurd (hdigit _ hd) (by decide)
  have hvalue : pyDigits ds = some (digitsValue ds) := by
    rw [pyDigits_eq_some_iff hlength, hfilter]
    refine ⟨⟨[ds], List.cons_ne_nil ds [], ?_, by simp⟩, rfl⟩
    rintro g hg
    rw [List.mem_singleton.mp hg]
    exact ⟨hne, hds⟩
  unfold pyInt
  rw [hstrip]
  split
  · exact absurd (hdigit 43 List.mem_cons_self) (by decide)
  · exact absurd (hdigit 45 List.mem_cons_self) (by decide)
  · rw [hvalue]
    rfl

end GufoBlob
