import GufoBlob.Common.Ftp

/-!
# The address of a data connection

What `parse_pasv` makes of a reply to `PASV`: six numbers in parentheses, four for the host and two
for the port, somewhere in a line.

* `pasvNumbers_eq_some_iff` — the numbers are read exactly where they are written.
* `parsePasv_decodes` — the first group of six numbers is decoded, when each of them is an octet.
-/

namespace GufoBlob.Ftp

open Text

/-- Decimal digits, leading zeros allowed. -/
structure DigitString (b : Bytes) : Prop where
  ne_nil : b ≠ []
  digits : b.all isDigit = true

/-- `(n1,…,nk)`. -/
def parenthesised (numbers : List Bytes) : Bytes := 40 :: ([44].intercalate numbers ++ [41])

/-- The line has a parenthesised group of six numbers, separated by commas. -/
def HasGroup (line : Bytes) : Prop :=
  ∃ numbers : List Bytes, numbers.length = 6 ∧ (∀ n ∈ numbers, DigitString n) ∧
    parenthesised numbers <:+: line

/-! ## Reading the numbers -/

/-- A number ends where something else than a digit begins. -/
theorem DigitString.span {n : Bytes} (hn : DigitString n) {c : UInt8} (hc : isDigit c = false)
    (rest : Bytes) :
    (n ++ c :: rest).takeWhile isDigit = n ∧ (n ++ c :: rest).dropWhile isDigit = c :: rest := by
  have hdigits : ∀ d ∈ n, isDigit d = true := List.all_eq_true.mp hn.digits
  constructor
  · rw [List.takeWhile_append_of_pos hdigits, List.takeWhile_cons_of_neg (by simp [hc]),
      List.append_nil]
  · rw [List.dropWhile_append_of_pos hdigits, List.dropWhile_cons_of_neg (by simp [hc])]

theorem digitString_takeWhile {b : Bytes} (h : (b.takeWhile isDigit).isEmpty = false) :
    DigitString (b.takeWhile isDigit) where
  ne_nil := by simpa using h
  digits := List.all_takeWhile

theorem pasvNumbers_one_iff {b : Bytes} {numbers : List Bytes} :
    pasvNumbers 1 b = some numbers ↔
      ∃ n rest, DigitString n ∧ b = n ++ 41 :: rest ∧ numbers = [n] := by
  have hsplit : b.takeWhile isDigit ++ b.dropWhile isDigit = b := List.takeWhile_append_dropWhile
  constructor
  · intro h
    unfold pasvNumbers at h
    dsimp only at h
    split at h
    · cases h
    · next hne =>
        split at h
        · next rest _ hrest =>
            rw [hrest] at hsplit
            exact ⟨_, rest, digitString_takeWhile (by simpa using hne), hsplit.symm,
              (Option.some.inj h).symm⟩
        · next heq _ => cases heq
        · cases h
  · rintro ⟨n, rest, hn, rfl, rfl⟩
    obtain ⟨htake, hdrop⟩ := hn.span (c := 41) (by decide) rest
    unfold pasvNumbers
    rw [htake, hdrop]
    simp [hn.ne_nil]

theorem pasvNumbers_succ_iff {k : Nat} {b : Bytes} {numbers : List Bytes} :
    pasvNumbers (k + 2) b = some numbers ↔
      ∃ n ns rest, DigitString n ∧ b = n ++ 44 :: rest ∧ pasvNumbers (k + 1) rest = some ns ∧
        numbers = n :: ns := by
  have hsplit : b.takeWhile isDigit ++ b.dropWhile isDigit = b := List.takeWhile_append_dropWhile
  constructor
  · intro h
    unfold pasvNumbers at h
    dsimp only at h
    split at h
    · cases h
    · next hne =>
        split at h
        · next heq _ => cases heq
        · next m rest hm hrest =>
            obtain rfl : k = m := by simpa using hm
            obtain ⟨ns, hns, rfl⟩ := Option.map_eq_some_iff.mp h
            rw [hrest] at hsplit
            exact ⟨_, ns, rest, digitString_takeWhile (by simpa using hne), hsplit.symm, hns, rfl⟩
        · cases h
  · rintro ⟨n, ns, rest, hn, rfl, hns, rfl⟩
    obtain ⟨htake, hdrop⟩ := hn.span (c := 44) (by decide) rest
    unfold pasvNumbers
    rw [htake, hdrop]
    simp [hn.ne_nil, hns]

/-- The numbers are read exactly where they are written. -/
theorem pasvNumbers_eq_some_iff {k : Nat} {b : Bytes} {numbers : List Bytes} :
    pasvNumbers (k + 1) b = some numbers ↔
      numbers.length = k + 1 ∧ (∀ n ∈ numbers, DigitString n) ∧
        [44].intercalate numbers ++ [41] <+: b := by
  induction k generalizing b numbers with
  | zero =>
      rw [pasvNumbers_one_iff]
      constructor
      · rintro ⟨n, rest, hn, rfl, rfl⟩
        exact ⟨rfl, List.forall_mem_singleton.mpr hn, rest, by simp⟩
      · rintro ⟨hlength, hdigits, rest, rfl⟩
        obtain ⟨n, rfl⟩ := List.length_eq_one_iff.mp hlength
        exact ⟨n, rest, List.forall_mem_singleton.mp hdigits, by simp, rfl⟩
  | succ k ih =>
      rw [pasvNumbers_succ_iff]
      constructor
      · rintro ⟨n, ns, rest, hn, rfl, hns, rfl⟩
        obtain ⟨hlength, hdigits, after, rfl⟩ := ih.mp hns
        obtain ⟨m, ms, rfl⟩ := List.exists_cons_of_length_eq_add_one hlength
        refine ⟨congrArg Nat.succ hlength, List.forall_mem_cons.mpr ⟨hn, hdigits⟩, after, ?_⟩
        rw [List.intercalate_cons_cons]
        simp
      · rintro ⟨hlength, hdigits, after, rfl⟩
        obtain ⟨n, ns, rfl⟩ := List.exists_cons_of_length_eq_add_one hlength
        have hlength : ns.length = k + 1 := Nat.succ.inj hlength
        obtain ⟨hn, hdigits⟩ := List.forall_mem_cons.mp hdigits
        obtain ⟨m, ms, rfl⟩ := List.exists_cons_of_length_eq_add_one hlength
        refine ⟨n, m :: ms, [44].intercalate (m :: ms) ++ [41] ++ after, hn, ?_, ?_, rfl⟩
        · rw [List.intercalate_cons_cons]
          simp
        · exact ih.mpr ⟨hlength, hdigits, List.prefix_append _ _⟩

/-! ## Searching the line -/

/-- A group contains no opening parenthesis after its first octet. -/
theorem paren_notMem {numbers : List Bytes} (hdigits : ∀ n ∈ numbers, DigitString n) :
    40 ∉ [44].intercalate numbers ++ [41] := by
  have hjoin : 40 ∉ [44].intercalate numbers := by
    induction numbers with
    | nil => simp
    | cons n ns ih =>
        obtain ⟨hn, hns⟩ := List.forall_mem_cons.mp hdigits
        have hnot : 40 ∉ n := fun hmem => absurd (List.all_eq_true.mp hn.digits 40 hmem) (by decide)
        cases ns with
        | nil => simpa using hnot
        | cons m ms =>
            rw [List.intercalate_cons_cons]
            simpa [hnot] using ih hns
  simpa using hjoin

/-- The group that is found is one of the line. -/
theorem hasGroup_of_searchPasv {line : Bytes} {numbers : List Bytes}
    (h : searchPasv line = some numbers) : HasGroup line := by
  induction line with
  | nil => cases h
  | cons b rest ih =>
      rw [searchPasv] at h
      split at h
      · next ns hns =>
          split at hns
          · next hb =>
              obtain ⟨hlength, hdigits, hprefix⟩ := pasvNumbers_eq_some_iff.mp hns
              refine ⟨ns, hlength, hdigits, List.IsPrefix.isInfix ?_⟩
              rw [hb]
              exact (List.prefix_cons_inj 40).mpr hprefix
          · cases hns
      · obtain ⟨ns, hlength, hdigits, hwithin⟩ := ih h
        exact ⟨ns, hlength, hdigits, hwithin.trans (List.suffix_cons b rest).isInfix⟩

/-- The search passes over what has no group. A group that begins there would end there, since the
next opening parenthesis is not a part of it. -/
theorem searchPasv_append {pre : Bytes} (hpre : ¬ HasGroup pre) (rest : Bytes) :
    searchPasv (pre ++ 40 :: rest) = searchPasv (40 :: rest) := by
  induction pre with
  | nil => rfl
  | cons b pre ih =>
      have hnone : (if b = 40 then pasvNumbers 6 (pre ++ 40 :: rest) else none) = none := by
        split
        · next hb =>
            rw [Option.eq_none_iff_forall_ne_some]
            intro numbers hnumbers
            obtain ⟨hlength, hdigits, after, hafter⟩ := pasvNumbers_eq_some_iff.mp hnumbers
            apply hpre
            refine ⟨numbers, hlength, hdigits, List.IsPrefix.isInfix ?_⟩
            rw [hb]
            apply (List.prefix_cons_inj 40).mpr
            rcases List.append_eq_append_iff.mp hafter with ⟨u, hu, -⟩ | ⟨u, hu, hrest⟩
            · exact ⟨u, hu.symm⟩
            · cases u with
              | nil => exact ⟨[], by simpa using hu⟩
              | cons c u =>
                  obtain ⟨rfl, -⟩ := List.cons.inj hrest
                  exact absurd (hu ▸ by simp) (paren_notMem hdigits)
        · rfl
      have htail : ¬ HasGroup pre := by
        rintro ⟨ns, hlength, hdigits, hwithin⟩
        exact hpre ⟨ns, hlength, hdigits, hwithin.trans (List.suffix_cons b pre).isInfix⟩
      rw [List.cons_append, searchPasv, hnone]
      exact ih htail

/-- The first group of the line is found. -/
theorem searchPasv_group {pre : Bytes} (hpre : ¬ HasGroup pre) {numbers : List Bytes}
    (hlength : numbers.length = 6) (hdigits : ∀ n ∈ numbers, DigitString n) (post : Bytes) :
    searchPasv (pre ++ parenthesised numbers ++ post) = some numbers := by
  have hgroup : pasvNumbers 6 ([44].intercalate numbers ++ [41] ++ post) = some numbers :=
    pasvNumbers_eq_some_iff.mpr ⟨hlength, hdigits, List.prefix_append _ _⟩
  rw [parenthesised, List.append_assoc, List.cons_append, searchPasv_append hpre, searchPasv,
    if_pos rfl, hgroup]

/-! ## Decoding the group -/

/-- A number as `int` reads it. -/
structure PasvNumber (n : Bytes) : Prop extends DigitString n where
  length_le : n.length ≤ maxStrDigits

theorem bytesToOctet_number {n : Bytes} (hn : PasvNumber n) :
    bytesToOctet n = if digitsValue n ≤ 255 then .ok (digitsValue n)
      else .error (.blobError ("Octet is out of bounds: " ++ toString (digitsValue n : Int))) := by
  have hint : bytesToInt n = .ok (digitsValue n : Int) := by
    unfold bytesToInt
    rw [pyInt_digits hn.ne_nil hn.digits hn.length_le]
    rfl
  unfold bytesToOctet maxOctet
  rw [hint]
  simp only [bind, Except.bind]
  by_cases hle : digitsValue n ≤ 255
  · rw [if_pos hle, if_neg (by simp; omega)]
    rfl
  · rw [if_neg hle, if_pos (by simp; omega)]
    rfl

/-- The octets are all decoded, or one of them is too large. -/
theorem mapM_bytesToOctet {numbers : List Bytes} (hnumbers : ∀ n ∈ numbers, PasvNumber n) :
    ((∀ n ∈ numbers, digitsValue n ≤ 255) →
        numbers.mapM bytesToOctet = .ok (numbers.map digitsValue)) ∧
      (¬ (∀ n ∈ numbers, digitsValue n ≤ 255) →
        ∃ msg, numbers.mapM bytesToOctet = .error (.blobError msg)) := by
  induction numbers with
  | nil => exact ⟨fun _ => rfl, fun h => absurd (by simp) h⟩
  | cons n ns ih =>
      obtain ⟨hn, hns⟩ := List.forall_mem_cons.mp hnumbers
      obtain ⟨hok, herror⟩ := ih hns
      rw [List.forall_mem_cons, List.mapM_cons, bytesToOctet_number hn]
      constructor
      · rintro ⟨hle, hall⟩
        rw [if_pos hle, hok hall]
        rfl
      · intro hsome
        by_cases hle : digitsValue n ≤ 255
        · obtain ⟨msg, hmsg⟩ := herror fun hall => hsome ⟨hle, hall⟩
          rw [if_pos hle, hmsg]
          exact ⟨msg, rfl⟩
        · rw [if_neg hle]
          exact ⟨_, rfl⟩

/-- A line with six numbers in parentheses, and no such group before them. -/
structure PasvReply where
  pre : Bytes
  h1 : Bytes
  h2 : Bytes
  h3 : Bytes
  h4 : Bytes
  p1 : Bytes
  p2 : Bytes
  post : Bytes
  first : ¬ HasGroup pre
  written : ∀ n ∈ [h1, h2, h3, h4, p1, p2], PasvNumber n

namespace PasvReply

variable (r : PasvReply)

def numbers : List Bytes := [r.h1, r.h2, r.h3, r.h4, r.p1, r.p2]

def line : Bytes := r.pre ++ parenthesised r.numbers ++ r.post

/-- All six numbers are octets. -/
def Octets : Prop := ∀ n ∈ r.numbers, digitsValue n ≤ 255

/-- The dotted quad. -/
def host : Str :=
  (toString (digitsValue r.h1)).toList ++ '.' :: (toString (digitsValue r.h2)).toList ++
    '.' :: (toString (digitsValue r.h3)).toList ++ '.' :: (toString (digitsValue r.h4)).toList

def port : Nat := 256 * digitsValue r.p1 + digitsValue r.p2

theorem pasvAddress_numbers : pasvAddress (r.numbers.map digitsValue) = (r.host, r.port) := by
  have hhost : (".".intercalate (((r.numbers.map digitsValue).take 4).map toString)).toList =
      r.host := by
    simp [numbers, host]
  have hport : (r.numbers.map digitsValue).getD 4 0 <<< 8 + (r.numbers.map digitsValue).getD 5 0 =
      r.port := by
    show digitsValue r.p1 <<< 8 + digitsValue r.p2 = r.port
    rw [Nat.shiftLeft_eq, Nat.mul_comm]
    rfl
  rw [pasvAddress, hhost, hport]

theorem number {n : Bytes} (hn : n ∈ r.numbers) : PasvNumber n := r.written n hn

theorem parsePasv_line : parsePasv r.line = (r.numbers.mapM bytesToOctet).map pasvAddress := by
  have hsearch : searchPasv r.line = some r.numbers :=
    searchPasv_group r.first rfl (fun n hn => (r.number hn).toDigitString) r.post
  rw [parsePasv, hsearch]

theorem port_le (h : r.Octets) : r.port ≤ 65535 := by
  have h1 : digitsValue r.p1 ≤ 255 := h r.p1 (by simp [numbers])
  have h2 : digitsValue r.p2 ≤ 255 := h r.p2 (by simp [numbers])
  unfold port
  omega

end PasvReply

/-- **Replies to `PASV` are decoded**: the first group of six numbers is the address and the port,
when each of them is an octet; every other line is an error. -/
theorem parsePasv_decodes :
    (∀ r : PasvReply,
      (r.Octets → parsePasv r.line = .ok (r.host, r.port) ∧ r.port ≤ 65535) ∧
        (¬ r.Octets → ∃ msg, parsePasv r.line = .error (.blobError msg))) ∧
      ∀ line, ¬ HasGroup line → ∃ msg, parsePasv line = .error (.blobError msg) := by
  refine ⟨fun r => ?_, fun line hline => ?_⟩
  · obtain ⟨hok, herror⟩ := mapM_bytesToOctet fun n => r.number
    constructor
    · intro hoctets
      refine ⟨?_, r.port_le hoctets⟩
      rw [r.parsePasv_line, hok hoctets, ← r.pasvAddress_numbers]
      rfl
    · intro hlarge
      obtain ⟨msg, hmsg⟩ := herror hlarge
      rw [r.parsePasv_line, hmsg]
      exact ⟨msg, rfl⟩
  · have hsearch : searchPasv line = none := by
      rw [Option.eq_none_iff_forall_ne_some]
      exact fun numbers hnumbers => hline (hasGroup_of_searchPasv hnumbers)
    rw [parsePasv, hsearch]
    exact ⟨_, rfl⟩

/-! ## A reply -/

theorem not_hasGroup_of_notMem {line : Bytes} (h : 40 ∉ line) : ¬ HasGroup line := by
  rintro ⟨numbers, -, -, hwithin⟩
  exact h (List.IsInfix.subset hwithin List.mem_cons_self)

theorem pasvNumber_of_decide {n : Bytes}
    (h : (!n.isEmpty && n.all isDigit && decide (n.length ≤ maxStrDigits)) = true) :
    PasvNumber n := by
  simp only [Bool.and_eq_true, decide_eq_true_eq] at h
  exact ⟨⟨by simpa using h.1.1, h.1.2⟩, h.2⟩

theorem paren_notMem_entering : 40 ∉ encode "227 Entering Passive Mode ".toList := by decide

/-- The numbers `127,0,0,01,4,210`. -/
theorem pasvNumber_loopback : ∀ n ∈ [[49, 50, 55], [48], [48], [48, 49], [52], [50, 49, 48]],
    PasvNumber n := by
  simp only [List.forall_mem_cons]
  exact ⟨pasvNumber_of_decide rfl, pasvNumber_of_decide rfl, pasvNumber_of_decide rfl,
    pasvNumber_of_decide rfl, pasvNumber_of_decide rfl, pasvNumber_of_decide rfl, by simp⟩

/-- `227 Entering Passive Mode (127,0,0,01,4,210).` -/
def loopback : PasvReply where
  pre := encode "227 Entering Passive Mode ".toList
  h1 := [49, 50, 55]
  h2 := [48]
  h3 := [48]
  h4 := [48, 49]
  p1 := [52]
  p2 := [50, 49, 48]
  post := [46]
  first := not_hasGroup_of_notMem paren_notMem_entering
  written := pasvNumber_loopback

theorem parsePasv_loopback :
    parsePasv (encode "227 Entering Passive Mode (127,0,0,01,4,210).".toList) =
        .ok ("127.0.0.1".toList, 1234) ∧
      ∃ msg, parsePasv (encode "227 Entering Passive Mode ".toList) = .error (.blobError msg) := by
  have hoctets : loopback.Octets := by
    unfold PasvReply.Octets
    decide
  have hline : loopback.line = encode "227 Entering Passive Mode (127,0,0,01,4,210).".toList := by
    decide
  have hok := ((parsePasv_decodes.1 loopback).1 hoctets).1
  rw [hline] at hok
  exact ⟨hok, parsePasv_decodes.2 _ (not_hasGroup_of_notMem paren_notMem_entering)⟩

end GufoBlob.Ftp
