import GufoBlob.Common.Ftp
import Mathlib.Data.Bool.AllAny

/-!
# Lines of a listing

What a server sends for `LIST` and `MLSD`, as structures whose fields are well formed, and when the
parsers of `common/ftp.py` read the entry back.

* `list_decodes_iff` — a listing in the Unix format is read back exactly when the permission fields
  match `rx_unix_perm` and the names contain no white space.
* `mlsd_decodes_iff` — a line of facts is read back exactly when the name contains no `;` and does
  not begin with a space, and a type fact that says `dir` says it in lower case.
-/

namespace GufoBlob.Ftp

open Text

/-- A file name: not empty, and without `/`, CR, LF and NUL. -/
structure FileName (name : Str) : Prop where
  ne_nil : name ≠ []
  plain : ∀ c ∈ ['/', '\r', '\n', '\x00'], c ∉ name

/-- A name, checked by evaluation. -/
theorem fileName_of_decide {name : Str}
    (h : (!name.isEmpty && ['/', '\r', '\n', '\x00'].all fun c => decide (c ∉ name)) = true) :
    FileName name := by
  obtain ⟨hne, hplain⟩ := (Bool.and_eq_true _ _).mp h
  exact ⟨by simpa using hne, List.all_iff_forall_prop.mp hplain⟩

/-! ## LIST -/

/-- `[-d][rwxs-]{9}`. -/
structure UnixPerm (perms : Bytes) : Prop where
  length : perms.length = 10
  kind : perms.head? = some 45 ∨ perms.head? = some 100
  letters : ∀ b ∈ perms.tail, b ∈ ([114, 119, 120, 115, 45] : Bytes)

/-- At each of the nine places, the letter of that place in `rwxrwxrwx` or `-`. -/
def InPlace (perms : Bytes) : Prop :=
  ∀ i < 9, perms[i + 1]? = some 45 ∨ perms[i + 1]? = (encode "rwxrwxrwx".toList)[i]?

instance (perms : Bytes) : Decidable (InPlace perms) := inferInstanceAs (Decidable (∀ i < 9, _))

/-- `rx_unix_perm` matches no other letter, and no letter in another place. -/
theorem rxUnixPerm_iff {perms : Bytes} (h : UnixPerm perms) :
    rxUnixPerm perms = true ↔ InPlace perms := by
  obtain ⟨hlength, hkind, -⟩ := h
  match perms, hlength with
  | [t, r1, w1, x1, r2, w2, x2, r3, w3, x3], _ =>
      have ht : t = 45 ∨ t = 100 := by simpa using hkind
      have hletters : encode "rwxrwxrwx".toList =
          [114, 119, 120, 114, 119, 120, 114, 119, 120] := by decide
      unfold rxUnixPerm InPlace
      rw [hletters]
      simp only [Nat.forall_lt_succ_right, List.getElem?_cons_succ, List.getElem?_cons_zero,
        Option.some.injEq, List.all_cons, List.all_nil, Bool.and_true, Bool.and_eq_true,
        Bool.or_eq_true, decide_eq_true_eq]
      grind

/-- A line of `LIST`. The seven fields are the link count, the owner, the group, the size, the month,
the day and the time, each with the spaces that pad it. -/
structure ListEntry where
  perms : Bytes
  fields : List Bytes
  name : Str
  unixPerm : UnixPerm perms
  count : fields.length = 7
  oneLine : ∀ f ∈ fields, OneLine f
  fileName : FileName name

namespace ListEntry

def line (e : ListEntry) : Bytes :=
  e.perms ++ e.fields.flatMap (fun f => 32 :: f) ++ 32 :: encode e.name

def isDir (e : ListEntry) : Bool := e.perms.head? = some 100

/-- `parse_list_line` reads the entry. -/
structure Readable (e : ListEntry) : Prop where
  perms : InPlace e.perms
  name : ∀ b ∈ encode e.name, isSpace b = false

end ListEntry

/-- Only the first ten octets are matched. -/
theorem rxUnixPerm_append {perms : Bytes} (h : perms.length = 10) (rest : Bytes) :
    rxUnixPerm (perms ++ rest) = rxUnixPerm perms := by
  match perms, h with
  | [_, _, _, _, _, _, _, _, _, _], _ => rfl

theorem encode_ne_nil {name : Str} (h : name ≠ []) : encode name ≠ [] := by
  intro hnil
  exact h (encode_injective hnil)

/-- A line that ends with a name without white space. -/
theorem parseListLine_append {front : Bytes} {name : Str} (hne : name ≠ [])
    (hspace : ∀ b ∈ encode name, isSpace b = false)
    (hperm : rxUnixPerm (front ++ 32 :: encode name) = true) :
    parseListLine (front ++ 32 :: encode name) =
      .ok (name, (front ++ 32 :: encode name).head? = some 100) := by
  have hwords : words (front ++ 32 :: encode name) = words front ++ [encode name] := by
    rw [words_append (by decide), words_singleton (encode_ne_nil hne) hspace]
  unfold parseListLine
  rw [hperm, hwords, List.getLastD_concat, decodeName_eq_ok_iff.mpr rfl]
  rfl

theorem parseListLine_iff (e : ListEntry) :
    parseListLine e.line = .ok (e.name, e.isDir) ↔ e.Readable := by
  have hperm : rxUnixPerm e.line = rxUnixPerm e.perms := by
    unfold ListEntry.line
    rw [List.append_assoc]
    exact rxUnixPerm_append e.unixPerm.length _
  have hhead : e.line.head? = e.perms.head? := by
    have hne : e.perms ≠ [] := by
      intro hnil
      have hlength := e.unixPerm.length
      rw [hnil] at hlength
      cases hlength
    unfold ListEntry.line
    rw [List.append_assoc, List.head?_append_of_ne_nil _ hne]
  constructor
  · intro h
    unfold parseListLine at h
    rw [hperm, hhead] at h
    split at h
    · cases h
    · next hrx =>
        -- the last word is the encoded name
        obtain ⟨name, hname, hret⟩ := except_bind_eq_ok_iff.mp h
        obtain rfl : name = e.name := congrArg Prod.fst (Except.ok.inj hret)
        refine ⟨(rxUnixPerm_iff e.unixPerm).mp (by simpa using hrx), fun b hb => ?_⟩
        rw [← decodeName_eq_ok_iff.mp hname] at hb
        obtain ⟨w, hw, hbw⟩ := exists_of_mem_getLastD hb
        exact isSpace_of_mem_words hw b hbw
  · intro h
    have hread : parseListLine e.line = .ok (e.name, e.line.head? = some 100) :=
      parseListLine_append e.fileName.ne_nil h.name
        (hperm.trans ((rxUnixPerm_iff e.unixPerm).mpr h.perms))
    rw [hread, hhead]
    rfl

/-- The octets that a server sends for a directory. -/
def listing (lines : List Bytes) : Bytes := lines.flatMap frame

theorem FileName.oneLine {name : Str} (h : FileName name) : OneLine (encode name) :=
  oneLine_encode (h.plain _ (by simp)) (h.plain _ (by simp))

theorem UnixPerm.oneLine {perms : Bytes} (h : UnixPerm perms) : OneLine perms := by
  cases perms with
  | nil => exact ⟨by simp, by simp⟩
  | cons t ps =>
      have hkind := h.kind
      have hletters := h.letters
      unfold OneLine
      grind

theorem ListEntry.line_oneLine (e : ListEntry) : OneLine e.line := by
  have hfields : OneLine (e.fields.flatMap fun f => 32 :: f) := by
    have hone := e.oneLine
    unfold OneLine at hone ⊢
    constructor
    · rw [List.mem_flatMap]
      grind
    · rw [List.mem_flatMap]
      grind
  unfold ListEntry.line
  rw [oneLine_append, oneLine_append, ← List.singleton_append, oneLine_append]
  exact ⟨⟨e.unixPerm.oneLine, hfields⟩, by unfold OneLine; decide, e.fileName.oneLine⟩

/-- **A listing in the Unix format is read back**, each line of it and the whole, exactly when every
permission field has its letters `InPlace` and no name contains white space. -/
theorem list_decodes_iff (es : List ListEntry) :
    ((∀ e ∈ es, parseListLine e.line = .ok (e.name, e.isDir)) ∧
      (splitlines (listing (es.map ListEntry.line))).map parseListLine =
        es.map fun e => .ok (e.name, e.isDir)) ↔ ∀ e ∈ es, e.Readable := by
  have hlines : splitlines (listing (es.map ListEntry.line)) = es.map ListEntry.line := by
    apply splitlines_frames
    intro l hl
    obtain ⟨e, -, rfl⟩ := List.mem_map.mp hl
    exact e.line_oneLine
  rw [hlines, List.map_map, List.map_inj_left]
  show (∀ e ∈ es, _) ∧ (∀ e ∈ es, parseListLine e.line = _) ↔ _
  rw [and_self]
  exact forall₂_congr fun e _ => parseListLine_iff e

/-- The entry `-rwxr-xr-x 1 o g 1 Jan 1 00:00 <name>`. -/
def plainEntry (name : Str) (h : FileName name) : ListEntry where
  perms := encode "-rwxr-xr-x".toList
  fields := ["1", "o", "g", "1", "Jan", "1", "00:00"].map fun f => encode f.toList
  name := name
  unixPerm := ⟨by decide, by decide, List.all_iff_forall_prop.mp (by decide)⟩
  count := rfl
  oneLine := by unfold OneLine; decide
  fileName := h

/-- The same with the set-user-ID bit. -/
def setuidEntry (name : Str) (h : FileName name) : ListEntry :=
  { plainEntry name h with
    perms := encode "-rwsr-xr-x".toList
    unixPerm := ⟨by decide, by decide, List.all_iff_forall_prop.mp (by decide)⟩ }

/-- A name with a space, and a permission field with an `s`. -/
theorem not_list_decodes :
    parseListLine (plainEntry ['a', ' ', 'b'] (fileName_of_decide (by decide))).line ≠
        .ok (['a', ' ', 'b'], false) ∧
      parseListLine (setuidEntry ['a'] (fileName_of_decide (by decide))).line ≠ .ok (['a'], false) := by
  constructor
  · intro h
    have hread := (parseListLine_iff (plainEntry ['a', ' ', 'b'] (fileName_of_decide (by decide)))).mp h
    exact absurd hread.name (by decide)
  · intro h
    have hread := (parseListLine_iff (setuidEntry ['a'] (fileName_of_decide (by decide)))).mp h
    exact absurd hread.perms (by decide)

/-! ## MLSD -/

/-- `b.lower()` of one octet. -/
def lower (b : UInt8) : UInt8 := if 65 ≤ b && b ≤ 90 then b + 32 else b

/-- A fact `name=value`. -/
structure Fact (f : Bytes) : Prop where
  equals : 61 ∈ f
  plain : ∀ b ∈ ([59, 13, 10, 32] : Bytes), b ∉ f

/-- A line of `MLSD`. -/
structure MlsdEntry where
  facts : List Bytes
  name : Str
  isFact : ∀ f ∈ facts, Fact f
  fileName : FileName name

namespace MlsdEntry

def line (e : MlsdEntry) : Bytes := e.facts.flatMap (· ++ [59]) ++ 32 :: encode e.name

/-- The type fact is `dir`, in any letter case. -/
def isDir (e : MlsdEntry) : Bool := e.facts.any fun f => f.map lower = typeDir

/-- `parse_mlsd_line` reads the entry. -/
structure Readable (e : MlsdEntry) : Prop where
  semicolon : ';' ∉ e.name
  space : e.name.head? ≠ some ' '
  type : e.isDir = true → typeDir ∈ e.facts

end MlsdEntry

theorem splitOn_facts {facts : List Bytes} (hfacts : ∀ f ∈ facts, 59 ∉ f) (rest : Bytes) :
    (facts.flatMap (· ++ [59]) ++ rest).splitOn 59 = facts ++ rest.splitOn 59 := by
  induction facts with
  | nil => rfl
  | cons f fs ih =>
      rw [List.flatMap_cons, List.append_assoc, List.append_assoc, List.singleton_append,
        List.splitOn_append_cons_self_of_not_mem (hfacts f List.mem_cons_self),
        ih fun g hg => hfacts g (List.mem_cons_of_mem f hg)]
      rfl

/-- The space in front of a name is stripped, and nothing else unless the name begins with one. -/
theorem strip_name_iff {name : Str} (hne : name ≠ []) (hplain : '/' ∉ name) :
    rstrip (· = 47) (lstrip (· = 32) (32 :: encode name)) = encode name ↔
      name.head? ≠ some ' ' := by
  constructor
  · intro hstrip hspace
    obtain ⟨t, rfl⟩ := List.head?_eq_some_iff.mp hspace
    -- the encoded name begins with a space, so it would lose an octet
    have hpre := (rstrip_isPrefix (fun b : UInt8 => b = 47)
      (lstrip (fun b : UInt8 => b = 32) (32 :: encode (' ' :: t)))).length_le
    have hsuf := (lstrip_isSuffix (fun b : UInt8 => b = 32) (encode t)).length_le
    rw [hstrip] at hpre
    exact absurd (Nat.le_trans hpre hsuf) (Nat.not_le.mpr (Nat.lt_succ_self _))
  · intro hspace
    have hhead : ∀ t, encode name ≠ 32 :: t := by
      intro t ht
      obtain ⟨u, rfl, -⟩ := (encode_eq_cons_iff (a := ' ') (by decide)).mp ht
      exact hspace rfl
    have hleft : lstrip (fun b : UInt8 => b = 32) (32 :: encode name) = encode name := by
      show (encode name).dropWhile (fun b : UInt8 => b = 32) = encode name
      cases hname : encode name with
      | nil => rfl
      | cons b t =>
          have hb : b ≠ 32 := by
            rintro rfl
            exact hhead t hname
          simp [hb]
    have hlast := List.dropLast_concat_getLast (encode_ne_nil hne)
    have hslash : (encode name).getLast (encode_ne_nil hne) ≠ 47 := by
      intro heq
      have hmem := List.getLast_mem (encode_ne_nil hne)
      rw [heq] at hmem
      exact hplain ((mem_encode_iff (a := '/') (by decide)).mp hmem)
    rw [hleft, ← hlast, rstrip_append_singleton]
    simpa using hslash

/-- A line that ends with a name without a semicolon. -/
theorem parseMlsdLine_append {facts : List Bytes} (hfacts : ∀ f ∈ facts, 59 ∉ f) {name : Str}
    (hne : name ≠ []) (hslash : '/' ∉ name) (hsemicolon : ';' ∉ name)
    (hspace : name.head? ≠ some ' ') :
    parseMlsdLine (facts.flatMap (· ++ [59]) ++ 32 :: encode name) =
      .ok (name, facts.any fun f => f = typeDir) := by
  have hlast : (32 :: encode name).splitOn 59 = [32 :: encode name] := by
    apply List.splitOn_eq_singleton
    have hmem : 59 ∈ encode name ↔ ';' ∈ name := mem_encode_iff (a := ';') (by decide)
    rw [List.mem_cons, hmem]
    exact fun h => h.elim (by decide) hsemicolon
  unfold parseMlsdLine
  rw [splitOn_facts hfacts, hlast]
  dsimp only
  rw [List.getLastD_concat, List.dropLast_concat,
    decodeName_eq_ok_iff.mpr ((strip_name_iff hne hslash).mpr hspace)]
  rfl

/-- **A line of facts is read back** exactly when the name contains no `;` and does not begin with a
space, and a type fact that is `dir` in some letter case is `type=dir`. -/
theorem mlsd_decodes_iff (e : MlsdEntry) :
    parseMlsdLine e.line = .ok (e.name, e.isDir) ↔ e.Readable := by
  have hsplit : e.line.splitOn 59 = e.facts ++ (32 :: encode e.name).splitOn 59 :=
    splitOn_facts (fun f hf => (e.isFact f hf).plain 59 (by decide)) _
  have hsemicolon : 59 ∈ encode e.name ↔ ';' ∈ e.name := mem_encode_iff (a := ';') (by decide)
  have hparts : ';' ∉ e.name → e.line.splitOn 59 = e.facts ++ [32 :: encode e.name] := by
    intro hno
    rw [hsplit, List.splitOn_eq_singleton]
    rw [List.mem_cons, hsemicolon]
    exact fun h => h.elim (by decide) hno
  have hslash := e.fileName.plain '/' (by decide)
  constructor
  · intro h
    unfold parseMlsdLine at h
    obtain ⟨name, hname, hret⟩ := except_bind_eq_ok_iff.mp h
    obtain rfl : name = e.name := congrArg Prod.fst (Except.ok.inj hret)
    have hflag := congrArg Prod.snd (Except.ok.inj hret)
    have hlast := decodeName_eq_ok_iff.mp hname
    -- the name is a part of the last piece, which has no semicolon
    have hno : ';' ∉ e.name := by
      intro hmem
      rw [← hsemicolon, ← hlast] at hmem
      have hpiece := (lstrip_isSuffix _ _).subset ((rstrip_isPrefix _ _).subset hmem)
      obtain ⟨w, hw, hsep⟩ := exists_of_mem_getLastD hpiece
      exact notMem_of_mem_splitOn hw hsep
    rw [hparts hno, List.getLastD_concat] at hlast
    rw [hparts hno, List.dropLast_concat] at hflag
    refine ⟨hno, (strip_name_iff e.fileName.ne_nil hslash).mp hlast, fun htype => ?_⟩
    have hany : (e.facts.any fun f => f = typeDir) = true := hflag.trans htype
    obtain ⟨f, hf, heq⟩ := List.any_eq_true.mp hany
    rwa [← of_decide_eq_true heq]
  · intro h
    have hflag : (e.facts.any fun f => f = typeDir) = e.isDir := by
      unfold MlsdEntry.isDir
      rw [Bool.eq_iff_iff, List.any_eq_true, List.any_eq_true]
      constructor
      · rintro ⟨f, hf, heq⟩
        refine ⟨f, hf, ?_⟩
        rw [of_decide_eq_true heq]
        decide
      · intro hdir
        exact ⟨typeDir, h.type (List.any_eq_true.mpr hdir), by simp⟩
    have hread := parseMlsdLine_append (fun f hf => (e.isFact f hf).plain 59 (by decide))
      e.fileName.ne_nil hslash h.semicolon h.space
    rw [← hflag]
    exact hread

/-- A name of one letter, and the type fact in upper case. -/
def upperEntry : MlsdEntry where
  facts := [encode "type=DIR".toList]
  name := ['d']
  isFact := by
    intro f hf
    rw [List.mem_singleton.mp hf]
    exact ⟨by decide, List.all_iff_forall_prop.mp (by decide)⟩
  fileName := fileName_of_decide (by decide)

/-- A name with a semicolon. -/
def semicolonEntry : MlsdEntry where
  facts := [encode "type=file".toList]
  name := ['a', ';', 'b']
  isFact := by
    intro f hf
    rw [List.mem_singleton.mp hf]
    exact ⟨by decide, List.all_iff_forall_prop.mp (by decide)⟩
  fileName := fileName_of_decide (by decide)

/-- The directory is not recognised, and the name is cut at the semicolon. -/
theorem not_mlsd_decodes :
    parseMlsdLine upperEntry.line ≠ .ok (['d'], true) ∧
      parseMlsdLine semicolonEntry.line ≠ .ok (['a', ';', 'b'], false) := by
  constructor
  · intro h
    obtain ⟨name, -, hret⟩ := except_bind_eq_ok_iff.mp h
    have hdir : ((upperEntry.line.splitOn 59).dropLast.any fun p => p = typeDir) = true :=
      congrArg Prod.snd (Except.ok.inj hret)
    exact absurd hdir (by decide)
  · intro h
    obtain ⟨name, hname, hret⟩ := except_bind_eq_ok_iff.mp h
    obtain rfl : name = ['a', ';', 'b'] := congrArg Prod.fst (Except.ok.inj hret)
    exact absurd (decodeName_eq_ok_iff.mp hname) (by decide)

end GufoBlob.Ftp
