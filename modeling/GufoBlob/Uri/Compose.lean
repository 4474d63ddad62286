import GufoBlob.Uri.Decode
import GufoBlob.Uri.Path

/-!
# URLs that are put together

A URL written from its parts, `scheme://netloc/path?query`, is taken apart by `urlsplit` into the
same parts (`split_compose`), provided that no part holds a character that ends it or that `urlsplit`
removes. A quoted text holds none of these (`quote_clean`).
-/

namespace GufoBlob.Uri

open Text

/-- A scheme of RFC 3986. -/
def isScheme : Str → Bool
  | c :: cs => c.isAlpha && (c :: cs).all isSchemeChar
  | [] => false

/-- `scheme://netloc/path`, with `?query` behind it if there is one; the path is empty or starts
with a slash. -/
def compose (scheme netloc path : Str) (query : Option Str) : Str :=
  scheme ++ ':' :: '/' :: '/' :: (netloc ++ (path ++ query.elim [] ('?' :: ·)))

/-- The text can be a path or a query: it holds nothing that ends a path, and nothing that `urlsplit`
removes. -/
def Clean (s : Str) : Prop := ∀ c ∈ s, endsPath c = false ∧ isUnsafe c = false

theorem Clean.append {s t : Str} (hs : Clean s) (ht : Clean t) : Clean (s ++ t) := by
  intro c hc
  rcases List.mem_append.mp hc with hc | hc
  · exact hs c hc
  · exact ht c hc

theorem Clean.cons {c : Char} {s : Str} (hc : endsPath c = false ∧ isUnsafe c = false)
    (hs : Clean s) : Clean (c :: s) := by
  intro d hd
  rcases List.mem_cons.mp hd with rfl | hd
  · exact hc
  · exact hs d hd

/-- What is quoted is clean, whatever is safe to leave. -/
theorem quote_clean {safe : List Char} (hsafe : Clean safe) (s : Str) : Clean (quote safe s) := by
  intro c hc
  rcases mem_quote hc with rfl | h
  · decide
  · simp only [isSafe, Bool.and_eq_true, Bool.or_eq_true, List.contains_iff_mem] at h
    rcases h.2 with hun | hmem
    · constructor
      · cases hends : endsPath c with
        | false => rfl
        | true =>
            simp only [endsPath, Bool.or_eq_true, decide_eq_true_eq] at hends
            rcases hends with rfl | rfl <;> simp [unreserved] at hun
      · cases hunsafe : isUnsafe c with
        | false => rfl
        | true =>
            simp only [isUnsafe, Bool.or_eq_true, decide_eq_true_eq] at hunsafe
            rcases hunsafe with (rfl | rfl) | rfl <;> simp [unreserved] at hun
    · exact hsafe c hmem

section Separator

variable {safe : List Char} {c : Char} {p : Char → Bool}

/-- The ends of a quoted character are no separator that is safe to leave. -/
theorem quote_singleton (hpercent : '%' ∉ safe) (hsafe : isSafe safe c = true)
    (hsep : c.isAlphanum = false) (hne : c ≠ '%') {d : Char} (hd : d ≠ c) :
    quote safe [d] ≠ [] ∧ c ∉ quote safe [d] := by
  constructor
  · intro h
    have hnil := quote_injective hpercent (h.trans quote_nil.symm)
    simp at hnil
  · rw [mem_quote_iff hsafe hsep hne]
    simpa using Ne.symm hd

/-- A separator that is safe to leave is stripped before quoting or after it. -/
theorem lstrip_quote (hpercent : '%' ∉ safe) (hsafe : isSafe safe c = true)
    (hsep : c.isAlphanum = false) (hne : c ≠ '%') (hp : ∀ d, p d = true ↔ d = c) (s : Str) :
    lstrip p (quote safe s) = quote safe (lstrip p s) := by
  unfold lstrip
  induction s with
  | nil => simp
  | cons d s ih =>
      by_cases hd : d = c
      · subst hd
        rw [quote_cons_of_safe hsafe, List.dropWhile_cons_of_pos ((hp d).mpr rfl),
          List.dropWhile_cons_of_pos ((hp d).mpr rfl), ih]
      · have hfirst : quote safe (d :: s) = quote safe [d] ++ quote safe s :=
          quote_append [d] s
        obtain ⟨hnil, hmem⟩ := quote_singleton hpercent hsafe hsep hne hd
        have hneg : ¬ p d = true := fun h => hd ((hp d).mp h)
        -- What is quoted starts with a `%` or with `d` itself, and not with the separator.
        rw [List.dropWhile_cons_of_neg hneg, hfirst]
        cases hq : quote safe [d] with
        | nil => exact absurd hq hnil
        | cons e es =>
            rw [hq] at hmem
            have hstop : ¬ p e = true := by
              intro h
              exact hmem (by simp [(hp e).mp h])
            rw [List.cons_append, List.dropWhile_cons_of_neg hstop]

theorem rstrip_quote (hpercent : '%' ∉ safe) (hsafe : isSafe safe c = true)
    (hsep : c.isAlphanum = false) (hne : c ≠ '%') (hp : ∀ d, p d = true ↔ d = c) (s : Str) :
    rstrip p (quote safe s) = quote safe (rstrip p s) := by
  unfold rstrip
  induction s using List.reverseRecOn with
  | nil => simp
  | append_singleton s d ih =>
      by_cases hd : d = c
      · subst hd
        have hself : quote safe [d] = [d] := quote_cons_of_safe hsafe []
        have hpos : p d = true := (hp d).mpr rfl
        simpa [hself, hpos] using ih
      · obtain ⟨hnil, hmem⟩ := quote_singleton hpercent hsafe hsep hne hd
        have hneg : ¬ p d = true := fun h => hd ((hp d).mp h)
        have hstop : ∀ e ∈ (quote safe [d]).reverse.head?, ¬ p e = true := by
          intro e he h
          have hmem' : e ∈ quote safe [d] := by
            simpa using List.mem_of_mem_head? he
          exact hmem ((hp e).mp h ▸ hmem')
        have hne' : (quote safe [d]).reverse ≠ [] := by simpa using hnil
        rw [quote_append, List.reverse_append]
        cases hq : (quote safe [d]).reverse with
        | nil => exact absurd hq hne'
        | cons e es =>
            have he : ¬ p e = true := hstop e (by simp [hq])
            rw [List.cons_append, List.dropWhile_cons_of_neg he, ← List.cons_append, ← hq]
            simp [hneg]

end Separator

/-- `urlsplit` removes nothing from a text without tabs and line ends. -/
theorem filter_of_safe {s : Str} (hs : ∀ c ∈ s, isUnsafe c = false) :
    s.filter (fun c => !isUnsafe c) = s := by
  rw [List.filter_eq_self]
  intro c hc
  simp [hs c hc]

theorem filter_clean {s : Str} (hs : Clean s) : s.filter (fun c => !isUnsafe c) = s :=
  filter_of_safe fun c hc => (hs c hc).2

section Scheme

variable {scheme : Str}

theorem isSchemeChar_of_isScheme (h : isScheme scheme = true) : ∀ c ∈ scheme, isSchemeChar c = true := by
  cases scheme with
  | nil => simp [isScheme] at h
  | cons c cs =>
      simp only [isScheme, Bool.and_eq_true] at h
      exact List.all_eq_true.mp h.2

/-- A scheme has no delimiter in it, and nothing that is removed. -/
theorem notMem_of_isScheme (h : isScheme scheme = true) {c : Char} (hc : isSchemeChar c = false) :
    c ∉ scheme := by
  intro hmem
  have htrue := isSchemeChar_of_isScheme h c hmem
  simp [hc] at htrue

theorem filter_scheme (h : isScheme scheme = true) :
    scheme.filter (fun c => !isUnsafe c) = scheme := by
  apply filter_of_safe
  intro c hc
  cases hunsafe : isUnsafe c with
  | false => rfl
  | true =>
      simp only [isUnsafe, Bool.or_eq_true, decide_eq_true_eq] at hunsafe
      rcases hunsafe with (rfl | rfl) | rfl <;>
        exact absurd hc (notMem_of_isScheme h (by decide))

/-- Nothing is stripped in front of a scheme. -/
theorem lstrip_scheme (h : isScheme scheme = true) (rest : Str) :
    lstrip isC0OrSpace (scheme ++ rest) = scheme ++ rest := by
  cases scheme with
  | nil => simp [isScheme] at h
  | cons c cs =>
      simp only [isScheme, Bool.and_eq_true] at h
      have hspace : isC0OrSpace c = false := by
        cases hle : isC0OrSpace c with
        | false => rfl
        | true =>
            have hsmall : c.toNat ≤ 32 := by simpa [isC0OrSpace] using hle
            have halpha : isC0OrSpace c = true → c.isAlpha = false :=
              of_ascii (P := fun c => isC0OrSpace c = true → c.isAlpha = false) (by decide) (by omega)
            simp [halpha hle] at h
      exact List.dropWhile_cons_of_neg (by simp [hspace])

theorem splitScheme_append (h : isScheme scheme = true) (rest : Str) :
    splitScheme (scheme ++ ':' :: rest) = (scheme.map Char.toLower, rest) := by
  unfold splitScheme
  rw [partition_append (notMem_of_isScheme h (by decide))]
  cases scheme with
  | nil => simp [isScheme] at h
  | cons c cs => exact if_pos h

end Scheme

/-- The netloc ends where the path or the query starts. -/
theorem splitNetloc_append {netloc rest : Str} (hnetloc : ∀ c ∈ netloc, endsAuthority c = false)
    (hrest : ∀ c, rest.head? = some c → endsAuthority c = true) :
    splitNetloc ('/' :: '/' :: (netloc ++ rest)) = (netloc, rest) := by
  have htake : (netloc ++ rest).takeWhile (fun c => !endsAuthority c) = netloc := by
    rw [List.takeWhile_append_of_pos (by intro c hc; simp [hnetloc c hc])]
    cases rest with
    | nil => simp
    | cons c rest => simp [hrest c rfl]
  have hdrop : (netloc ++ rest).dropWhile (fun c => !endsAuthority c) = rest := by
    rw [List.dropWhile_append_of_pos (by intro c hc; simp [hnetloc c hc])]
    cases rest with
    | nil => simp
    | cons c rest => simp [hrest c rfl]
  show (netloc ++ rest).span (fun c => !endsAuthority c) = _
  rw [List.span_eq_takeWhile_dropWhile, htake, hdrop]

/-- `urlsplit` finds the parts that a URL was put together from. -/
theorem split_compose {scheme netloc path : Str} {query : Option Str}
    (hscheme : isScheme scheme = true) (hnetloc : ∀ c ∈ netloc, endsAuthority c = false)
    (hpath : Clean path) (hhead : path = [] ∨ path.head? = some '/')
    (hquery : ∀ q ∈ query, '#' ∉ q ∧ ∀ c ∈ q, isUnsafe c = false) :
    split (compose scheme netloc path query) =
      ⟨scheme.map Char.toLower, netloc.filter fun c => !isUnsafe c, path, query.getD [], []⟩ := by
  have htail : (query.elim [] ('?' :: ·)).filter (fun c => !isUnsafe c) =
      query.elim [] ('?' :: ·) := by
    cases query with
    | none => rfl
    | some q =>
        apply filter_of_safe
        intro c hc
        rcases List.mem_cons.mp hc with rfl | hc
        · rfl
        · exact (hquery q rfl).2 c hc
  have hfilter : (compose scheme netloc path query).filter (fun c => !isUnsafe c) =
      scheme ++ ':' :: '/' :: '/' :: ((netloc.filter fun c => !isUnsafe c) ++
        (path ++ query.elim [] ('?' :: ·))) := by
    unfold compose
    simp only [List.filter_append, filter_scheme hscheme]
    rw [List.filter_cons_of_pos (by decide), List.filter_cons_of_pos (by decide),
      List.filter_cons_of_pos (by decide)]
    simp only [List.filter_append, filter_clean hpath, htail]
  have hrest : ∀ c, (path ++ query.elim [] ('?' :: ·)).head? = some c → endsAuthority c = true := by
    intro c hc
    rcases hhead with rfl | hslash
    · cases query with
      | none => simp at hc
      | some q =>
          obtain rfl : '?' = c := by simpa using hc
          rfl
    · have hne : path ≠ [] := by
        rintro rfl
        simp at hslash
      rw [List.head?_append_of_ne_nil _ hne, hslash] at hc
      obtain rfl : '/' = c := by simpa using hc
      rfl
  have hnetloc' : ∀ c ∈ netloc.filter (fun c => !isUnsafe c), endsAuthority c = false :=
    fun c hc => hnetloc c (List.mem_of_mem_filter hc)
  have hfragment : '#' ∉ path ++ query.elim [] ('?' :: ·) := by
    intro hmem
    rcases List.mem_append.mp hmem with h | h
    · exact absurd (hpath _ h).1 (by decide)
    · cases query with
      | none => simp at h
      | some q => exact (hquery q rfl).1 (by simpa using h)
  have hmark : '?' ∉ path := fun h => absurd (hpath _ h).1 (by decide)
  have hstrip : lstrip isC0OrSpace (compose scheme netloc path query) =
      compose scheme netloc path query := lstrip_scheme hscheme _
  -- Each part ends at the first delimiter behind it.
  unfold split
  rw [hstrip, hfilter]
  dsimp only
  rw [splitScheme_append hscheme]
  dsimp only
  rw [splitNetloc_append hnetloc' hrest]
  dsimp only
  rw [partition_of_notMem hfragment]
  dsimp only
  cases query with
  | none =>
      simp only [Option.elim, List.append_nil, partition_of_notMem hmark]
      rfl
  | some q =>
      simp only [Option.elim, partition_append hmark]
      rfl

/-- Without a semicolon there are no parameters. -/
theorem splitParams_of_notMem {path : Str} (h : ';' ∉ path) : splitParams path = path := by
  unfold splitParams
  rcases rpartition_cases '/' path with ⟨-, hcut⟩ | ⟨dir, name, hpath, -, hcut⟩
  · rw [hcut]
    dsimp only
    rw [partition_of_notMem h]
  · have hname : ';' ∉ name := by
      intro hmem
      exact h (by simp [hpath, hmem])
    rw [hcut]
    dsimp only
    rw [partition_of_notMem hname, hpath]

theorem urlsplit_compose {py : Python} {scheme netloc path : Str} {query : Option Str}
    (hscheme : isScheme scheme = true) (hnetloc : ∀ c ∈ netloc, endsAuthority c = false)
    (hcheck : checkNetloc py (netloc.filter fun c => !isUnsafe c) = .ok ())
    (hpath : Clean path) (hhead : path = [] ∨ path.head? = some '/')
    (hquery : ∀ q ∈ query, '#' ∉ q ∧ ∀ c ∈ q, isUnsafe c = false) :
    urlsplit py (compose scheme netloc path query) =
      .ok ⟨scheme.map Char.toLower, netloc.filter fun c => !isUnsafe c, path, query.getD [], []⟩ := by
  unfold urlsplit
  rw [split_compose hscheme hnetloc hpath hhead hquery]
  simp only [hcheck]
  rfl

/-- A URL without a query. -/
theorem urlQuery_none (o : Origin) {p : Str} (hp : ∀ c ∈ p, endsPath c = false) :
    urlQuery (o.url ++ '/' :: p) = [] := by
  have hall : ∀ c ∈ o.authority ++ '/' :: p, (!endsPath c) = true := by
    intro c hc
    rcases List.mem_append.mp hc with hc | hc
    · have h := o.authority_ok c hc
      simp only [endsAuthority, Bool.or_eq_false_iff] at h
      simp [endsPath, h.1.2, h.2]
    · rcases List.mem_cons.mp hc with rfl | hc
      · rfl
      · simp [hp c hc]
  have hdrop : (o.authority ++ '/' :: p).dropWhile (fun c => !endsPath c) = [] :=
    List.dropWhile_eq_nil_iff.mpr hall
  rw [urlQuery, Origin.url, List.append_assoc, List.cons_append, List.cons_append, List.cons_append,
    afterScheme_origin o.scheme_ok, hdrop]

/-- An authority in ASCII without brackets passes the checks of `urlsplit`. -/
theorem checkNetloc_ascii (py : Python) {netloc : Str}
    (h : ∀ c ∈ netloc, c.toNat < 128 ∧ c ≠ '[' ∧ c ≠ ']') : checkNetloc py netloc = .ok () := by
  have hopen : netloc.contains '[' = false := by
    rw [List.contains_eq_mem, decide_eq_false_iff_not]
    exact fun hmem => (h _ hmem).2.1 rfl
  have hclose : netloc.contains ']' = false := by
    rw [List.contains_eq_mem, decide_eq_false_iff_not]
    exact fun hmem => (h _ hmem).2.2 rfl
  have hnfkc : checkNfkc py netloc = true := by
    unfold checkNfkc
    rw [Bool.or_eq_true, List.all_eq_true]
    exact .inl fun c hc => decide_eq_true (h c hc).1
  unfold checkNetloc
  simp only [hopen, hclose, hnfkc]
  rfl

/-! ## Authorities -/

/-- A letter or a digit of ASCII, a dot or a hyphen. -/
def isHostChar (c : Char) : Bool := c.isAlphanum || c = '.' || c = '-'

theorem isHostChar_lt {c : Char} (h : isHostChar c = true) : c.toNat < 128 := by
  simp only [isHostChar, Bool.or_eq_true, decide_eq_true_eq] at h
  rcases h with (h | rfl) | rfl
  · have hranges : c.isAlphanum = (decide (65 ≤ c.val ∧ c.val ≤ 90) ||
        (decide (97 ≤ c.val) && decide (c.val ≤ 122)) ||
        (decide (48 ≤ c.val) && decide (c.val ≤ 57))) := rfl
    have hle : c.val ≤ 122 := by
      rw [hranges] at h
      simp only [Bool.or_eq_true, Bool.and_eq_true, decide_eq_true_eq] at h
      rcases h with (⟨-, h⟩ | ⟨-, h⟩) | ⟨-, h⟩
      · exact UInt32.le_trans h (by decide)
      · exact h
      · exact UInt32.le_trans h (by decide)
    have hc : c.toNat = c.val.toNat := rfl
    rw [UInt32.le_iff_toNat_le] at hle
    simp at hle
    omega
  · decide
  · decide

/-! Numbers of ports are written in decimal. -/

theorem toList_toString (n : Nat) : (toString n).toList = Nat.toDigits 10 n := Nat.toList_repr

theorem isHostChar_digit {c : Char} (h : c.isDigit = true) : isHostChar c = true := by
  have halnum : c.isAlphanum = (c.isAlpha || c.isDigit) := rfl
  simp [isHostChar, halnum, h]

theorem isDigit_port {n : Nat} {c : Char} (hc : c ∈ (toString n).toList) : c.isDigit = true := by
  rw [toList_toString] at hc
  exact Nat.isDigit_of_mem_toDigits (by decide) (by decide) hc

theorem port_ne_nil (n : Nat) : (toString n).toList ≠ [] := by
  rw [toList_toString]
  exact Nat.toDigits_ne_nil

theorem portNumber_toString {n : Nat} (h : n ≤ 65535) :
    SplitResult.portNumber (toString n).toList = some n := by
  have hdigits : (toString n).toList.all Char.isDigit = true :=
    List.all_eq_true.mpr fun c hc => isDigit_port hc
  have hvalue : (toString n).toList.foldl (fun n c => 10 * n + (c.toNat - 48)) 0 = n := by
    rw [toList_toString]
    exact Nat.ofDigitChars_ten_toDigits
  unfold SplitResult.portNumber
  rw [if_pos hdigits]
  dsimp only
  rw [hvalue, if_pos h]

/-- A character that `urlsplit` leaves where it is in an authority, and has nothing against. -/
structure NetlocChar (c : Char) : Prop where
  inside : endsAuthority c = false
  safe : isUnsafe c = false
  ascii : c.toNat < 128
  opening : c ≠ '['
  closing : c ≠ ']'

theorem netlocChar_iff {c : Char} : NetlocChar c ↔ endsAuthority c = false ∧ isUnsafe c = false ∧
    c.toNat < 128 ∧ c ≠ '[' ∧ c ≠ ']' :=
  ⟨fun h => ⟨h.inside, h.safe, h.ascii, h.opening, h.closing⟩,
    fun h => ⟨h.1, h.2.1, h.2.2.1, h.2.2.2.1, h.2.2.2.2⟩⟩

instance (c : Char) : Decidable (NetlocChar c) := decidable_of_iff' _ netlocChar_iff

theorem NetlocChar.of_isHostChar {c : Char} (h : isHostChar c = true) : NetlocChar c :=
  of_ascii (P := fun c => isHostChar c = true → NetlocChar c) (by decide) (isHostChar_lt h) h

/-- `urlparse` gives the parts of a URL back, where no parameters are cut off its path. -/
theorem urlparse_compose (py : Python) {scheme netloc path : Str} {query : Option Str}
    (hscheme : isScheme scheme = true) (hlower : scheme.map Char.toLower = scheme)
    (hnetloc : ∀ c ∈ netloc, NetlocChar c) (hpath : Clean path)
    (hhead : path = [] ∨ path.head? = some '/')
    (hquery : ∀ q ∈ query, '#' ∉ q ∧ ∀ c ∈ q, isUnsafe c = false)
    (hparams : scheme ∉ usesParams ∨ ';' ∉ path) :
    urlparse py (compose scheme netloc path query) =
      .ok ⟨scheme, netloc, path, query.getD [], []⟩ := by
  have hsplit : split (compose scheme netloc path query) =
      ⟨scheme, netloc, path, query.getD [], []⟩ := by
    rw [split_compose hscheme (fun c hc => (hnetloc c hc).inside) hpath hhead hquery, hlower,
      filter_of_safe fun c hc => (hnetloc c hc).safe]
  have hcheck : checkNetloc py (split (compose scheme netloc path query)).netloc = .ok () := by
    rw [hsplit]
    exact checkNetloc_ascii py fun c hc =>
      ⟨(hnetloc c hc).ascii, (hnetloc c hc).opening, (hnetloc c hc).closing⟩
  rw [urlparse_of_ok hcheck, parsed, hsplit]
  rcases hparams with hscheme | hpath
  · rw [if_neg hscheme]
  · rw [splitParams_of_notMem hpath, ite_self]

section Host

variable {host : Str}

theorem notMem_host (hhost : ∀ c ∈ host, isHostChar c = true) {c : Char}
    (hc : isHostChar c = false) : c ∉ host := by
  intro hmem
  have htrue := hhost c hmem
  simp [hc] at htrue

/-- The netloc is a host. -/
theorem hostinfo_host {u : SplitResult} (hhost : ∀ c ∈ host, isHostChar c = true)
    (hu : u.netloc = host) : u.hostinfo = (host, none) := by
  unfold SplitResult.hostinfo
  rw [hu, rpartition_of_notMem (notMem_host hhost (by decide))]
  dsimp only
  rw [partition_of_notMem (notMem_host hhost (by decide))]
  dsimp only
  rw [partition_of_notMem (notMem_host hhost (by decide))]
  rfl

/-- The netloc is a host with a port, behind a user with a password. -/
theorem hostinfo_full {u : SplitResult} (hhost : ∀ c ∈ host, isHostChar c = true) {info port : Str}
    (hport : ∀ c ∈ port, isHostChar c = true) (hne : port ≠ [])
    (hu : u.netloc = info ++ '@' :: (host ++ ':' :: port)) : u.hostinfo = (host, some port) := by
  have hafter : ∀ c, isHostChar c = false → c ≠ ':' → c ∉ host ++ ':' :: port := by
    intro c hc hcolon
    simp [notMem_host hhost hc, notMem_host hport hc, hcolon]
  unfold SplitResult.hostinfo
  rw [hu, rpartition_append (hafter '@' (by decide) (by decide))]
  dsimp only
  rw [partition_of_notMem (hafter '[' (by decide) (by decide))]
  dsimp only
  rw [partition_append (notMem_host hhost (by decide))]
  simp [hne]

theorem userinfo_full {u : SplitResult} (hhost : ∀ c ∈ host, isHostChar c = true)
    {user password port : Str} (hport : ∀ c ∈ port, isHostChar c = true) (huser : ':' ∉ user)
    (hu : u.netloc = (user ++ ':' :: password) ++ '@' :: (host ++ ':' :: port)) :
    u.userinfo = (some user, some password) := by
  have hafter : '@' ∉ host ++ ':' :: port := by
    simp [notMem_host hhost (c := '@') (by decide), notMem_host hport (c := '@') (by decide)]
  unfold SplitResult.userinfo
  rw [hu, rpartition_append hafter]
  dsimp only
  rw [partition_append huser]

theorem hostname_of_hostinfo (py : Python) {u : SplitResult} {port : Option Str}
    (hhost : ∀ c ∈ host, isHostChar c = true) (hne : host ≠ []) (hu : u.hostinfo = (host, port)) :
    u.hostname py = some (py.lower host) := by
  unfold SplitResult.hostname
  rw [hu]
  cases host with
  | nil => exact absurd rfl hne
  | cons c cs =>
      dsimp only
      rw [partition_of_notMem (notMem_host hhost (by decide))]

end Host

end GufoBlob.Uri
