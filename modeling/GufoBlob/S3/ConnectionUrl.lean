import GufoBlob.OpenBlob
import GufoBlob.S3.Address
import GufoBlob.Uri.Compose
import Mathlib.Data.List.DropRight
import Mathlib.Logic.Function.Iterate

/-!
# S3: the URL of a connection

`S3Info` of `common/s3.py` writes a URL, and `parse_url` reads it. The endpoint goes into the query as
it is, the credentials and the prefix are quoted (`parseUrl_url`).

`parse_url` replaces `//` by `/` as long as there is one. Each round makes the text shorter, so there
is a last one (`collapseSlashes_iterate`), and what is left has a single slash for every run of them
(`collapseSlashes_eq`).
-/

namespace GufoBlob

open Text Uri

namespace S3Blob

/-! ## The loop over the prefix -/

/-- Every run of slashes is one slash. -/
def squeeze : Str → Str
  | c :: d :: rest => if c = '/' ∧ d = '/' then squeeze (d :: rest) else c :: squeeze (d :: rest)
  | s => s

theorem squeeze_cons (c : Char) (s : Str) :
    squeeze (c :: s) = if c = '/' ∧ s.head? = some '/' then squeeze s else c :: squeeze s := by
  cases s with
  | nil => simp [squeeze]
  | cons d s => simp [squeeze]

theorem head?_replaceDouble (s : Str) : (replaceDouble s).head? = s.head? := by
  fun_cases replaceDouble s <;> simp

/-- A round does not change what there is in the end. -/
theorem squeeze_replaceDouble (s : Str) : squeeze (replaceDouble s) = squeeze s := by
  fun_induction replaceDouble s with
  | case1 rest ih =>
      have hround : squeeze ('/' :: replaceDouble rest) = squeeze ('/' :: rest) := by
        rw [squeeze_cons, squeeze_cons, head?_replaceDouble, ih]
      rw [hround, squeeze_cons '/' ('/' :: rest)]
      simp
  | case2 c rest _ ih => rw [squeeze_cons, squeeze_cons, head?_replaceDouble, ih]
  | case3 => rfl

theorem squeeze_of_single {s : Str} (h : hasDouble s = false) : squeeze s = s := by
  fun_induction hasDouble s with
  | case1 rest => simp at h
  | case2 c rest hne ih =>
      have hhead : ¬(c = '/' ∧ rest.head? = some '/') := by
        intro hboth
        obtain ⟨hc, hrest⟩ := hboth
        cases rest with
        | nil => simp at hrest
        | cons d rest => exact hne rest hc (by simpa using hrest)
      rw [squeeze_cons, if_neg hhead, ih h]
  | case3 => rfl

theorem collapseSlashes_eq (s : Str) : collapseSlashes s = squeeze s := by
  fun_induction collapseSlashes s with
  | case1 s _ ih => rw [ih, squeeze_replaceDouble]
  | case2 s h => exact (squeeze_of_single (by simpa using h)).symm

/-- The loop comes to its end: after `n` rounds, and not before, nothing is left to replace. -/
theorem collapseSlashes_iterate (s : Str) :
    ∃ n, (∀ m < n, hasDouble (replaceDouble^[m] s) = true) ∧
      hasDouble (replaceDouble^[n] s) = false ∧ collapseSlashes s = replaceDouble^[n] s := by
  fun_induction collapseSlashes s with
  | case1 s h ih =>
      obtain ⟨n, hbefore, hdone, heq⟩ := ih
      refine ⟨n + 1, ?_, hdone, heq⟩
      intro m hm
      cases m with
      | zero => exact h
      | succ m => exact hbefore m (by omega)
  | case2 s h => exact ⟨0, by simp, by simpa using h, rfl⟩

end S3Blob

namespace S3

open S3Blob

/-! ## `S3Info` -/

/-- `S3_SAFE_CHARS`. -/
def safeChars : List Char := "-_.~!*()*'/".toList

/-- What is needed to connect. -/
structure S3Info where
  host : Str
  port : Int
  bucket : Str
  keyPrefix : Str
  accessKey : Option Str
  secretKey : Option Str

namespace S3Info

def endpoint (info : S3Info) : Str :=
  "http://".toList ++ info.host ++ ':' :: (toString info.port).toList

/-- `url(prefix=override)`. -/
def url (info : S3Info) (override : Option Str) : Str :=
  let p := override.getD info.keyPrefix
  let parts := ["s3://".toList ++ info.bucket]
  let parts :=
    if p.isEmpty then parts else parts ++ ['/' :: quote safeChars (lstrip Ftp.isSlash p)]
  let extras := []
  let extras :=
    if info.endpoint.isEmpty then extras else extras ++ ["endpoint=".toList ++ info.endpoint]
  let extras :=
    if truthy info.accessKey then
      extras ++ ["access_key=".toList ++ quote safeChars (info.accessKey.getD [])]
    else extras
  let extras :=
    if truthy info.secretKey then
      extras ++ ["secret_key=".toList ++ quote safeChars (info.secretKey.getD [])]
    else extras
  let parts := if extras.isEmpty then parts else parts ++ [['?'], ['&'].intercalate extras]
  parts.flatten

end S3Info

/-! ## The URL from its parts -/

/-- The character is the same in a query after decoding, and does not end a value. -/
def isPlain (c : Char) : Bool := !(['%', '+', '&', '#', '\t', '\r', '\n'].contains c)

namespace S3Info

variable {info : S3Info}

/-- A credential in the query, if there is one. -/
def credential (name : Str) (s : Option Str) : List (Str × Str) :=
  if truthy s then [(name, quote safeChars (s.getD []))] else []

def pairs (info : S3Info) : List (Str × Str) :=
  ("endpoint".toList, info.endpoint) ::
    (credential "access_key".toList info.accessKey ++ credential "secret_key".toList info.secretKey)

def path (p : Str) : Str := if p.isEmpty then [] else '/' :: quote safeChars (lstrip Ftp.isSlash p)

theorem url_eq_compose (info : S3Info) (override : Option Str) :
    info.url override = compose "s3".toList info.bucket (path (override.getD info.keyPrefix))
      (some (joinPairs info.pairs)) := by
  have hendpoint : info.endpoint.isEmpty = false := by
    rw [List.isEmpty_eq_false_iff]
    exact fun h => List.cons_ne_nil _ _ (List.append_eq_nil_iff.mp h).2
  have hscheme : "s3://".toList = "s3".toList ++ [':', '/', '/'] := rfl
  have hname : "endpoint=".toList = "endpoint".toList ++ ['='] := rfl
  have haccess : "access_key=".toList = "access_key".toList ++ ['='] := rfl
  have hsecret : "secret_key=".toList = "secret_key".toList ++ ['='] := rfl
  unfold url path pairs credential joinPairs compose
  dsimp only
  rw [hscheme, hname, haccess, hsecret]
  generalize "s3".toList = scheme, "endpoint".toList = name, "access_key".toList = access,
    "secret_key".toList = secret, info.endpoint = e at hendpoint ⊢
  cases (override.getD info.keyPrefix).isEmpty <;> cases truthy info.accessKey <;>
    cases truthy info.secretKey <;> simp [hendpoint]

/-- The decimal digits of a port, and its sign. -/
theorem isPlain_port (port : Int) : ∀ c ∈ (toString port).toList, isPlain c = true := by
  have hdigit : ∀ c : Char, c.isDigit = true → isPlain c = true := fun c hc =>
    of_ascii (P := fun c => c.isDigit = true → isPlain c = true) (by decide)
      (isHostChar_lt (isHostChar_digit hc)) hc
  have hnat : ∀ n : Nat, ∀ c ∈ n.repr.toList, isPlain c = true := by
    intro n c hc
    rw [Nat.toList_repr] at hc
    exact hdigit c (Nat.isDigit_of_mem_toDigits (by decide) (by decide) hc)
  intro c hc
  rw [Int.toString_eq_repr, Int.repr_eq_if] at hc
  split at hc
  · exact hnat _ c hc
  · rw [String.toList_append] at hc
    rcases List.mem_append.mp hc with hc | hc
    · obtain rfl : c = '-' := by simpa using hc
      rfl
    · exact hnat _ c hc

theorem isPlain_endpoint (hhost : ∀ c ∈ info.host, isPlain c = true) :
    ∀ c ∈ info.endpoint, isPlain c = true := by
  have hhttp : ∀ c ∈ "http://".toList, isPlain c = true := List.all_eq_true.mp (by decide)
  intro c hc
  rcases List.mem_append.mp hc with hc | hc
  · rcases List.mem_append.mp hc with hc | hc
    · exact hhttp c hc
    · exact hhost c hc
  · rcases List.mem_cons.mp hc with rfl | hc
    · rfl
    · exact isPlain_port info.port c hc

theorem mem_credential {name : Str} {s : Option Str} {nv : Str × Str} (h : nv ∈ credential name s) :
    nv = (name, quote safeChars (s.getD [])) := by
  unfold credential at h
  split at h
  · simpa using h
  · simp at h

/-- The names in the query, and the two kinds of values. -/
theorem mem_pairs {nv : Str × Str} (h : nv ∈ info.pairs) :
    nv.1 ∈ ["endpoint".toList, "access_key".toList, "secret_key".toList] ∧
      (nv.2 = info.endpoint ∨ ∃ s, nv.2 = quote safeChars s) := by
  rcases List.mem_cons.mp h with rfl | h
  · simp
  · rcases List.mem_append.mp h with h | h <;> rw [mem_credential h] <;> simp

theorem clean_safeChars : Clean safeChars := by
  have hall : safeChars.all (fun c => !endsPath c && !isUnsafe c) = true := by decide
  intro c hc
  simpa using List.all_eq_true.mp hall c hc

theorem separable_pairs (hhost : ∀ c ∈ info.host, isPlain c = true) : Separable info.pairs := by
  intro nv hnv
  obtain ⟨hname, hvalue⟩ := mem_pairs hnv
  have hnames : ∀ n ∈ ["endpoint".toList, "access_key".toList, "secret_key".toList],
      '&' ∉ n ∧ '=' ∉ n := by decide
  refine ⟨(hnames _ hname).1, (hnames _ hname).2, fun h => ?_⟩
  rcases hvalue with hvalue | ⟨s, hvalue⟩
  · rw [hvalue] at h
    exact absurd (isPlain_endpoint hhost _ h) (by decide)
  · rw [hvalue] at h
    exact notMem_quote (by decide) (by decide) h

/-- The query has nothing in it that ends it or is removed from it. -/
theorem query_pairs (hhost : ∀ c ∈ info.host, isPlain c = true) :
    '#' ∉ joinPairs info.pairs ∧ ∀ c ∈ joinPairs info.pairs, isUnsafe c = false := by
  have hplain : ∀ c, isPlain c = true → c ≠ '#' ∧ isUnsafe c = false := by
    intro c hc
    unfold isPlain at hc
    unfold isUnsafe
    grind
  have hquote : ∀ s, ∀ c ∈ quote safeChars s, c ≠ '#' ∧ isUnsafe c = false := by
    intro s c hc
    have hclean := quote_clean clean_safeChars s c hc
    refine ⟨?_, hclean.2⟩
    rintro rfl
    exact absurd hclean.1 (by decide)
  have hnames : ∀ n ∈ ["endpoint".toList, "access_key".toList, "secret_key".toList],
      ∀ c ∈ n, c ≠ '#' ∧ isUnsafe c = false := by
    have hall : ["endpoint".toList, "access_key".toList, "secret_key".toList].all
        (fun n => n.all isPlain) = true := by decide
    intro n hn c hc
    exact hplain c (List.all_eq_true.mp (List.all_eq_true.mp hall n hn) c hc)
  have hpairs : ∀ nv ∈ info.pairs, (∀ c ∈ nv.1, c ≠ '#' ∧ isUnsafe c = false) ∧
      ∀ c ∈ nv.2, c ≠ '#' ∧ isUnsafe c = false := by
    intro nv hnv
    obtain ⟨hname, hvalue⟩ := mem_pairs hnv
    refine ⟨hnames _ hname, ?_⟩
    rcases hvalue with hvalue | ⟨s, hvalue⟩
    · rw [hvalue]
      exact fun c hc => hplain c (isPlain_endpoint hhost c hc)
    · rw [hvalue]
      exact hquote s
  have hall := forall_mem_joinPairs (P := fun c => c ≠ '#' ∧ isUnsafe c = false) (by decide)
    (by decide) hpairs
  exact ⟨fun h => (hall _ h).1 rfl, fun c hc => (hall c hc).2⟩

/-- What `parse_qs` finds: the endpoint, and the credentials that are given. -/
theorem firstParam_pairs (hhost : ∀ c ∈ info.host, isPlain c = true) :
    let qs := parseQs (joinPairs info.pairs) true
    firstParam qs "endpoint".toList [] = info.endpoint ∧
      firstParam qs "region".toList defaultRegion = defaultRegion ∧
      firstParam qs "access_key".toList [] = info.accessKey.getD [] ∧
      firstParam qs "secret_key".toList [] = info.secretKey.getD [] := by
  have hself : unquotePlus info.endpoint = info.endpoint := by
    rw [unquotePlus_of_notMem fun h => absurd (isPlain_endpoint hhost _ h) (by decide),
      unquote_of_notMem fun h => absurd (isPlain_endpoint hhost _ h) (by decide)]
  have hquote : ∀ s, unquotePlus (quote safeChars s) = s :=
    unquotePlus_quote (by decide) (by decide)
  -- A credential that is empty is not written, and the default of the parameter is empty too.
  have hcredential : ∀ (name : Str) (s : Option Str),
      (credential name s).map (fun nv => (unquotePlus nv.1, unquotePlus nv.2)) =
        if truthy s then [(unquotePlus name, s.getD [])] else [] := by
    intro name s
    unfold credential
    split <;> simp [hquote]
  have hnames : unquotePlus "endpoint".toList = "endpoint".toList ∧
      unquotePlus "access_key".toList = "access_key".toList ∧
      unquotePlus "secret_key".toList = "secret_key".toList := by decide
  have htruthy : ∀ s : Option Str, truthy s = false → s.getD [] = [] := by
    intro s hs
    simpa [truthy] using hs
  have hparsed : parseQsl (joinPairs info.pairs) true = ("endpoint".toList, info.endpoint) ::
      ((if truthy info.accessKey then [("access_key".toList, info.accessKey.getD [])] else []) ++
        if truthy info.secretKey then [("secret_key".toList, info.secretKey.getD [])] else []) := by
    rw [parseQsl_joinPairs (separable_pairs hhost)]
    simp only [pairs, List.map_cons, List.map_append, hself, hcredential, hnames]
  dsimp only
  simp only [firstParam_parseQs, hparsed]
  cases haccess : truthy info.accessKey <;> cases hsecret : truthy info.secretKey <;>
    simp [List.lookup_cons, htruthy, haccess, hsecret]

/-- The characters of a bucket name can stand in a host, and are in lower case. -/
theorem bucketChar_spec {c : Char} (h : isBucketEnd c = true ∨ c = '.' ∨ c = '-') :
    isHostChar c = true ∧ c.toLower = c := by
  rcases h with h | rfl | rfl
  · exact of_ascii (P := fun c => isBucketEnd c = true → isHostChar c = true ∧ c.toLower = c)
      (by decide) (isSafe_lt (isBucketEnd_safe h)) h
  · exact ⟨rfl, rfl⟩
  · exact ⟨rfl, rfl⟩

theorem hostname_bucket {py : Python} (hpy : LowersAscii py) {u : SplitResult} {bucket : Str}
    (hbucket : rxBucket bucket = true) (hu : u.netloc = bucket) :
    unquote (orElse (u.hostname py) []) = bucket := by
  obtain ⟨hchars, hlen⟩ := rxBucket_spec hbucket
  have hhost : ∀ c ∈ bucket, isHostChar c = true := fun c hc => (bucketChar_spec (hchars c hc)).1
  have hne : bucket ≠ [] := by
    rintro rfl
    simp at hlen
  have hlower : py.lower bucket = bucket := by
    rw [hpy bucket fun c hc => isHostChar_lt (hhost c hc)]
    have hmap : bucket.map Char.toLower = bucket.map id :=
      List.map_congr_left fun c hc => (bucketChar_spec (hchars c hc)).2
    rw [hmap, List.map_id]
  have hself : orElse (some bucket) [] = bucket := by
    cases bucket with
    | nil => exact absurd rfl hne
    | cons c cs => rfl
  rw [hostname_of_hostinfo py hhost hne (hostinfo_host hhost hu), hlower, hself,
    unquote_of_notMem (notMem_host hhost (by decide))]

/-- The path gives the text back without the slashes in front. -/
theorem unquote_path (p : Str) : unquote (lstrip Ftp.isSlash (path p)) = lstrip Ftp.isSlash p := by
  have hslash : ∀ c, Ftp.isSlash c = true ↔ c = '/' := by simp [Ftp.isSlash]
  cases p with
  | nil => rfl
  | cons c cs =>
      have hcons : lstrip Ftp.isSlash (path (c :: cs)) =
          lstrip Ftp.isSlash (quote safeChars (lstrip Ftp.isSlash (c :: cs))) := rfl
      have htwice : lstrip Ftp.isSlash (lstrip Ftp.isSlash (c :: cs)) =
          lstrip Ftp.isSlash (c :: cs) := by
        exact List.dropWhile_idempotent _ _
      rw [hcons, lstrip_quote (by decide) (by decide) (by decide) (by decide) hslash, htwice,
        unquote_quote (by decide)]

/-- What `urlparse` makes of the URL. -/
theorem urlparse_url (py : Python) {info : S3Info} (hbucket : rxBucket info.bucket = true)
    (hhost : ∀ c ∈ info.host, isPlain c = true) (override : Option Str) :
    urlparse py (info.url override) = .ok ⟨"s3".toList, info.bucket,
      path (override.getD info.keyPrefix), joinPairs info.pairs, []⟩ := by
  have hnetloc : ∀ c ∈ info.bucket, NetlocChar c :=
    fun c hc => .of_isHostChar (bucketChar_spec ((rxBucket_spec hbucket).1 c hc)).1
  have hpath : Clean (path (override.getD info.keyPrefix)) := by
    unfold path
    split
    · simp [Clean]
    · exact Clean.cons (by decide) (quote_clean clean_safeChars _)
  have hhead : path (override.getD info.keyPrefix) = [] ∨
      (path (override.getD info.keyPrefix)).head? = some '/' := by
    unfold path
    split <;> simp
  have hquery := query_pairs hhost
  rw [url_eq_compose, urlparse_compose py (by decide) (by decide) hnetloc hpath hhead
    (by simpa using hquery) (.inl (by decide))]
  rfl

end S3Info

open S3Info

/-- **The URL of a connection is read back**: for every bucket name that `parse_url` accepts, every
port, prefix, and credentials that are not empty, `parse_url` gives the bucket, the endpoint and the
credentials as they were, and the prefix without slashes in front and with single slashes in it. The
loop that makes them single comes to its end for every text. -/
theorem parseUrl_url {py : Python} (hpy : LowersAscii py) {info : S3Info}
    (hbucket : rxBucket info.bucket = true) (hhost : ∀ c ∈ info.host, isPlain c = true)
    (haccess : info.accessKey ≠ some []) (hsecret : info.secretKey ≠ some [])
    (override : Option Str) :
    parseUrl py (info.url override) = .ok
        { bucket := info.bucket
          keyPrefix := squeeze (lstrip Ftp.isSlash (override.getD info.keyPrefix))
          endpoint := info.endpoint
          region := defaultRegion
          accessKey := info.accessKey
          secretKey := info.secretKey } ∧
      ∀ s, ∃ n, (∀ m < n, hasDouble (replaceDouble^[m] s) = true) ∧
        hasDouble (replaceDouble^[n] s) = false ∧ collapseSlashes s = replaceDouble^[n] s := by
  refine ⟨?_, collapseSlashes_iterate⟩
  have hne : info.bucket.isEmpty = false := by
    have hlen := (rxBucket_spec hbucket).2
    cases hb : info.bucket with
    | nil => simp [hb] at hlen
    | cons c cs => rfl
  -- `or None` makes no difference for credentials that are not empty.
  have hkey : ∀ s : Option Str, s ≠ some [] → orNone (s.getD []) = s := by
    intro s hs
    cases s with
    | none => rfl
    | some s =>
        cases s with
        | nil => exact absurd rfl hs
        | cons c cs => rfl
  obtain ⟨hendpoint, hregion, hak, hsk⟩ := firstParam_pairs hhost
  unfold parseUrl
  rw [urlparse_url py hbucket hhost override]
  dsimp only [Bind.bind, Except.bind]
  rw [if_neg (by simp), hostname_bucket hpy hbucket rfl, hne, hendpoint, hregion, hak, hsk,
    unquote_path, collapseSlashes_eq, hkey _ haccess, hkey _ hsecret]
  simp [hbucket, Pure.pure, Except.pure]

/-- A server at `127.0.0.1:5555`, with a credential that has all the delimiters of a query in it. -/
def sampleInfo : S3Info where
  host := "127.0.0.1".toList
  port := 5555
  bucket := "bucket".toList
  keyPrefix := "//a//b".toList
  accessKey := some "+&=%#".toList
  secretKey := none

theorem parseUrl_url_delimiters :
    parseUrl asciiPython (sampleInfo.url none) = .ok
      ⟨"bucket".toList, "a/b".toList, "http://127.0.0.1:5555".toList, defaultRegion,
        some "+&=%#".toList, none⟩ :=
  (@parseUrl_url asciiPython lowersAscii_ascii sampleInfo (by decide) (List.all_eq_true.mp (by decide))
    (by decide) (by decide) none).1

end S3

end GufoBlob
