import GufoBlob.OpenBlob
import GufoBlob.S3.Listing
import GufoBlob.Uri.Compose
import Mathlib.Data.Char
import Mathlib.Data.List.Lex
import Mathlib.Data.List.Sort
import Mathlib.Data.Prod.Lex

/-!
# The signature of an S3 request

`sign_request` of `common/s3.py`. It takes the URL of a request apart, decodes the path and the query
and encodes both again for the canonical request; `hashlib`, `hmac` and the clock are parameters.

The URLs are built by other calls of `quote`. `signed_as_sent` says that for each of them the canonical
path is the path of the URL and the canonical query holds the pairs of the URL, sorted. What the HTTP
client sends is the canonical form of the request too, unless it removes dot segments from the path.
-/

namespace GufoBlob

open Text Uri

namespace S3

/-- What `sign_request` takes from `hashlib` and `hmac`. -/
structure Crypto where
  /-- `hashlib.sha256(b).digest()`. -/
  sha256 : Bytes → Bytes
  /-- `hmac.new(key, msg, hashlib.sha256).digest()`. -/
  hmac : Bytes → Bytes → Bytes

/-- The clock, in the two formats. -/
structure Timestamp where
  amzDate : Str
  date : Str

/-- The third argument of the calls of `quote` for the query. -/
def querySafe : List Char := "-_.~".toList

/-- `hexdigest()`. -/
def hex (b : Bytes) : Str :=
  b.flatMap fun x => [(hexDigit (x.toNat / 16)).toLower, (hexDigit (x.toNat % 16)).toLower]

/-- `sorted(pairs)`. -/
def sortPairs (pairs : List (Str × Str)) : List (Str × Str) :=
  ((pairs.map toLex).insertionSort (· ≤ ·)).map ofLex

/-- `method.upper()`. -/
def Method.upper : Method → Str
  | .get => "GET".toList
  | .put => "PUT".toList
  | .head => "HEAD".toList
  | .delete => "DELETE".toList

/-- `canonical_uri`. -/
def canonicalUri (parsed : SplitResult) : Str :=
  quote S3Blob.keySafe (unquote (if parsed.path.isEmpty then ['/'] else parsed.path))

/-- `query_items`. -/
def queryItems (parsed : SplitResult) : List (Str × Str) :=
  sortPairs ((parseQsl parsed.query true).map fun kv => (quote querySafe kv.1, quote querySafe kv.2))

/-- `canonical_query`. -/
def canonicalQuery (parsed : SplitResult) : Str := joinPairs (queryItems parsed)

/-- `headers`. -/
def signedHeaders (py : Python) (now : Timestamp) (parsed : SplitResult) (payloadHash : Str) :
    List (Str × Str) :=
  [("host".toList, py.lower parsed.netloc), ("x-amz-content-sha256".toList, payloadHash),
    ("x-amz-date".toList, now.amzDate)]

/-- `";".join(sorted(headers))`. -/
def headerNames (headers : List (Str × Str)) : Str :=
  [';'].intercalate ((headers.map Prod.fst).insertionSort (· ≤ ·))

/-- `canonical_request`. -/
def canonicalRequest (py : Python) (now : Timestamp) (method : Method) (parsed : SplitResult)
    (payloadHash : Str) : Str :=
  let headers := signedHeaders py now parsed payloadHash
  let canonicalHeaders := (sortPairs headers).flatMap fun kv => kv.1 ++ ':' :: (kv.2 ++ ['\n'])
  ['\n'].intercalate
    [method.upper, canonicalUri parsed, canonicalQuery parsed, canonicalHeaders,
      headerNames headers, payloadHash]

/-- `signing_key`. -/
def signingKey (crypto : Crypto) (now : Timestamp) (secretKey region : Str) : Bytes :=
  let hmac key value := crypto.hmac key (encode value)
  hmac (hmac (hmac (hmac (encode ("AWS4".toList ++ secretKey)) now.date) region) "s3".toList)
    "aws4_request".toList

/-- The headers for a parsed URL. -/
def authorize (py : Python) (crypto : Crypto) (now : Timestamp) (method : Method)
    (parsed : SplitResult) (body : Bytes) (region accessKey secretKey : Str) : Headers :=
  let payloadHash := hex (crypto.sha256 body)
  let canonical := canonicalRequest py now method parsed payloadHash
  let names := headerNames (signedHeaders py now parsed payloadHash)
  let scope := now.date ++ '/' :: (region ++ "/s3/aws4_request".toList)
  let stringToSign := ['\n'].intercalate
    ["AWS4-HMAC-SHA256".toList, now.amzDate, scope, hex (crypto.sha256 (encode canonical))]
  let signature := hex (crypto.hmac (signingKey crypto now secretKey region) (encode stringToSign))
  let authorization := "AWS4-HMAC-SHA256 Credential=".toList ++ accessKey ++ '/' :: (scope ++
    ", SignedHeaders=".toList ++ names ++ ", Signature=".toList ++ signature)
  [("x-amz-content-sha256", encode payloadHash), ("x-amz-date", encode now.amzDate),
    ("authorization", encode authorization)]

/-- `sign_request`. -/
def signRequest (py : Python) (crypto : Crypto) (now : Timestamp) (method : Method) (url : Str)
    (body : Bytes) (region : Str) (credentials : Option Str × Option Str) : Except PyExc Headers :=
  let (accessKey, secretKey) := credentials
  if !S3Blob.truthy accessKey || !S3Blob.truthy secretKey then
    .ok []
  else do
    let parsed ← urlsplit py url
    return authorize py crypto now method parsed body region (accessKey.getD []) (secretKey.getD [])

/-! ## Sorting -/

theorem perm_sortPairs (pairs : List (Str × Str)) : (sortPairs pairs).Perm pairs := by
  have hback : (pairs.map toLex).map ofLex = pairs := by simp [Function.comp_def]
  have hperm := (List.perm_insertionSort (· ≤ ·) (pairs.map toLex)).map ofLex
  rwa [hback] at hperm

/-- By name, then by value. -/
def Ordered (pairs : List (Str × Str)) : Prop :=
  pairs.Pairwise fun a b => a.1 < b.1 ∨ a.1 = b.1 ∧ a.2 ≤ b.2

theorem ordered_sortPairs (pairs : List (Str × Str)) : Ordered (sortPairs pairs) := by
  unfold Ordered sortPairs
  rw [List.pairwise_map]
  apply (List.pairwise_insertionSort (· ≤ ·) (pairs.map toLex)).imp
  intro a b hab
  exact Prod.Lex.le_iff.mp hab

theorem pair_antisymm {a b : Str × Str} (hab : a.1 < b.1 ∨ a.1 = b.1 ∧ a.2 ≤ b.2)
    (hba : b.1 < a.1 ∨ b.1 = a.1 ∧ b.2 ≤ a.2) : a = b := by
  rcases hab with hlt | ⟨hname, hvalue⟩
  · rcases hba with hgt | ⟨hname, -⟩
    · exact absurd hgt (lt_asymm hlt)
    · exact absurd hlt (hname ▸ lt_irrefl _)
  · rcases hba with hgt | ⟨-, hvalue'⟩
    · exact absurd hgt (hname ▸ lt_irrefl _)
    · exact Prod.ext hname (le_antisymm hvalue hvalue')

/-- There is one way to put pairs in order. -/
theorem Ordered.eq_sortPairs {l pairs : List (Str × Str)} (hl : Ordered l) (hperm : l.Perm pairs) :
    l = sortPairs pairs :=
  List.Perm.eq_of_pairwise (fun _ _ _ _ => pair_antisymm) hl (ordered_sortPairs pairs)
    (hperm.trans (perm_sortPairs pairs).symm)

/-! ## The request on the wire -/

/-- The canonical path is the path in the text of the URL, and the canonical query holds the pairs in
it, sorted. -/
def SignedAsSent (py : Python) (url : Str) : Prop :=
  ∃ parsed pairs, urlsplit py url = .ok parsed ∧ canonicalUri parsed = urlPath url ∧
    Separable pairs ∧ urlQuery url = joinPairs pairs ∧ (queryItems parsed).Perm pairs ∧
    Ordered (queryItems parsed)

/-- The canonical form of a request with this path, these pairs in the query and these headers. -/
def canonicalForm (method : Method) (path : Str) (pairs headers : List (Str × Str))
    (payloadHash : Str) : Str :=
  ['\n'].intercalate
    [method.upper, path, joinPairs (sortPairs pairs),
      (sortPairs headers).flatMap (fun kv => kv.1 ++ ':' :: (kv.2 ++ ['\n'])), headerNames headers,
      payloadHash]

/-- With credentials, what is signed for the URL is the canonical form of the request on the wire. -/
def SignsWireForm (py : Python) (url : Str) : Prop :=
  ∀ (crypto : Crypto) (now : Timestamp) (method : Method) (body : Bytes)
    (region accessKey secretKey : Str), accessKey ≠ [] → secretKey ≠ [] →
    ∃ parsed pairs, urlsplit py url = .ok parsed ∧ Separable pairs ∧ urlQuery url = joinPairs pairs ∧
      signRequest py crypto now method url body region (some accessKey, some secretKey) =
        .ok (authorize py crypto now method parsed body region accessKey secretKey) ∧
      ∀ payloadHash, canonicalRequest py now method parsed payloadHash =
        canonicalForm method (S3Blob.wirePath url) pairs (signedHeaders py now parsed payloadHash)
          payloadHash

/-- It is, where the HTTP client leaves the path as it is. -/
theorem SignedAsSent.signsWireForm {py : Python} {url : Str} (h : SignedAsSent py url)
    (hwire : S3Blob.wirePath url = urlPath url) : SignsWireForm py url := by
  obtain ⟨parsed, pairs, hsplit, hpath, hpairs, hquery, hperm, hordered⟩ := h
  intro crypto now method body region accessKey secretKey haccess hsecret
  refine ⟨parsed, pairs, hsplit, hpairs, hquery, ?_, fun payloadHash => ?_⟩
  · unfold signRequest
    rw [hsplit]
    simp [S3Blob.truthy, haccess, hsecret, Bind.bind, Except.bind, Pure.pure, Except.pure]
  · unfold canonicalRequest canonicalQuery canonicalForm
    rw [hpath, hordered.eq_sortPairs hperm, hwire]

/-- An endpoint that `urlsplit` takes apart: the scheme is one, and the authority passes its
checks. -/
structure Splittable (py : Python) (o : Origin) : Prop where
  scheme : isScheme o.scheme = true
  netloc : checkNetloc py (o.authority.filter fun c => !isUnsafe c) = .ok ()

/-- The pairs of a query, quoted. -/
def quotePairs (pairs : List (Str × Str)) : List (Str × Str) :=
  pairs.map fun nv => (quote [] nv.1, quote [] nv.2)

theorem notMem_quote_separator {c : Char} (hc : c = '&' ∨ c = '=' ∨ c = '#') (s : Str) :
    c ∉ quote [] s := by
  rcases hc with rfl | rfl | rfl <;> exact S3Blob.notMem_quote_nil (by decide) rfl

theorem separable_quotePairs (pairs : List (Str × Str)) : Separable (quotePairs pairs) := by
  intro nv hnv
  obtain ⟨nv, -, rfl⟩ := List.mem_map.mp hnv
  exact ⟨notMem_quote_separator (by simp) _, notMem_quote_separator (by simp) _,
    notMem_quote_separator (by simp) _⟩

/-- `parse_qsl` undoes the quoting. -/
theorem parseQsl_quotePairs (pairs : List (Str × Str)) :
    parseQsl (joinPairs (quotePairs pairs)) true = pairs := by
  have hplus : ∀ s, unquotePlus (quote [] s) = s := unquotePlus_quote (by simp) (by simp)
  rw [parseQsl_joinPairs (separable_quotePairs pairs)]
  unfold quotePairs
  rw [List.map_map]
  simp [Function.comp_def, hplus]

/-- The characters that the two calls leave alone are the same. -/
theorem quote_querySafe (s : Str) : quote querySafe s = quote [] s := by
  have hsafe : isSafe querySafe = isSafe [] := by
    funext c
    have hmem : querySafe.contains c = true → unreserved c = true := by
      intro h
      have hc : c = '-' ∨ c = '_' ∨ c = '.' ∨ c = '~' := by simpa [querySafe] using h
      rcases hc with rfl | rfl | rfl | rfl <;> rfl
    unfold isSafe
    cases hun : unreserved c <;> cases hq : querySafe.contains c <;> simp_all
  unfold quote quoteByte
  rw [hsafe]

theorem endsPath_clean {s : Str} (hs : Clean s) : ∀ c ∈ s, endsPath c = false :=
  fun c hc => (hs c hc).1

theorem clean_joinPairs (pairs : List (Str × Str)) : Clean (joinPairs (quotePairs pairs)) := by
  have hquote : ∀ s, Clean (quote [] s) := quote_clean (by simp [Clean])
  refine forall_mem_joinPairs (P := fun c => endsPath c = false ∧ isUnsafe c = false) (by decide)
    (by decide) fun nv hnv => ?_
  obtain ⟨nv, -, rfl⟩ := List.mem_map.mp hnv
  exact ⟨hquote _, hquote _⟩

section Wire

variable {py : Python} {o : Origin}

/-- A URL with a quoted path and, if there is a query, quoted pairs in it. -/
def wireUrl (o : Origin) (path : Str) (pairs : Option (List (Str × Str))) : Str :=
  o.url ++ '/' :: (quote S3Blob.keySafe path ++
    (pairs.map fun ps => joinPairs (quotePairs ps)).elim [] ('?' :: ·))

theorem clean_keySafe : Clean S3Blob.keySafe := by
  have hall : S3Blob.keySafe.all (fun c => !endsPath c && !isUnsafe c) = true := by decide
  intro c hc
  simpa using List.all_eq_true.mp hall c hc

/-- What `urlsplit` makes of it. -/
theorem urlsplit_wireUrl (ho : Splittable py o) (path : Str) (pairs : Option (List (Str × Str))) :
    urlsplit py (wireUrl o path pairs) =
      .ok ⟨o.scheme.map Char.toLower, o.authority.filter fun c => !isUnsafe c,
        '/' :: quote S3Blob.keySafe path, (pairs.map fun ps => joinPairs (quotePairs ps)).getD [],
        []⟩ := by
  have hurl : wireUrl o path pairs = compose o.scheme o.authority
      ('/' :: quote S3Blob.keySafe path) (pairs.map fun ps => joinPairs (quotePairs ps)) := by
    simp [wireUrl, compose, Origin.url]
  rw [hurl]
  apply urlsplit_compose ho.scheme o.authority_ok ho.netloc
    (Clean.cons (by decide) (quote_clean clean_keySafe path)) (.inr rfl)
  intro q hq
  obtain ⟨ps, -, rfl⟩ := Option.mem_map.mp hq
  refine ⟨fun h => ?_, fun c hc => (clean_joinPairs ps c hc).2⟩
  exact absurd (clean_joinPairs ps _ h).1 (by decide)

theorem urlPath_wireUrl (path : Str) (pairs : Option (List (Str × Str))) :
    urlPath (wireUrl o path pairs) = '/' :: quote S3Blob.keySafe path := by
  apply urlPath_origin o
  · exact endsPath_clean (quote_clean clean_keySafe path)
  · intro c hc
    cases pairs with
    | none => simp at hc
    | some ps =>
        obtain rfl : '?' = c := by simpa using hc
        rfl

theorem urlQuery_wireUrl (path : Str) (pairs : Option (List (Str × Str))) :
    urlQuery (wireUrl o path pairs) = joinPairs (quotePairs (pairs.getD [])) := by
  have hpath := endsPath_clean (quote_clean clean_keySafe path)
  cases pairs with
  | none =>
      unfold wireUrl
      rw [Option.map_none, Option.elim_none, List.append_nil, urlQuery_none o hpath]
      rfl
  | some ps =>
      apply urlQuery_origin o hpath
      exact fun h => absurd (clean_joinPairs ps _ h).1 (by decide)

/-- Decoding and encoding again gives the path and the pairs as they were. -/
theorem signedAsSent_wireUrl (ho : Splittable py o) (path : Str)
    (pairs : Option (List (Str × Str))) : SignedAsSent py (wireUrl o path pairs) := by
  have hslash : '/' :: quote S3Blob.keySafe path = quote S3Blob.keySafe ('/' :: path) :=
    (quote_cons_of_safe (by decide) path).symm
  have huri : quote S3Blob.keySafe (unquote ('/' :: quote S3Blob.keySafe path)) =
      '/' :: quote S3Blob.keySafe path := by
    rw [hslash, unquote_quote (by decide)]
  have hquery : (parseQsl ((pairs.map fun ps => joinPairs (quotePairs ps)).getD []) true).map
      (fun kv => (quote querySafe kv.1, quote querySafe kv.2)) = quotePairs (pairs.getD []) := by
    have hjoin : (pairs.map fun ps => joinPairs (quotePairs ps)).getD [] =
        joinPairs (quotePairs (pairs.getD [])) := by
      cases pairs <;> rfl
    rw [hjoin, parseQsl_quotePairs]
    simp [quotePairs, quote_querySafe]
  refine ⟨_, quotePairs (pairs.getD []), urlsplit_wireUrl ho path pairs, ?_,
    separable_quotePairs _, urlQuery_wireUrl path pairs, ?_, ordered_sortPairs _⟩
  · rw [urlPath_wireUrl]
    exact huri
  · unfold queryItems
    rw [hquery]
    exact perm_sortPairs _

/-- The HTTP client leaves a path without dot segments as it is. -/
theorem wirePath_wireUrl {path : Str} (hpath : NoDotSegment path)
    (pairs : Option (List (Str × Str))) :
    S3Blob.wirePath (wireUrl o path pairs) = urlPath (wireUrl o path pairs) := by
  rw [S3Blob.wirePath, urlPath_wireUrl, removeDotSegments, undotted_quote (by decide) rfl,
    (undotted_eq_self_iff path).mpr hpath]

end Wire

end S3

namespace S3Blob

open S3

variable {b : S3Blob} {o : Origin}

theorem endpointHost_eq_wireUrl (hend : b.endpoint = o.url)
    (hbucket : quote keySafe (unquote b.bucket) = b.bucket) (key : Str) :
    b.endpointHost key = wireUrl o (unquote b.bucket ++ '/' :: b.joinedKey key) none := by
  rw [endpointHost, hend, rstripSlash_origin, fullKey_eq_joinedKey]
  have hslash : ∀ s, quote keySafe ('/' :: s) = '/' :: quote keySafe s :=
    quote_cons_of_safe (by decide)
  simp [wireUrl, quote_append, hbucket, hslash]

/-- The query of a page is put together from quoted pairs. -/
theorem listQuery_eq_joinPairs (full : Str) (token : Option Str) :
    listQuery full token = joinPairs (quotePairs
      ([(listType, ['2']), (prefixName, full)] ++ (token.map fun t => (tokenName, t)).toList)) := by
  have hjoin : ['&'].intercalate ((listQuery full token).splitOn '&') = listQuery full token :=
    List.intercalate_splitOn '&'
  have htype : quote [] listType = listType := by decide
  have hpre : quote [] prefixName = prefixName := by decide
  have htoken : quote [] tokenName = tokenName := by decide
  rw [← hjoin, splitOn_listQuery]
  cases token <;> simp [joinPairs, quotePairs, htype, hpre, htoken]

theorem listUrl_eq_wireUrl (hend : b.endpoint = o.url)
    (hbucket : quote keySafe (unquote b.bucket) = b.bucket) (pre : Str) :
    b.listUrl pre = wireUrl o (unquote b.bucket)
      (some ([(listType, ['2']), (prefixName, b.fullPrefix pre)])) := by
  rw [listUrl_eq hend, listQuery_eq_joinPairs]
  simp [wireUrl, hbucket]

theorem nextUrl_eq_wireUrl (hend : b.endpoint = o.url)
    (hbucket : quote keySafe (unquote b.bucket) = b.bucket) (pre token : Str) :
    b.nextUrl pre token = wireUrl o (unquote b.bucket)
      (some ([(listType, ['2']), (prefixName, b.fullPrefix pre), (tokenName, token)])) := by
  rw [nextUrl_eq hend, listQuery_eq_joinPairs]
  simp [wireUrl, hbucket]

/-- The names of buckets need no quoting. -/
theorem quote_unquote_bucket {name : Str} (h : rxBucket name = true) :
    quote keySafe (unquote name) = name := by
  have hplain := (rxBucket_plain h).1
  have hpercent : '%' ∉ name := fun hmem => absurd (hplain _ hmem) (by decide)
  rw [unquote_of_notMem hpercent, quote_of_safe hplain]

theorem splittable_amazon : Splittable asciiPython amazon where
  scheme := by decide
  netloc := by
    have hall : amazon.authority.all (fun c => decide (c.toNat < 128 ∧ c ≠ '[' ∧ c ≠ ']')) = true := by
      decide +kernel
    apply checkNetloc_ascii
    intro c hc
    simpa using List.all_eq_true.mp hall c (List.mem_of_mem_filter hc)

end S3Blob

end GufoBlob
