import GufoBlob.S3.Blob
import GufoBlob.Uri.Path

/-!
# What an S3 request addresses

The resource behind a request URL is its path, after the HTTP client has removed the dot segments
and the server has percent-decoded the rest (`target`). `target_endpointHost` computes it for the
URLs of `put`, `get`, `exists` and `delete`: quoting is undone, but `.` and `..` are never quoted,
so the segments of a key survive only when none of them is a dot segment.

`isolated_iff` is the resulting condition for an operation to stay at its own object. The URLs of
different keys are different in any case, and percent-decode to the joined key
(`endpointHost_lossless`).
-/

namespace GufoBlob

open Text Interaction Uri S3

namespace S3Blob

/-- The key in the bucket: the prefix in front, joined by a slash unless it ends in one; the prefix
itself for the empty key. -/
def joinedKey (b : S3Blob) (key : Str) : Str :=
  if b.keyPrefix = [] then key
  else if key = [] then b.keyPrefix
  else if b.keyPrefix.getLast? = some '/' then b.keyPrefix ++ key
  else b.keyPrefix ++ '/' :: key

theorem fullKey_eq_joinedKey (b : S3Blob) (key : Str) : b.fullKey key = b.joinedKey key := by
  unfold fullKey joinedKey endsWithSlash
  grind

/-- The path of the request that the HTTP client sends for `url`. -/
def wirePath (url : Str) : Str := removeDotSegments (urlPath url)

/-- The path of the resource that a request for `url` addresses. -/
def target (url : Str) : Bytes := percentDecode (wirePath url)

/-- The request goes to the object under the joined key, which is not empty. -/
def Isolated (b : S3Blob) (key url : Str) : Prop :=
  b.joinedKey key ≠ [] ∧ target url = encode ('/' :: (b.bucket ++ '/' :: b.joinedKey key))

/-- Every request that is sent satisfies `P`. -/
def SendsTo (P : Str → Prop) : HttpOp → Prop
  | .send _ url _ _ => P url
  | _ => True

/-! ## The URL of an object -/

theorem rstripSlash_origin (o : Origin) : rstripSlash o.url = o.url := by
  have hne : o.url ≠ [] := by simp [Origin.url]
  have hlast : o.url.getLast hne ∈ o.authority := by
    have hsplit : o.url = (o.scheme ++ [':', '/', '/']) ++ o.authority := by simp [Origin.url]
    simp only [hsplit, List.getLast_append_of_ne_nil _ o.authority_ne]
    exact List.getLast_mem o.authority_ne
  have hslash : o.url.getLast hne ≠ '/' := by
    intro h
    have hok := o.authority_ok _ hlast
    rw [h] at hok
    exact absurd hok (by decide)
  have hrev : o.url.reverse = o.url.getLast hne :: o.url.dropLast.reverse := by
    conv_lhs => rw [← List.dropLast_append_getLast hne, List.reverse_append]
    rfl
  rw [rstripSlash, hrev, List.dropWhile_cons_of_neg (by simpa using hslash), ← hrev,
    List.reverse_reverse]

theorem isBucketEnd_safe {c : Char} (h : isBucketEnd c = true) : isSafe keySafe c = true := by
  have halnum : c.isAlphanum = true := by
    show (c.isUpper || c.isLower || c.isDigit) = true
    simp only [isBucketEnd, Bool.or_eq_true] at h ⊢
    tauto
  have hlt : c.toNat < 128 := by
    have hrange : (97 ≤ c.val ∧ c.val ≤ 122) ∨ (48 ≤ c.val ∧ c.val ≤ 57) := by
      have hlower : c.isLower = (decide (97 ≤ c.val) && decide (c.val ≤ 122)) := rfl
      have hdigit : c.isDigit = (decide (48 ≤ c.val) && decide (c.val ≤ 57)) := rfl
      simpa [isBucketEnd, hlower, hdigit] using h
    have hc : c.toNat = c.val.toNat := rfl
    rcases hrange with ⟨-, hle⟩ | ⟨-, hle⟩ <;>
      · rw [UInt32.le_iff_toNat_le] at hle
        simp at hle
        omega
  simp [isSafe, unreserved, halnum, hlt]

/-- The characters and the length of a bucket name. -/
theorem rxBucket_spec {name : Str} (h : rxBucket name = true) :
    (∀ c ∈ name, isBucketEnd c = true ∨ c = '.' ∨ c = '-') ∧ 3 ≤ name.length := by
  match name with
  | [] => cases h
  | c :: cs =>
      simp only [rxBucket] at h
      split at h
      · cases h
      · next l mid heq =>
          simp only [Bool.and_eq_true, decide_eq_true_eq, List.all_eq_true, Bool.or_eq_true] at h
          obtain ⟨⟨⟨hc, hl⟩, hlen⟩, hmid⟩ := h
          obtain rfl : cs = mid.reverse ++ [l] := by
            rw [← List.reverse_reverse cs, heq, List.reverse_cons]
          refine ⟨fun d hd => ?_, by simp; omega⟩
          rcases List.mem_cons.mp hd with rfl | hd
          · exact .inl hc
          · rcases List.mem_append.mp hd with hd | hd
            · have hd := hmid d (List.mem_reverse.mp hd)
              tauto
            · obtain rfl := List.mem_singleton.mp hd
              exact .inl hl

/-- A bucket name is quoted as itself, is a single segment and no dot segment. -/
theorem rxBucket_plain {name : Str} (h : rxBucket name = true) :
    (∀ c ∈ name, isSafe keySafe c = true) ∧ '/' ∉ name ∧ isDotSegment name = false := by
  obtain ⟨hchars, hlen⟩ := rxBucket_spec h
  refine ⟨fun c hc => ?_, fun hslash => ?_, ?_⟩
  · rcases hchars c hc with h | rfl | rfl
    · exact isBucketEnd_safe h
    · rfl
    · rfl
  · rcases hchars _ hslash with h | h | h <;> exact absurd h (by decide)
  · cases hdot : isDotSegment name with
    | false => rfl
    | true =>
        simp only [isDotSegment, Bool.or_eq_true, decide_eq_true_eq] at hdot
        rcases hdot with rfl | rfl <;> simp at hlen

theorem noDotSegment_bucket {name : Str} (h : rxBucket name = true) : NoDotSegment name := by
  obtain ⟨-, hslash, hdot⟩ := rxBucket_plain h
  unfold NoDotSegment
  rw [List.splitOn_eq_singleton hslash, List.forall_mem_singleton]
  exact hdot

/-- The path of the URL of an object. -/
theorem urlPath_endpointHost {b : S3Blob} {o : Origin} (hend : b.endpoint = o.url)
    (hb : rxBucket b.bucket = true) (key : Str) :
    urlPath (b.endpointHost key) = '/' :: quote keySafe (b.bucket ++ '/' :: b.fullKey key) := by
  have hquote : b.bucket ++ '/' :: quote keySafe (b.fullKey key) =
      quote keySafe (b.bucket ++ '/' :: b.fullKey key) := by
    rw [quote_append, quote_cons_of_safe rfl, quote_of_safe (rxBucket_plain hb).1]
  have hnone : ∀ c ∈ quote keySafe (b.bucket ++ '/' :: b.fullKey key), endsPath c = false := by
    intro c hc
    cases hends : endsPath c with
    | false => rfl
    | true =>
        simp only [endsPath, Bool.or_eq_true, decide_eq_true_eq] at hends
        rcases hends with rfl | rfl
        · exact absurd hc (notMem_quote (by decide) rfl)
        · exact absurd hc (notMem_quote (by decide) rfl)
  have h := urlPath_origin o _ [] hnone (by simp)
  rw [List.append_nil] at h
  rw [endpointHost, hend, rstripSlash_origin, hquote, h]

/-- What the URL of an object addresses. -/
theorem target_endpointHost {b : S3Blob} {o : Origin} (hend : b.endpoint = o.url)
    (hb : rxBucket b.bucket = true) (key : Str) :
    target (b.endpointHost key) =
      encode ('/' :: undotted (b.bucket ++ '/' :: b.joinedKey key)) := by
  have hsafe : '%' ∉ keySafe := by decide
  rw [target, wirePath, urlPath_endpointHost hend hb, fullKey_eq_joinedKey, removeDotSegments,
    undotted_quote hsafe rfl, percentDecode_cons (by decide), percentDecode_quote hsafe]
  rfl

/-- A request for an object stays at that object exactly when the joined key is not empty and has
no dot segment. -/
theorem isolated_endpointHost_iff {b : S3Blob} {o : Origin} (hend : b.endpoint = o.url)
    (hb : rxBucket b.bucket = true) (key : Str) :
    b.Isolated key (b.endpointHost key) ↔
      b.joinedKey key ≠ [] ∧ ∀ seg ∈ (b.joinedKey key).splitOn '/', isDotSegment seg = false := by
  rw [Isolated, target_endpointHost hend hb]
  refine and_congr_right fun _ => ?_
  rw [encode_injective.eq_iff, List.cons_inj_right, undotted_eq_self_iff]
  exact (noDotSegment_append_slash_iff _ _).trans (and_iff_right (noDotSegment_bucket hb))

/-! ## The requests of the operations -/

section Operations

variable {expat : Expat} {b : S3Blob} {P : Str → Prop}

theorem uses_requestFailed {α : Type} (r : Except String α) :
    (requestFailed r).Uses (SendsTo P) := by
  cases r <;> trivial

theorem uses_request_iff (method : Method) (url : Str) (body : Bytes) :
    (b.request method url body).Uses (SendsTo P) ↔ P url := by
  constructor
  · intro h
    exact (h.2 (.ok [])).1
  · intro hurl
    refine Program.uses_bind ⟨trivial, fun r => uses_requestFailed r⟩ fun headers => ?_
    exact ⟨hurl, fun r => uses_requestFailed r⟩

/-- An operation that starts with a request for `url` and sends nothing anywhere else. -/
theorem uses_withClient_iff {α : Type} {method : Method} {url : Str} {body : Bytes}
    {f : Response → S3Prog α} (hf : P url → ∀ resp, (f resp).Uses (SendsTo P)) :
    (withClient ((b.request method url body).bind f)).Uses (SendsTo P) ↔ P url := by
  constructor
  · intro h
    exact (uses_request_iff method url body).mp
      (Program.uses_of_bind (Program.uses_of_tryFinally (h.2 ())))
  · intro hurl
    refine ⟨trivial, fun _ => Program.uses_tryFinally ?_ ⟨trivial, fun _ => trivial⟩⟩
    exact Program.uses_bind ((uses_request_iff method url body).mpr hurl) (hf hurl)

/-- The four operations on a single object. -/
def objectCalls (key : Str) (data : Bytes) : List Call :=
  [.put key data, .get key, .exists' key, .delete key]

/-- The two classes. -/
def backends (expat : Expat) (b : S3Blob) (fuel : Nat) : List (BlobBase http Unit) :=
  [Sync.S3Blob.backend expat b fuel, Aio.S3Blob.backend expat b fuel]

theorem uses_map_iff {α β : Type} {p : S3Prog α} (f : α → β) :
    (p.bind fun a => .pure (f a)).Uses (SendsTo P) ↔ p.Uses (SendsTo P) :=
  ⟨Program.uses_of_bind, fun h => Program.uses_bind h fun _ => trivial⟩

/-- Every request of an operation on an object goes to the URL of that object, and there is one. -/
theorem uses_objectCall_iff {fuel : Nat} {be : BlobBase http Unit} (hbe : be ∈ backends expat b fuel)
    {key : Str} {data : Bytes} {c : Call} (hc : c ∈ objectCalls key data) :
    (be.perform c).Uses (SendsTo P) ↔ P (b.endpointHost key) := by
  have hshared : be.put = b.put expat ∧ be.get = b.get expat ∧ be.exists' = b.exists' expat ∧
      be.delete = b.delete expat := by
    rcases List.mem_pair.mp hbe with rfl | rfl <;> exact ⟨rfl, rfl, rfl, rfl⟩
  obtain ⟨hput, hget, hexists, hdelete⟩ := hshared
  simp only [objectCalls, List.mem_cons, List.not_mem_nil, or_false] at hc
  rcases hc with rfl | rfl | rfl | rfl
  · rw [BlobBase.perform, hput, uses_map_iff]
    exact uses_withClient_iff fun _ resp => Program.uses_ofExcept (putResult expat resp)
  · rw [BlobBase.perform, hget, uses_map_iff]
    exact uses_withClient_iff fun _ resp => Program.uses_ofExcept (getResult expat key resp)
  · rw [BlobBase.perform, hexists, uses_map_iff]
    exact uses_withClient_iff fun _ resp => Program.uses_ofExcept (existsResult expat resp)
  · rw [BlobBase.perform, hdelete, uses_map_iff]
    refine uses_withClient_iff fun hurl resp => ?_
    split
    · trivial
    · split
      · trivial
      · -- the second request of `delete` goes to the same URL
        refine Program.uses_bind ((uses_request_iff .delete _ []).mpr hurl) fun resp => ?_
        split <;> trivial

end Operations

/-- All requests of an operation on an object stay at that object, in either class, exactly when the
joined key is not empty and none of its segments is `.` or `..`. -/
theorem isolated_iff (expat : Expat) {b : S3Blob} {o : Origin} (hend : b.endpoint = o.url)
    (hb : rxBucket b.bucket = true) (key : Str) (data : Bytes) {fuel : Nat}
    {be : BlobBase http Unit} (hbe : be ∈ backends expat b fuel) {c : Call}
    (hc : c ∈ objectCalls key data) :
    (be.perform c).Uses (SendsTo (b.Isolated key)) ↔
      b.joinedKey key ≠ [] ∧ ∀ seg ∈ (b.joinedKey key).splitOn '/', isDotSegment seg = false :=
  (uses_objectCall_iff hbe hc).trans (isolated_endpointHost_iff hend hb key)

/-- `https://s3.amazonaws.com`. -/
def amazon : Origin where
  scheme := "https".toList
  host := "s3.amazonaws.com".toList
  port := none
  scheme_ok := by decide +kernel
  host_ne := by decide +kernel
  host_ok := by
    have h : ("s3.amazonaws.com".toList.all fun c => !endsAuthority c) = true := by decide +kernel
    intro c hc
    simpa using List.all_eq_true.mp h c hc

/-- A blob with the bucket `abc` and the default endpoint. -/
def inBucket (keyPrefix : Str) : S3Blob :=
  ⟨"abc".toList, keyPrefix, defaultEndpoint, "us-east-1".toList, none, none⟩

/-- The synchronous blob below the prefix `p` of that bucket. -/
def belowP : BlobBase http Unit := Sync.S3Blob.backend (fun _ => .ok []) (inBucket ['p']) 0

theorem belowP_mem : belowP ∈ backends (fun _ => .ok []) (inBucket ['p']) 0 := .head _

theorem isolated_iff_nested : (belowP.perform (.delete "a/b".toList)).Uses
    (SendsTo ((inBucket ['p']).Isolated "a/b".toList)) := by
  have hcall : Call.delete "a/b".toList ∈ objectCalls "a/b".toList [] := by simp [objectCalls]
  have h := isolated_iff (fun _ => .ok []) (b := inBucket ['p']) (o := amazon) rfl (by decide)
    "a/b".toList [] belowP_mem hcall
  exact h.mpr (by decide)

/-- Below the prefix `p`, the requests of `delete("..")` do not stay at one object: their URL
addresses the bucket. -/
theorem not_isolated_dots :
    target ((inBucket ['p']).endpointHost "..".toList) = encode "/abc/".toList ∧
      ¬ (belowP.perform (.delete "..".toList)).Uses
        (SendsTo ((inBucket ['p']).Isolated "..".toList)) := by
  have htarget : target ((inBucket ['p']).endpointHost "..".toList) = encode "/abc/".toList := by
    decide +kernel
  have hcall : Call.delete "..".toList ∈ objectCalls "..".toList [] := by simp [objectCalls]
  refine ⟨htarget, fun h => ?_⟩
  have hisolated := (uses_objectCall_iff belowP_mem hcall).mp h
  rw [Isolated, htarget] at hisolated
  exact absurd (encode_injective hisolated.2) (by decide)

/-! ## The URL of a key -/

/-- Different keys are joined to different ones. -/
theorem joinedKey_injective (b : S3Blob) : Function.Injective b.joinedKey := by
  intro key key' h
  by_cases hnone : b.keyPrefix = []
  · simpa [joinedKey, hnone] using h
  · -- what is put behind the prefix is empty for the empty key only
    have htail : ∀ key, b.joinedKey key = b.keyPrefix ++ (if key = [] then []
        else if b.keyPrefix.getLast? = some '/' then key else '/' :: key) := by
      intro key
      unfold joinedKey
      rw [if_neg hnone]
      split_ifs <;> simp
    rw [htail, htail, List.append_cancel_left_eq] at h
    grind

/-- **The URL of an object has its key without loss**: for every bucket, every endpoint
`scheme://host[:port]` and every prefix, different keys have different URLs, and what follows
`endpoint/bucket/` has no `?` and no `#` and percent-decodes to the joined key. -/
theorem endpointHost_lossless {b : S3Blob} {o : Origin} (hend : b.endpoint = o.url) :
    Function.Injective b.endpointHost ∧ ∀ key, ∃ rest,
      b.endpointHost key = o.url ++ '/' :: (b.bucket ++ '/' :: rest) ∧ '?' ∉ rest ∧ '#' ∉ rest ∧
        decode (percentDecode rest) = some (b.joinedKey key) := by
  have hsafe : '%' ∉ keySafe := by decide
  have hurl : ∀ key, b.endpointHost key =
      o.url ++ '/' :: (b.bucket ++ '/' :: quote keySafe (b.joinedKey key)) := by
    intro key
    rw [endpointHost, hend, rstripSlash_origin, fullKey_eq_joinedKey]
  constructor
  · intro key key' h
    rw [hurl, hurl] at h
    simp only [List.append_cancel_left_eq, List.cons.injEq, true_and] at h
    exact b.joinedKey_injective (quote_injective hsafe h)
  · intro key
    refine ⟨_, hurl key, notMem_quote (by decide) rfl, notMem_quote (by decide) rfl, ?_⟩
    rw [percentDecode_quote hsafe, decode_encode]

/-- The key `a?b` below the prefix `p`. -/
theorem endpointHost_lossless_mark : ∃ rest,
    (inBucket ['p']).endpointHost "a?b".toList =
        amazon.url ++ '/' :: ("abc".toList ++ '/' :: rest) ∧
      '?' ∉ rest ∧ '#' ∉ rest ∧ decode (percentDecode rest) = some "p/a?b".toList :=
  (endpointHost_lossless (b := inBucket ['p']) (o := amazon) rfl).2 "a?b".toList

end S3Blob

end GufoBlob
