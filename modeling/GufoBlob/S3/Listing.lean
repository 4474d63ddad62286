import GufoBlob.S3.Address
import Mathlib.Algebra.Order.BigOperators.Group.List
import Mathlib.Data.List.Nodup

/-!
# What an S3 scan yields

A bucket whose server answers ListObjectsV2 requests faithfully: it reads the requested prefix and
the continuation token from the query, and sends the keys below that prefix in pages of any sizes,
each linked to the next one by a token of its choice (`ListServer`).

* `run_scan` — `scan(q)` of either class ends, and yields the listed keys without the prefix.
* `scan_faithful_iff` — when these are exactly the keys that start with `q` and whose object, the
  one that `get` asks for, is in the bucket. `get` asks for `a` with the key `./a` as well, and a scan
  yields no such key. Among the keys without dot segments they are not for `q = ""` when only one of
  `prefix` and `prefix/` is an object: `scan` lists below `prefix/`, and `get("")` asks for `prefix`.
-/

namespace GufoBlob

open Text Interaction Uri Xml S3

namespace S3

/-! ## The server -/

/-- The value in `name=value`, percent-decoded, when this is the name. -/
def paramValue (name kv : Str) : Option Str :=
  if kv.takeWhile (fun c => c ≠ '=') = name then
    decode (percentDecode (kv.dropWhile fun c => c ≠ '=').tail)
  else none

/-- The value of a query parameter. -/
def param (query name : Str) : Option Str := (query.splitOn '&').findSome? (paramValue name)

def listType : Str := "list-type".toList

def prefixName : Str := "prefix".toList

def tokenName : Str := "continuation-token".toList

/-- The prefix and the token of a ListObjectsV2 request. -/
def listRequest (bucket url : Str) : Option (Str × Option Str) :=
  let query := urlQuery url
  if urlPath url = '/' :: bucket ∧ param query listType = some ['2'] then
    (param query prefixName).map fun p => (p, param query tokenName)
  else none

/-- One page of an answer: its keys, the token of the next page, and the XML document. -/
structure Page where
  keys : List Str
  next : Option Str
  body : Bytes

/-- The document of the page says so. -/
def Page.Faithful (expat : Expat) (page : Page) : Prop :=
  ∃ evs doc, expat page.body = .ok evs ∧ Delivered doc evs ∧
    doc.Leaves localName [keyField, tokenField] [] ∧
    doc.select localName keyField [] = page.keys ∧
    doc.select localName tokenField [] = page.next.toList

/-- Every page but the last one has a token, which is not empty. -/
def Linked : List Page → Prop
  | [] => False
  | [p] => p.next = none
  | p :: q :: rest => (∃ t, t ≠ [] ∧ p.next = some t) ∧ Linked (q :: rest)

/-- A bucket, and how its server splits the answer to each prefix into pages. -/
structure ListServer (expat : Expat) where
  /-- The keys of the objects, in the order in which they are listed. -/
  objects : List Str
  objects_nodup : objects.Nodup
  objects_ne : ∀ k ∈ objects, k ≠ []
  pages : Str → List Page
  keys_pages : ∀ p, (pages p).flatMap Page.keys = objects.filter fun k => p.isPrefixOf k
  linked : ∀ p, Linked (pages p)
  faithful : ∀ p, ∀ page ∈ pages p, page.Faithful expat
  headers : Method → Str → Bytes → Headers

/-- The pages still to be asked for, and the token that leads to them. -/
abbrev Upcoming := Option (Str × List Page)

def badRequest : Response := ⟨400, []⟩

/-- The answer with the first of the pages. -/
def serve : List Page → Response × Upcoming
  | [] => (badRequest, none)
  | p :: rest => (⟨ok, p.body⟩, p.next.map fun t => (t, rest))

namespace ListServer

variable {expat : Expat} (srv : ListServer expat)

/-- The answer to a list request. -/
def list (pending : Upcoming) : Option (Str × Option Str) → Response × Upcoming
  | none => (badRequest, pending)
  | some (p, none) => serve (srv.pages p)
  | some (_, some t) =>
      match pending with
      | some (t', rest) => if t = t' then serve rest else (badRequest, pending)
      | none => (badRequest, pending)

def handler (bucket : Str) : Handler http Upcoming
  | w, .openClient => ((), w)
  | w, .closeClient => ((), w)
  | w, .sign method url body _ _ => (.ok (srv.headers method url body), w)
  | w, .send .get url _ _ =>
      (.ok (srv.list w (listRequest bucket url)).1, (srv.list w (listRequest bucket url)).2)
  | w, .send _ _ _ _ => (.ok badRequest, w)

end ListServer

end S3

namespace S3Blob

/-! ## The requests of a scan -/

/-- `prefix_raw` of `_strip_prefix`, and the part of `full` before the argument in `_list_url`. -/
def rawPrefix (b : S3Blob) : Str :=
  if b.keyPrefix.isEmpty then []
  else if endsWithSlash b.keyPrefix then b.keyPrefix else b.keyPrefix ++ ['/']

theorem fullPrefix_eq (b : S3Blob) (pre : Str) : b.fullPrefix pre = b.rawPrefix ++ pre := by
  unfold fullPrefix rawPrefix
  cases hk : b.keyPrefix.isEmpty with
  | true => simp
  | false => cases hs : endsWithSlash b.keyPrefix <;> simp

theorem stripPrefix_append (b : S3Blob) (key : Str) : b.stripPrefix (b.rawPrefix ++ key) = key := by
  unfold stripPrefix rawPrefix
  cases hk : b.keyPrefix.isEmpty with
  | true => simp
  | false => cases hs : endsWithSlash b.keyPrefix <;> simp

theorem mem_quote_nil {s : Str} {c : Char} (hc : c ∈ quote [] s) : c = '%' ∨ unreserved c = true := by
  rcases mem_quote hc with h | h
  · exact .inl h
  · simp only [isSafe, Bool.and_eq_true, Bool.or_eq_true] at h
    rcases h.2 with h | h
    · exact .inr h
    · simp at h

theorem notMem_quote_nil {s : Str} {c : Char} (hp : c ≠ '%') (hc : unreserved c = false) :
    c ∉ quote [] s := by
  intro hmem
  rcases mem_quote_nil hmem with h | h
  · exact hp h
  · rw [hc] at h
    exact Bool.noConfusion h

/-- The value of a quoted parameter is read back. -/
theorem paramValue_quoted {name : Str} (hname : '=' ∉ name) (name' v : Str) :
    paramValue name' (name ++ '=' :: quote [] v) = if name = name' then some v else none := by
  have hne : ∀ c ∈ name, decide (c ≠ '=') = true := by
    intro c hc
    simpa using fun h : c = '=' => hname (h ▸ hc)
  rw [paramValue, List.takeWhile_append_of_pos hne, List.dropWhile_append_of_pos hne,
    List.takeWhile_cons_of_neg (by simp), List.dropWhile_cons_of_neg (by simp), List.append_nil,
    List.tail_cons, percentDecode_quote (by decide), decode_encode]

/-- The query of the URL of a page. -/
def listQuery (full : Str) (token : Option Str) : Str :=
  "list-type=2&prefix=".toList ++ quote [] full ++
    token.elim [] fun t => "&continuation-token=".toList ++ quote [] t

theorem splitOn_listQuery (full : Str) (token : Option Str) :
    (listQuery full token).splitOn '&' =
      [listType ++ '=' :: quote [] ['2'], prefixName ++ '=' :: quote [] full] ++
        (token.map fun t => tokenName ++ '=' :: quote [] t).toList := by
  have hnot : ∀ name : Str, '&' ∉ name → ∀ v, '&' ∉ name ++ '=' :: quote [] v := by
    intro name hname v h
    rcases List.mem_append.mp h with h | h
    · exact hname h
    · exact notMem_quote_nil (by decide) rfl ((List.mem_cons.mp h).resolve_left (by decide))
  have hhead : "list-type=2&prefix=".toList =
      (listType ++ '=' :: quote [] ['2']) ++ '&' :: (prefixName ++ ['=']) := by decide +kernel
  have htail : "&continuation-token=".toList = '&' :: (tokenName ++ ['=']) := by decide +kernel
  have htype := hnot listType (by decide) ['2']
  have hpre := hnot prefixName (by decide) full
  cases token with
  | none =>
      have hsplit : listQuery full none = (listType ++ '=' :: quote [] ['2']) ++
          '&' :: (prefixName ++ '=' :: quote [] full) := by
        unfold listQuery
        rw [hhead, Option.elim_none]
        simp only [List.append_assoc, List.cons_append, List.nil_append, List.append_nil]
      rw [hsplit, List.splitOn_append_cons_self_of_not_mem htype,
        List.splitOn_eq_singleton hpre]
      rfl
  | some t =>
      have htoken := hnot tokenName (by decide) t
      have hsplit : listQuery full (some t) = (listType ++ '=' :: quote [] ['2']) ++
          '&' :: ((prefixName ++ '=' :: quote [] full) ++
            '&' :: (tokenName ++ '=' :: quote [] t)) := by
        unfold listQuery
        rw [hhead, Option.elim_some, htail]
        simp only [List.append_assoc, List.cons_append, List.nil_append]
      rw [hsplit, List.splitOn_append_cons_self_of_not_mem htype,
        List.splitOn_append_cons_self_of_not_mem hpre, List.splitOn_eq_singleton htoken]
      rfl

/-- What the server reads from the query of a page. -/
theorem param_listQuery (full : Str) (token : Option Str) :
    param (listQuery full token) listType = some ['2'] ∧
      param (listQuery full token) prefixName = some full ∧
      param (listQuery full token) tokenName = token := by
  have hvalue : ∀ name v, paramValue name (listType ++ '=' :: quote [] v) =
      if listType = name then some v else none := paramValue_quoted (by decide)
  have hvalue' : ∀ name v, paramValue name (prefixName ++ '=' :: quote [] v) =
      if prefixName = name then some v else none := paramValue_quoted (by decide)
  have hvalue'' : ∀ name v, paramValue name (tokenName ++ '=' :: quote [] v) =
      if tokenName = name then some v else none := paramValue_quoted (by decide)
  have hne : listType ≠ prefixName ∧ listType ≠ tokenName ∧ prefixName ≠ tokenName := by decide
  unfold param
  rw [splitOn_listQuery]
  refine ⟨?_, ?_, ?_⟩
  · simp only [List.cons_append, List.findSome?_cons, hvalue, if_true]
  · simp only [List.cons_append, List.findSome?_cons, hvalue, hvalue', hne.1, if_false, if_true]
  · cases token <;> simp only [List.cons_append, List.nil_append, List.findSome?_cons, hvalue,
      hvalue', hvalue'', hne.2.1, hne.2.2, if_false, if_true, Option.map_some, Option.map_none,
      Option.toList_some, Option.toList_none, List.findSome?_nil]

/-- The server reads the prefix and the token of a page's URL. -/
theorem listRequest_url {b : S3Blob} (o : Origin) (hb : rxBucket b.bucket = true) (full : Str)
    (token : Option Str) :
    listRequest b.bucket (o.url ++ '/' :: (b.bucket ++ '?' :: listQuery full token)) =
      some (full, token) := by
  have hbucket : ∀ c ∈ b.bucket, endsPath c = false := by
    intro c hc
    cases h : endsPath c with
    | false => rfl
    | true =>
        have hsafe := (rxBucket_plain hb).1 c hc
        simp only [endsPath, Bool.or_eq_true, decide_eq_true_eq] at h
        rcases h with rfl | rfl <;> exact absurd hsafe (by decide)
  have hquery : '#' ∉ listQuery full token := by
    have hhash : ∀ s, '#' ∉ quote [] s := fun s => notMem_quote_nil (by decide) rfl
    intro h
    unfold listQuery at h
    rcases List.mem_append.mp h with h | h
    · rcases List.mem_append.mp h with h | h
      · exact absurd h (by decide +kernel)
      · exact hhash full h
    · cases token with
      | none => cases h
      | some t =>
          rcases List.mem_append.mp h with h | h
          · exact absurd h (by decide +kernel)
          · exact hhash t h
  have hpath := urlPath_origin o _ ('?' :: listQuery full token) hbucket
    (by rintro c ⟨⟩; rfl)
  obtain ⟨htype, hpre, htoken⟩ := param_listQuery full token
  unfold listRequest
  rw [hpath, urlQuery_origin o hbucket hquery]
  dsimp only
  rw [htype, hpre, htoken]
  exact if_pos ⟨rfl, rfl⟩

theorem listUrl_eq {b : S3Blob} {o : Origin} (hend : b.endpoint = o.url) (pre : Str) :
    b.listUrl pre = o.url ++ '/' :: (b.bucket ++ '?' :: listQuery (b.fullPrefix pre) none) := by
  have hhead : "?list-type=2&prefix=".toList = '?' :: "list-type=2&prefix=".toList := by
    decide +kernel
  unfold listUrl listQuery
  rw [hend, rstripSlash_origin, Option.elim_none, List.append_nil, hhead]
  simp only [List.append_assoc, List.cons_append]

theorem nextUrl_eq {b : S3Blob} {o : Origin} (hend : b.endpoint = o.url) (pre t : Str) :
    b.nextUrl pre t =
      o.url ++ '/' :: (b.bucket ++ '?' :: listQuery (b.fullPrefix pre) (some t)) := by
  unfold nextUrl
  rw [listUrl_eq hend]
  unfold listQuery
  rw [Option.elim_none, Option.elim_some]
  simp only [List.append_assoc, List.cons_append, List.append_nil]

/-! ## The loop over the pages -/

section Pages

variable {expat : Expat} {srv : ListServer expat} {b : S3Blob}

theorem wp_request_list {Q : Outcome PyExc Response → Unit → Upcoming → Prop} {url : Str}
    {w : Upcoming} : Program.wp (srv.handler b.bucket) (b.request .get url []) Q () w ↔
      Q (.ok (srv.list w (listRequest b.bucket url)).1) ()
        (srv.list w (listRequest b.bucket url)).2 := Iff.rfl

/-- One page: its keys are yielded without the prefix, and its token leads to the next URL. -/
theorem wp_page {p : Page} {rest : List Page} (hp : p.Faithful expat) (hkeys : ∀ k ∈ p.keys, k ≠ [])
    (hnext : ∀ t, p.next = some t → t ≠ []) {pre url : Str} {w : Upcoming} {xs : List Str}
    (hurl : srv.list w (listRequest b.bucket url) = serve (p :: rest))
    {Q : Outcome PyExc (Option Str) → Unit → Upcoming × List Str → Prop} :
    Program.wp (Program.collecting (srv.handler b.bucket)) (b.page expat pre url) Q () (w, xs) ↔
      Q (.ok (p.next.map (b.nextUrl pre))) ()
        (p.next.map fun t => (t, rest), xs ++ p.keys.map b.stripPrefix) := by
  obtain ⟨evs, doc, hexpat, hevs, hleaves, hselect, htoken⟩ := hp
  have hlist := listObjects_of_document hexpat hevs hleaves (by rw [hselect]; exact hkeys)
  have hresult : listObjects expat p.body = .ok (p.keys, p.next) := by
    rw [hlist, hselect, htoken]
    cases hn : p.next with
    | none => rfl
    | some t => simp [hnext t hn]
  rw [page, Program.bind_eq, Program.wp_bind, Program.wp_embed, wp_request_list, hurl]
  simp [serve, hresult, Program.ofExcept, Program.wp_forEach_yield]

/-- The request for the page that a token leads to. -/
theorem list_next {o : Origin} (hend : b.endpoint = o.url) (hb : rxBucket b.bucket = true)
    (pre t : Str) (rest : List Page) :
    srv.list (some (t, rest)) (listRequest b.bucket (b.nextUrl pre t)) = serve rest := by
  rw [nextUrl_eq hend, listRequest_url o hb]
  exact if_pos rfl

theorem list_first (srv : ListServer expat) {o : Origin} (hend : b.endpoint = o.url) (hb : rxBucket b.bucket = true)
    (pre : Str) (w : Upcoming) :
    srv.list w (listRequest b.bucket (b.listUrl pre)) = serve (srv.pages (b.fullPrefix pre)) := by
  rw [listUrl_eq hend, listRequest_url o hb]
  rfl

/-- A client around a piece of a generator changes nothing: the server does not see it. -/
theorem wp_withClientGen {α : Type} {g : S3Gen α}
    {Q : Outcome PyExc α → Unit → Upcoming × List Str → Prop} {w : Upcoming × List Str} :
    Program.wp (Program.collecting (srv.handler b.bucket)) (withClientGen g) Q () w ↔
      Program.wp (Program.collecting (srv.handler b.bucket)) g Q () w := by
  have hpost : Program.finallyPost (Program.collecting (srv.handler b.bucket))
      (closeClient.embed : S3Gen Unit) Q = Q := by
    funext o s w
    cases o <;> rfl
  unfold withClientGen
  rw [Program.wp_bind, Program.wp_embed]
  show Program.wp _ (g.tryFinally closeClient.embed) Q () w ↔ _
  rw [Program.wp_tryFinally, hpost]

/-- Pages with which the loop of `scan` can go on. -/
structure Good (expat : Expat) (ps : List Page) : Prop where
  linked : Linked ps
  faithful : ∀ p ∈ ps, p.Faithful expat
  keys_ne : ∀ p ∈ ps, ∀ k ∈ p.keys, k ≠ []

theorem Good.next {p : Page} {rest : List Page} (h : Good expat (p :: rest)) :
    (p.next = none ∧ rest = []) ∨ ∃ t, t ≠ [] ∧ p.next = some t ∧ Good expat rest := by
  cases rest with
  | nil => exact .inl ⟨h.linked, rfl⟩
  | cons q rest =>
      obtain ⟨⟨t, ht, hnext⟩, hlinked⟩ := h.linked
      exact .inr ⟨t, ht, hnext, hlinked, fun p hp => h.faithful p (List.mem_cons_of_mem _ hp),
        fun p hp => h.keys_ne p (List.mem_cons_of_mem _ hp)⟩

theorem Good.next_ne {p : Page} {rest : List Page} (h : Good expat (p :: rest)) :
    ∀ t, p.next = some t → t ≠ [] := by
  intro t ht
  rcases h.next with ⟨hnone, -⟩ | ⟨t', hne, hsome, -⟩
  · rw [hnone] at ht
    cases ht
  · rw [hsome] at ht
    exact Option.some.inj ht ▸ hne

/-- The loop of a scan, from any page on: with fuel for every page it yields all their keys and
returns. The body may be the page itself or the page with a client around it. -/
theorem wp_loop {o : Origin} (hend : b.endpoint = o.url) (hb : rxBucket b.bucket = true)
    {pre : Str} {body : Str → S3Gen (Option Str)}
    (hbody : ∀ url w (Q : Outcome PyExc (Option Str) → Unit → Upcoming × List Str → Prop),
      Program.wp (Program.collecting (srv.handler b.bucket)) (body url) Q () w ↔
        Program.wp (Program.collecting (srv.handler b.bucket)) (b.page expat pre url) Q () w)
    {ps : List Page} (hgood : Good expat ps) {fuel : Nat} (hfuel : ps.length ≤ fuel)
    {url : Str} {w : Upcoming} (hurl : srv.list w (listRequest b.bucket url) = serve ps)
    {xs : List Str} {Q : Outcome PyExc Unit → Unit → Upcoming × List Str → Prop}
    (hQ : Q (.ok ()) () (none, xs ++ (ps.flatMap Page.keys).map b.stripPrefix)) :
    Program.wp (Program.collecting (srv.handler b.bucket)) (loop body fuel url) Q () (w, xs) := by
  induction fuel generalizing ps url w xs with
  | zero =>
      obtain rfl := List.length_eq_zero_iff.mp (Nat.le_zero.mp hfuel)
      exact absurd hgood.linked id
  | succ fuel ih =>
      cases ps with
      | nil => exact absurd hgood.linked id
      | cons p rest =>
          rw [loop, Program.bind_eq, Program.wp_bind, hbody,
            wp_page (hgood.faithful p List.mem_cons_self) (hgood.keys_ne p List.mem_cons_self)
              hgood.next_ne hurl, Program.bindPost_ok]
          rcases hgood.next with ⟨hnone, rfl⟩ | ⟨t, -, hnext, hrest⟩
          · rw [hnone]
            simpa using hQ
          · rw [hnext]
            refine ih hrest (Nat.le_of_succ_le_succ hfuel) (list_next hend hb pre t rest) ?_
            simpa using hQ

theorem good_pages (srv : ListServer expat) (p : Str) : Good expat (srv.pages p) where
  linked := srv.linked p
  faithful := srv.faithful p
  keys_ne page hpage k hk := by
    have hmem : k ∈ (srv.pages p).flatMap Page.keys := List.mem_flatMap.mpr ⟨page, hpage, hk⟩
    rw [srv.keys_pages, List.mem_filter] at hmem
    exact srv.objects_ne k hmem.1

/-- The keys that a scan yields: those below the full prefix, without the raw prefix. -/
def scanned (srv : ListServer expat) (b : S3Blob) (pre : Str) : List Str :=
  (srv.objects.filter fun k => (b.fullPrefix pre).isPrefixOf k).map b.stripPrefix

/-- The list of what was yielded is `ks`, and no page is left. -/
def Ends (ks : List Str) (out : Outcome PyExc Unit) (s : Unit) (x : Upcoming × List Str) : Prop :=
  Program.collected [] (out, s, x) = (.ok ks, (), none)

/-- A scan of either class ends, and yields the listed keys without the prefix. -/
theorem run_scan (srv : ListServer expat) {o : Origin} (hend : b.endpoint = o.url)
    (hb : rxBucket b.bucket = true) (pre : Str) {fuel : Nat}
    (hfuel : (srv.pages (b.fullPrefix pre)).length ≤ fuel) {be : BlobBase http Unit}
    (hbe : be ∈ backends expat b fuel) (w : Upcoming) :
    (be.scan pre).collect.run (srv.handler b.bucket) () w =
      (.ok (scanned srv b pre), (), none) := by
  have hgood := good_pages srv (b.fullPrefix pre)
  have hfirst := list_first srv hend hb pre w
  have hQ : Ends (scanned srv b pre) (.ok ()) () (none,
      [] ++ ((srv.pages (b.fullPrefix pre)).flatMap Page.keys).map b.stripPrefix) := by
    rw [srv.keys_pages]
    rfl
  rw [Program.run_collect]
  rcases List.mem_pair.mp hbe with rfl | rfl
  · exact wp_withClientGen.mpr (wp_loop hend hb (fun _ _ _ => Iff.rfl) hgood hfuel hfirst hQ)
  · exact wp_loop hend hb (fun _ _ _ => wp_withClientGen) hgood hfuel hfirst hQ

end Pages

/-! ## Which keys these are -/

section Keys

variable {expat : Expat} {b : S3Blob}

theorem mem_scanned_iff (srv : ListServer expat) (b : S3Blob) (pre k : Str) :
    k ∈ scanned srv b pre ↔ b.rawPrefix ++ k ∈ srv.objects ∧ pre <+: k := by
  simp only [scanned, List.mem_map, List.mem_filter, List.isPrefixOf_iff_prefix, fullPrefix_eq]
  constructor
  · rintro ⟨key, ⟨hkey, t, rfl⟩, rfl⟩
    rw [List.append_assoc] at hkey ⊢
    rw [stripPrefix_append]
    exact ⟨hkey, List.prefix_append pre t⟩
  · rintro ⟨hmem, hpre⟩
    exact ⟨b.rawPrefix ++ k, ⟨hmem, (List.prefix_append_right_inj _).mpr hpre⟩,
      stripPrefix_append b k⟩

theorem nodup_scanned (srv : ListServer expat) (b : S3Blob) (pre : Str) :
    (scanned srv b pre).Nodup := by
  refine List.Nodup.map_on ?_ (srv.objects_nodup.filter _)
  intro x hx y hy hxy
  simp only [List.mem_filter, List.isPrefixOf_iff_prefix, fullPrefix_eq] at hx hy
  obtain ⟨-, s, rfl⟩ := hx
  obtain ⟨-, t, rfl⟩ := hy
  rw [List.append_assoc, List.append_assoc, stripPrefix_append, stripPrefix_append] at hxy
  rw [List.append_assoc, List.append_assoc, hxy]

/-- The object that `get(key)` asks for. -/
def Addresses (b : S3Blob) (key obj : Str) : Prop :=
  target (b.endpointHost key) = encode ('/' :: (b.bucket ++ '/' :: obj))

section Addresses

variable {o : Origin} (hend : b.endpoint = o.url) (hb : rxBucket b.bucket = true)

include hend hb

theorem addresses_iff (key obj : Str) :
    b.Addresses key obj ↔ undotted (b.bucket ++ '/' :: b.joinedKey key) = b.bucket ++ '/' :: obj := by
  rw [Addresses, target_endpointHost hend hb, encode_injective.eq_iff, List.cons_inj_right]

omit hend in
theorem noDotSegment_bucket_iff (s : Str) :
    NoDotSegment (b.bucket ++ '/' :: s) ↔ NoDotSegment s := by
  rw [noDotSegment_append_slash_iff]
  exact and_iff_right (noDotSegment_bucket hb)

/-- A key without dot segments is asked for as it is. -/
theorem addresses_of_noDotSegment {key : Str} (hkey : NoDotSegment (b.joinedKey key)) (obj : Str) :
    b.Addresses key obj ↔ b.joinedKey key = obj := by
  have hself : undotted (b.bucket ++ '/' :: b.joinedKey key) = b.bucket ++ '/' :: b.joinedKey key :=
    (undotted_eq_self_iff _).mpr ((noDotSegment_bucket_iff hb _).mpr hkey)
  rw [addresses_iff hend hb, hself]
  simp

/-- An object with dot segments is never asked for. -/
theorem Addresses.noDotSegment {key obj : Str} (h : b.Addresses key obj) : NoDotSegment obj := by
  rw [addresses_iff hend hb] at h
  rw [← noDotSegment_bucket_iff hb, ← h]
  exact noDotSegment_undotted _

/-- What any other object can be asked for with: behind any text, up to the root and down again. -/
theorem addresses_viaRoot {obj : Str} (hobj : NoDotSegment obj) {key r : Str} {n : Nat}
    (hkey : b.joinedKey key = r ++ '/' :: viaRoot n (b.bucket ++ '/' :: obj))
    (hn : (r.splitOn '/').length < n) : b.Addresses key obj := by
  have hlength : ((b.bucket ++ '/' :: r).splitOn '/').length ≤ n := by
    rw [List.splitOn_append_cons_self_of_not_mem (rxBucket_plain hb).2.1, List.length_cons]
    exact hn
  rw [addresses_iff hend hb, hkey, ← List.cons_append, ← List.append_assoc,
    undotted_viaRoot _ _ hlength]
  exact (undotted_eq_self_iff _).mpr ((noDotSegment_bucket_iff hb _).mpr hobj)

end Addresses

/-- The joined key of a key that is not empty. -/
theorem joinedKey_cons (b : S3Blob) (c : Char) (k : Str) :
    b.joinedKey (c :: k) = b.rawPrefix ++ c :: k := by
  rw [← fullKey_eq_joinedKey]
  unfold fullKey rawPrefix
  cases hk : b.keyPrefix.isEmpty with
  | true => simp
  | false => cases hs : endsWithSlash b.keyPrefix <;> simp

theorem joinedKey_nil (b : S3Blob) : b.joinedKey [] = b.keyPrefix := by
  unfold joinedKey
  rw [if_pos rfl]
  split_ifs with hnone
  · exact hnone.symm
  · rfl

/-- The empty key is the object `prefix/` for a scan, and the object `prefix` for `get`. -/
theorem rawPrefix_cases (b : S3Blob) :
    (b.keyPrefix = [] ∨ endsWithSlash b.keyPrefix = true) ∧ b.rawPrefix = b.keyPrefix ∨
      (b.keyPrefix ≠ [] ∧ endsWithSlash b.keyPrefix = false) ∧
        b.rawPrefix = b.keyPrefix ++ ['/'] := by
  unfold rawPrefix
  cases hk : b.keyPrefix.isEmpty with
  | true => simp [List.isEmpty_iff.mp hk]
  | false =>
      have hne : b.keyPrefix ≠ [] := by simpa using hk
      cases hs : endsWithSlash b.keyPrefix <;> simp [hne]

theorem noDotSegment_rawPrefix_iff (b : S3Blob) :
    NoDotSegment b.rawPrefix ↔ NoDotSegment b.keyPrefix := by
  rcases b.rawPrefix_cases with ⟨-, heq⟩ | ⟨-, heq⟩
  · rw [heq]
  · rw [heq, noDotSegment_append_slash_iff]
    exact and_iff_left (by decide)

theorem noDotSegment_joinedKey_iff (b : S3Blob) (key : Str) :
    NoDotSegment (b.joinedKey key) ↔ NoDotSegment (b.rawPrefix ++ key) := by
  cases key with
  | nil => rw [joinedKey_nil, List.append_nil, noDotSegment_rawPrefix_iff]
  | cons c k => rw [joinedKey_cons]

/-- The two objects of the empty key are there at the same time, or are one. -/
theorem marker_iff (b : S3Blob) {objects : List Str}
    (hmem : b.rawPrefix ∈ objects → NoDotSegment b.keyPrefix) :
    (b.rawPrefix ∈ objects ↔ NoDotSegment b.keyPrefix ∧ b.keyPrefix ∈ objects) ↔
      b.keyPrefix = [] ∨ endsWithSlash b.keyPrefix = true ∨ ¬ NoDotSegment b.keyPrefix ∨
        (b.keyPrefix ∈ objects ↔ b.keyPrefix ++ ['/'] ∈ objects) := by
  rcases b.rawPrefix_cases with ⟨hone, heq⟩ | ⟨⟨hne, hslash⟩, heq⟩
  · rw [heq] at hmem ⊢
    tauto
  · rw [heq] at hmem ⊢
    have hslash' : ¬ endsWithSlash b.keyPrefix = true := by simp [hslash]
    tauto

end Keys

/-- The scan of either class ends and yields, each once, exactly the keys of `K` that start with
`q`. -/
def Yields {expat : Expat} (srv : ListServer expat) (b : S3Blob) (q : Str) (be : BlobBase http Unit)
    (w : Upcoming) (K : Str → Prop) : Prop :=
  ∃ keys w', (be.scan q).collect.run (srv.handler b.bucket) () w = (.ok keys, (), w') ∧
    keys.Nodup ∧ ∀ k, k ∈ keys ↔ K k ∧ q <+: k

/-- A scan yields the keys whose object is in the bucket. -/
def FaithfulScan {expat : Expat} (srv : ListServer expat) (b : S3Blob) (q : Str)
    (be : BlobBase http Unit) (w : Upcoming) : Prop :=
  Yields srv b q be w fun k => ∃ obj ∈ srv.objects, b.Addresses k obj

/-- A scan yields those of them that have no dot segment. -/
def FaithfulPlainScan {expat : Expat} (srv : ListServer expat) (b : S3Blob) (q : Str)
    (be : BlobBase http Unit) (w : Upcoming) : Prop :=
  Yields srv b q be w fun k => NoDotSegment (b.joinedKey k) ∧ ∃ obj ∈ srv.objects, b.Addresses k obj

section Faithful

variable {expat : Expat} (srv : ListServer expat) {b : S3Blob} {o : Origin} (q : Str)

theorem yields_iff (hend : b.endpoint = o.url) (hb : rxBucket b.bucket = true) {fuel : Nat}
    (hfuel : (srv.pages (b.fullPrefix q)).length ≤ fuel) {be : BlobBase http Unit}
    (hbe : be ∈ backends expat b fuel) (w : Upcoming) (K : Str → Prop) :
    Yields srv b q be w K ↔
      ∀ k, q <+: k → (b.rawPrefix ++ k ∈ srv.objects ↔ K k) := by
  have hscan := run_scan srv hend hb q hfuel hbe w
  constructor
  · rintro ⟨keys, w', hrun, -, hkeys⟩ k hk
    rw [hscan] at hrun
    obtain rfl : scanned srv b q = keys := Outcome.ok.inj (Prod.mk.inj hrun).1
    have hmem := hkeys k
    rwa [mem_scanned_iff, and_iff_left hk, and_iff_left hk] at hmem
  · intro h
    refine ⟨scanned srv b q, none, hscan, nodup_scanned srv b q, fun k => ?_⟩
    rw [mem_scanned_iff]
    exact and_congr_left (h k)

variable {srv q}

/-- Every object without dot segments can be asked for with infinitely many keys. -/
theorem not_noDotSegment_of_faithful (hend : b.endpoint = o.url) (hb : rxBucket b.bucket = true)
    (h : ∀ k, q <+: k → (b.rawPrefix ++ k ∈ srv.objects ↔ ∃ obj ∈ srv.objects, b.Addresses k obj))
    {obj : Str} (hobj : obj ∈ srv.objects) : ¬ NoDotSegment obj := by
  intro hplain
  let r := b.rawPrefix ++ q
  -- longer than every object of the bucket
  let n := (r.splitOn '/').length + (srv.objects.map List.length).sum + 1
  let k := q ++ '/' :: viaRoot n (b.bucket ++ '/' :: obj)
  have hjoined : b.joinedKey k = r ++ '/' :: viaRoot n (b.bucket ++ '/' :: obj) := by
    obtain ⟨c, k', hk⟩ := List.exists_cons_of_ne_nil (l := k) (by simp [k])
    rw [hk, joinedKey_cons, ← hk, List.append_assoc]
  have hlong : b.rawPrefix ++ k ∈ srv.objects := by
    rw [h k (List.prefix_append _ _)]
    exact ⟨obj, hobj, addresses_viaRoot hend hb hplain hjoined (by omega)⟩
  have hle : (b.rawPrefix ++ k).length ≤ (srv.objects.map List.length).sum :=
    List.le_sum_of_mem (List.mem_map_of_mem hlong)
  have hge : n ≤ (viaRoot n (b.bucket ++ '/' :: obj)).length := length_viaRoot_ge n _
  simp only [k, List.length_append, List.length_cons] at hle
  omega

/-- With the keys of all texts a scan is faithful only where it has nothing to show. -/
theorem faithful_iff (hend : b.endpoint = o.url) (hb : rxBucket b.bucket = true) :
    (∀ k, q <+: k → (b.rawPrefix ++ k ∈ srv.objects ↔ ∃ obj ∈ srv.objects, b.Addresses k obj)) ↔
      ∀ obj ∈ srv.objects, ¬ NoDotSegment obj ∧ ¬ b.rawPrefix ++ q <+: obj := by
  constructor
  · intro h obj hobj
    refine ⟨not_noDotSegment_of_faithful hend hb h hobj, ?_⟩
    rintro ⟨t, rfl⟩
    rw [List.append_assoc] at hobj
    obtain ⟨obj', hobj', haddresses⟩ := (h (q ++ t) (List.prefix_append q t)).mp hobj
    exact not_noDotSegment_of_faithful hend hb h hobj' (haddresses.noDotSegment hend hb)
  · intro h k hk
    constructor
    · intro hmem
      exact absurd ((List.prefix_append_right_inj _).mpr hk) (h _ hmem).2
    · rintro ⟨obj, hobj, haddresses⟩
      exact absurd (haddresses.noDotSegment hend hb) (h obj hobj).1

/-- Among the keys without dot segments. -/
theorem faithful_plain_iff (hend : b.endpoint = o.url) (hb : rxBucket b.bucket = true) :
    (∀ k, q <+: k → (b.rawPrefix ++ k ∈ srv.objects ↔
        NoDotSegment (b.joinedKey k) ∧ ∃ obj ∈ srv.objects, b.Addresses k obj)) ↔
      (∀ obj ∈ srv.objects, b.rawPrefix ++ q <+: obj → NoDotSegment obj) ∧
        (b.keyPrefix = [] ∨ endsWithSlash b.keyPrefix = true ∨ q ≠ [] ∨
          ¬ NoDotSegment b.keyPrefix ∨
          (b.keyPrefix ∈ srv.objects ↔ b.keyPrefix ++ ['/'] ∈ srv.objects)) := by
  have hplain : ∀ k, (NoDotSegment (b.joinedKey k) ∧ ∃ obj ∈ srv.objects, b.Addresses k obj) ↔
      NoDotSegment (b.joinedKey k) ∧ b.joinedKey k ∈ srv.objects := by
    intro k
    refine and_congr_right fun hk => ?_
    simp only [addresses_of_noDotSegment hend hb hk, exists_eq_right']
  simp only [hplain]
  constructor
  · intro h
    have hnone : ∀ obj ∈ srv.objects, b.rawPrefix ++ q <+: obj → NoDotSegment obj := by
      rintro obj hobj ⟨t, rfl⟩
      rw [List.append_assoc] at hobj ⊢
      have hlisted := (h (q ++ t) (List.prefix_append q t)).mp hobj
      exact (b.noDotSegment_joinedKey_iff (q ++ t)).mp hlisted.1
    refine ⟨hnone, ?_⟩
    by_cases hq : q = []
    · subst hq
      have hnil := h [] (List.prefix_refl [])
      rw [joinedKey_nil, List.append_nil] at hnil
      have hmarker := (b.marker_iff fun hmem => (hnil.mp hmem).1).mp hnil
      tauto
    · exact .inr (.inr (.inl hq))
  · rintro ⟨hnone, hmarker⟩ k hk
    have hmem : b.rawPrefix ++ k ∈ srv.objects → NoDotSegment (b.joinedKey k) := fun hobj =>
      (b.noDotSegment_joinedKey_iff k).mpr (hnone _ hobj ((List.prefix_append_right_inj _).mpr hk))
    cases k with
    | cons c k =>
        rw [joinedKey_cons] at hmem ⊢
        exact ⟨fun h => ⟨hmem h, h⟩, And.right⟩
    | nil =>
        have hq : q = [] := List.prefix_nil.mp hk
        rw [joinedKey_nil, List.append_nil] at hmem ⊢
        exact (b.marker_iff hmem).mpr (by tauto)

end Faithful

/-- **When a scan shows the bucket as `get` sees it.** With fuel for every page, a scan yields exactly
the keys whose object is in the bucket only where there is nothing to yield: every object that can be
asked for at all can be asked for with the `..` segments of infinitely many keys. Among the keys without
dot segments it does so exactly when no listed object has a dot segment and the prefix is empty or ends
with a slash, or has a dot segment, or `q` is not empty, or the objects `prefix` and `prefix/` are both
there or both not. -/
theorem scan_faithful_iff {expat : Expat} (srv : ListServer expat) {b : S3Blob} {o : Origin}
    (hend : b.endpoint = o.url) (hb : rxBucket b.bucket = true) (q : Str) {fuel : Nat}
    (hfuel : (srv.pages (b.fullPrefix q)).length ≤ fuel) {be : BlobBase http Unit}
    (hbe : be ∈ backends expat b fuel) (w : Upcoming) :
    (FaithfulScan srv b q be w ↔
      ∀ obj ∈ srv.objects, ¬ NoDotSegment obj ∧ ¬ b.rawPrefix ++ q <+: obj) ∧
    (FaithfulPlainScan srv b q be w ↔
      (∀ obj ∈ srv.objects, b.rawPrefix ++ q <+: obj → NoDotSegment obj) ∧
        (b.keyPrefix = [] ∨ endsWithSlash b.keyPrefix = true ∨ q ≠ [] ∨
          ¬ NoDotSegment b.keyPrefix ∨
          (b.keyPrefix ∈ srv.objects ↔ b.keyPrefix ++ ['/'] ∈ srv.objects))) := by
  constructor
  · exact (yields_iff srv q hend hb hfuel hbe w _).trans (faithful_iff hend hb)
  · exact (yields_iff srv q hend hb hfuel hbe w _).trans (faithful_plain_iff hend hb)

/-! ## A bucket with a directory marker -/

/-- The document that lists `keys` on one page. -/
def listing (keys : List Str) : Content :=
  .elem "ListBucketResult".toList (keys.foldr (fun k rest =>
    .elem "Contents".toList (.elem "Key".toList (.text [k].flatten .nil) .nil) rest) .nil) .nil

def listingEvents (keys : List Str) : List Event :=
  .start "ListBucketResult".toList :: (keys.flatMap (fun k =>
    [.start "Contents".toList, .start "Key".toList, .data k, .stop "Key".toList,
      .stop "Contents".toList]) ++ [.stop "ListBucketResult".toList])

theorem delivered_listing (keys : List Str) : Delivered (listing keys) (listingEvents keys) := by
  refine .elem ?_ .nil
  induction keys with
  | nil => exact .nil
  | cons k keys ih => exact .elem (.elem (.text [k] .nil) .nil) ih

/-- The only object is `p/`. -/
def markerKeys (p : Str) : List Str := [['p', '/']].filter fun k => p.isPrefixOf k

/-- Expat on the two documents of that bucket. -/
def markerExpat : Expat := fun body =>
  .ok (listingEvents (if body.isEmpty then [] else [['p', '/']]))

def markerPage (p : Str) : Page := ⟨markerKeys p, none, if (markerKeys p).isEmpty then [] else [1]⟩

theorem markerPage_faithful (p : Str) : (markerPage p).Faithful markerExpat := by
  refine ⟨_, listing (markerKeys p), ?_, delivered_listing (markerKeys p), ?_, ?_, ?_⟩
  · unfold markerExpat markerPage markerKeys
    by_cases h : p.isPrefixOf ['p', '/'] = true <;> simp [h]
  · unfold markerKeys
    by_cases h : p.isPrefixOf ['p', '/'] = true
    · simp [h, listing, Content.Leaves, Content.OnlyText]
      decide
    · simp [h, listing, Content.Leaves]
      exact fun _ => trivial
  · unfold markerPage markerKeys
    by_cases h : p.isPrefixOf ['p', '/'] = true <;> simp [h] <;> rfl
  · unfold markerPage markerKeys
    by_cases h : p.isPrefixOf ['p', '/'] = true <;> simp [h] <;> rfl

/-- A bucket whose only object is the directory marker `p/`. -/
def marker : ListServer markerExpat where
  objects := [['p', '/']]
  objects_nodup := List.nodup_singleton _
  objects_ne := by simp
  pages p := [markerPage p]
  keys_pages p := by simp [markerPage, markerKeys]
  linked _ := rfl
  faithful p page hpage := List.mem_singleton.mp hpage ▸ markerPage_faithful p
  headers _ _ _ := []

/-- The synchronous blob on that bucket, with fuel for one page. -/
def onMarker (keyPrefix : Str) : BlobBase http Unit :=
  Sync.S3Blob.backend markerExpat (inBucket keyPrefix) 1

theorem onMarker_mem (keyPrefix : Str) :
    onMarker keyPrefix ∈ backends markerExpat (inBucket keyPrefix) 1 := .head _

/-- Below the prefix `p/` the marker is the key `""`, for a scan and for `get`. -/
theorem scan_faithful_marker :
    FaithfulPlainScan marker (inBucket ['p', '/']) [] (onMarker ['p', '/']) none := by
  have h := scan_faithful_iff marker (b := inBucket ['p', '/']) (o := amazon) rfl (by decide) []
    (Nat.le_refl 1) (onMarker_mem ['p', '/']) none
  refine h.2.mpr ⟨fun obj hobj _ => ?_, .inr (.inl rfl)⟩
  obtain rfl := List.mem_singleton.mp hobj
  decide

/-- Below the prefix `p` a scan yields the key `""` for it, while `get("")` asks for the object
`p`, which does not exist. -/
theorem not_scan_faithful_marker :
    ¬ FaithfulScan marker (inBucket ['p']) [] (onMarker ['p']) none ∧
      ¬ FaithfulPlainScan marker (inBucket ['p']) [] (onMarker ['p']) none := by
  have hyields := yields_iff marker (b := inBucket ['p']) (o := amazon) [] rfl (by decide)
    (Nat.le_refl 1) (onMarker_mem ['p']) none
  have hlisted : (inBucket ['p']).rawPrefix ++ [] ∈ marker.objects := by decide
  have hmissing : ¬ ∃ obj ∈ marker.objects, (inBucket ['p']).Addresses [] obj := by
    rintro ⟨obj, hobj, haddresses⟩
    rw [addresses_of_noDotSegment (o := amazon) rfl (by decide) (by decide)] at haddresses
    subst haddresses
    exact absurd hobj (by decide)
  constructor
  · intro h
    exact hmissing (((hyields _).mp h [] List.nil_prefix).mp hlisted)
  · intro h
    exact hmissing (((hyields _).mp h [] List.nil_prefix).mp hlisted).2

end S3Blob

end GufoBlob
