import GufoBlob.Data.Dict
import GufoBlob.S3.Listing

/-!
# A bucket

A server that keeps the objects of one bucket, and answers the requests for an object and for a
listing. `ObjectServer` is what such servers differ in: how they split a listing into pages, what they
write into an answer without data, and which requests fail or are refused. A request that fails or is
refused has no effect.

`wp_request` says what a blob may get for a request, and `answer_endpointHost` what the server does with
a request for the object of a key.
-/

namespace GufoBlob

open Text Data Interaction Uri S3

namespace S3

/-- The status of an answer that is none of a refusal. -/
def Method.understood : Method → List Nat
  | .get => [ok, notFound]
  | .put => [created]
  | .head => [ok, notFound]
  | .delete => [deleted]

/-- The objects of a bucket, and the pages that are still to be asked for. -/
structure Bucket where
  objects : Dict Str Bytes
  pending : Upcoming

/-- The object behind the URL of a request. -/
def objectKey (bucket url : Str) : Option Str :=
  let root := '/' :: (bucket ++ ['/'])
  (decode (S3Blob.target url)).bind fun path =>
    if root.isPrefixOf path then some (path.drop root.length) else none

/-- What a server may choose. The number counts the signatures and the requests. -/
structure ObjectServer (expat : Expat) where
  pages : Nat → List Str → Str → List Page
  pages_perm : ∀ n ks p,
    ((pages n ks p).flatMap Page.keys).Perm (ks.filter fun k => p.isPrefixOf k)
  linked : ∀ n ks p, Linked (pages n ks p)
  faithful : ∀ n ks p, ∀ page ∈ pages n ks p, page.Faithful expat
  note : Method → Str → Bytes
  signs : Nat → Method → Str → Bytes → Except String Headers
  refuses : Nat → Method → Str → Option (Except String Response)
  refuses_status : ∀ n method url resp, refuses n method url = some (.ok resp) →
    resp.status ∉ method.understood

namespace ObjectServer

variable {expat : Expat} (srv : ObjectServer expat)

/-- Every request is signed and answered. -/
def Faultless : Prop :=
  (∀ n method url body, ∃ headers, srv.signs n method url body = .ok headers) ∧
    ∀ n method url, srv.refuses n method url = none

/-- The answer to a list request. -/
def list (n : Nat) (w : Bucket) : Str × Option Str → Response × Bucket
  | (p, none) =>
      ((serve (srv.pages n w.objects.keys p)).1,
        { w with pending := (serve (srv.pages n w.objects.keys p)).2 })
  | (_, some t) =>
      match w.pending with
      | some (t', rest) =>
          if t = t' then ((serve rest).1, { w with pending := (serve rest).2 }) else (badRequest, w)
      | none => (badRequest, w)

/-- The answer to a request for an object. -/
def object (w : Bucket) (method : Method) (url : Str) (body : Bytes) (key : Str) :
    Response × Bucket :=
  match method with
  | .get =>
      match w.objects.get? key with
      | some data => (⟨ok, data⟩, w)
      | none => (⟨notFound, srv.note .get url⟩, w)
  | .put => (⟨created, srv.note .put url⟩, { w with objects := w.objects.set key body })
  | .head => (⟨if key ∈ w.objects then ok else notFound, srv.note .head url⟩, w)
  | .delete => (⟨deleted, srv.note .delete url⟩, { w with objects := w.objects.erase key })

def answer (bucket : Str) (n : Nat) (w : Bucket) (method : Method) (url : Str) (body : Bytes) :
    Response × Bucket :=
  match listRequest bucket url with
  | some r => if method = .get then srv.list n w r else (badRequest, w)
  | none =>
      match objectKey bucket url with
      | some key => srv.object w method url body key
      | none => (badRequest, w)

/-- The bucket, and how many signatures and requests there were. -/
def handler (bucket : Str) : Handler http (Bucket × Nat)
  | w, .openClient => ((), w)
  | w, .closeClient => ((), w)
  | w, .sign method url body _ _ => (srv.signs w.2 method url body, w.1, w.2 + 1)
  | w, .send method url body _ =>
      match srv.refuses w.2 method url with
      | some r => (r, w.1, w.2 + 1)
      | none =>
          (.ok (srv.answer bucket w.2 w.1 method url body).1,
            (srv.answer bucket w.2 w.1 method url body).2, w.2 + 1)

end ObjectServer

end S3

namespace S3Blob

/-! ## One request -/

section Requests

variable {expat : Expat} {srv : ObjectServer expat} {b : S3Blob} {w : Bucket} {n : Nat}

/-- A request that does not come through is a `BlobError`, and one that is refused has a status that
says so; otherwise it is answered. -/
theorem wp_request {method : Method} {url : Str} {body : Bytes}
    {Q : Outcome PyExc Response → Unit → Bucket × Nat → Prop}
    (hfailed : ∀ text n', ¬ srv.Faultless → Q (.error (.blobError text)) () (w, n'))
    (hrefused : ∀ resp n', ¬ srv.Faultless → resp.status ∉ method.understood →
      Q (.ok resp) () (w, n'))
    (hanswered : ∀ n', Q (.ok (srv.answer b.bucket (n + 1) w method url body).1) ()
      ((srv.answer b.bucket (n + 1) w method url body).2, n')) :
    Program.wp (srv.handler b.bucket) (b.request method url body) Q () (w, n) := by
  unfold request
  rw [Program.wp_bind, Program.wp_call]
  show Program.wp _ (requestFailed (srv.signs n method url body)) _ () (w, n + 1)
  cases hsigned : srv.signs n method url body with
  | error ex =>
      refine hfailed _ _ fun hfaultless => ?_
      obtain ⟨headers, hheaders⟩ := hfaultless.1 n method url body
      rw [hsigned] at hheaders
      cases hheaders
  | ok headers =>
      rw [requestFailed, Program.wp_pure, Program.bindPost_ok, Program.wp_call]
      unfold ObjectServer.handler
      dsimp only
      cases hrefuses : srv.refuses (n + 1) method url with
      | none => exact hanswered _
      | some r =>
          have hfaulty : ¬ srv.Faultless := by
            intro hfaultless
            rw [hfaultless.2] at hrefuses
            cases hrefuses
          cases r with
          | error ex => exact hfailed _ _ hfaulty
          | ok resp => exact hrefused _ _ hfaulty (srv.refuses_status _ _ _ _ hrefuses)

/-- A client around a program is not seen by the server. -/
theorem wp_withClient {α : Type} {p : S3Prog α} {Q : Outcome PyExc α → Unit → Bucket × Nat → Prop}
    {w : Bucket × Nat} : Program.wp (srv.handler b.bucket) (withClient p) Q () w ↔
      Program.wp (srv.handler b.bucket) p Q () w := by
  have hpost : Program.finallyPost (srv.handler b.bucket) closeClient Q = Q := by
    funext o s w
    cases o <;> rfl
  unfold withClient
  rw [Program.wp_bind]
  show Program.wp _ (p.tryFinally closeClient) Q () w ↔ _
  rw [Program.wp_tryFinally, hpost]

end Requests

/-! ## The objects of a blob -/

/-- None of the segments of the joined key is `.` or `..`, and the key is not empty. -/
def Plain (b : S3Blob) (key : Str) : Prop :=
  key ≠ [] ∧ NoDotSegment (b.joinedKey key)

section Objects

variable {expat : Expat} {srv : ObjectServer expat} {b : S3Blob} {o : Origin} {key : Str}

theorem joinedKey_of_ne_nil (hkey : key ≠ []) : b.joinedKey key = b.rawPrefix ++ key := by
  obtain ⟨c, k, rfl⟩ := List.exists_cons_of_ne_nil hkey
  exact joinedKey_cons b c k

/-- The URL of an object is the URL of no listing. -/
theorem listRequest_endpointHost (hend : b.endpoint = o.url) (hb : rxBucket b.bucket = true)
    (key : Str) : listRequest b.bucket (b.endpointHost key) = none := by
  have hpath : urlPath (b.endpointHost key) ≠ '/' :: b.bucket := by
    rw [urlPath_endpointHost hend hb, quote_append, quote_cons_of_safe rfl,
      quote_of_safe (rxBucket_plain hb).1]
    intro h
    have hlength := congrArg List.length h
    simp at hlength
  unfold listRequest
  exact if_neg fun h => hpath h.1

/-- The server finds the joined key in the URL. -/
theorem objectKey_endpointHost (hend : b.endpoint = o.url) (hb : rxBucket b.bucket = true)
    (hkey : b.Plain key) : objectKey b.bucket (b.endpointHost key) = some (b.rawPrefix ++ key) := by
  have hjoined := joinedKey_of_ne_nil (b := b) hkey.1
  have hne : b.joinedKey key ≠ [] := by
    rw [hjoined]
    simp [hkey.1]
  have htarget := ((isolated_endpointHost_iff hend hb key).mpr ⟨hne, hkey.2⟩).2
  have hsplit : '/' :: (b.bucket ++ '/' :: b.joinedKey key) =
      ('/' :: (b.bucket ++ ['/'])) ++ b.joinedKey key := by simp
  unfold objectKey
  dsimp only
  rw [htarget, decode_encode, Option.bind_some, hsplit,
    if_pos (List.isPrefixOf_iff_prefix.mpr (List.prefix_append _ _)), List.drop_left, hjoined]

theorem answer_endpointHost (hend : b.endpoint = o.url) (hb : rxBucket b.bucket = true)
    (hkey : b.Plain key) (n : Nat) (w : Bucket) (method : Method) (body : Bytes) :
    srv.answer b.bucket n w method (b.endpointHost key) body =
      srv.object w method (b.endpointHost key) body (b.rawPrefix ++ key) := by
  unfold ObjectServer.answer
  rw [listRequest_endpointHost hend hb, objectKey_endpointHost hend hb hkey]

end Objects

end S3Blob

end GufoBlob
