import GufoBlob.Base
import GufoBlob.Common.S3
import GufoBlob.Uri.Percent

/-!
# The S3 backend

`S3Blob` of `sync/s3.py` and `aio/s3.py`. The object has no mutable state; what it talks to is an
HTTP client, which it opens and closes around its requests, and `sign_request`, which reads the
clock. The two classes differ in `scan` only: the synchronous one keeps one client for all pages,
the asynchronous one opens a client for each page.

The loop over the pages takes its fuel as an argument.
-/

namespace GufoBlob

open Text Interaction Uri

namespace S3

inductive Method where
  | get
  | put
  | head
  | delete
  deriving DecidableEq

abbrev Headers := List (String × Bytes)

inductive HttpOp where
  | openClient
  | closeClient
  | sign (method : Method) (url : Str) (body : Bytes) (region : Str)
      (credentials : Option Str × Option Str)
  | send (method : Method) (url : Str) (body : Bytes) (headers : Headers)

/-- The client and `sign_request`; an exception is its text. -/
abbrev http : Interface where
  Op := HttpOp
  Ans
    | .openClient => Unit
    | .closeClient => Unit
    | .sign _ _ _ _ _ => Except String Headers
    | .send _ _ _ _ => Except String Response

end S3

open S3

abbrev S3Prog := Program http Unit PyExc

abbrev S3Gen := Gen http Unit PyExc Str

/-- The fields of an `S3Blob`. -/
structure S3Blob where
  bucket : Str
  keyPrefix : Str
  endpoint : Str
  region : Str
  accessKey : Option Str
  secretKey : Option Str

namespace S3Blob

def defaultEndpoint : Str := "https://s3.amazonaws.com".toList

/-- `bool(s)` of an optional string. -/
def truthy (s : Option Str) : Bool := !(s.getD []).isEmpty

/-- `S3Blob(bucket, prefix, endpoint, region, access_key, secret_key)`. -/
def init (bucket keyPrefix endpoint region : Str) (accessKey secretKey : Option Str) :
    Except PyExc S3Blob :=
  if truthy accessKey != truthy secretKey then
    .error (.blobError "access_key and secret_key must be provided together")
  else
    .ok { bucket, keyPrefix, endpoint := if endpoint.isEmpty then defaultEndpoint else endpoint,
          region, accessKey, secretKey }

/-! ## URLs -/

/-- `s.rstrip("/")`. -/
def rstripSlash (s : Str) : Str := (s.reverse.dropWhile fun c => c = '/').reverse

/-- `s.endswith("/")`. -/
def endsWithSlash (s : Str) : Bool := s.getLast? = some '/'

/-- The third argument of `quote` in `_endpoint_host`. -/
def keySafe : List Char := "/-_.~".toList

/-- `full_key` of `_endpoint_host`. -/
def fullKey (b : S3Blob) (key : Str) : Str :=
  if !b.keyPrefix.isEmpty && !endsWithSlash b.keyPrefix then
    if key.isEmpty then b.keyPrefix else b.keyPrefix ++ '/' :: key
  else if !b.keyPrefix.isEmpty then
    if key.isEmpty then b.keyPrefix else b.keyPrefix ++ key
  else key

/-- `_endpoint_host`. -/
def endpointHost (b : S3Blob) (key : Str) : Str :=
  let base := rstripSlash b.endpoint
  let escapedKey := quote keySafe (b.fullKey key)
  base ++ '/' :: (b.bucket ++ '/' :: escapedKey)

/-- `full` of `_list_url`. -/
def fullPrefix (b : S3Blob) (pre : Str) : Str :=
  if !b.keyPrefix.isEmpty then
    if !endsWithSlash b.keyPrefix then b.keyPrefix ++ '/' :: pre else b.keyPrefix ++ pre
  else pre

/-- `_list_url`. -/
def listUrl (b : S3Blob) (pre : Str) : Str :=
  let base := rstripSlash b.endpoint
  base ++ '/' :: (b.bucket ++ "?list-type=2&prefix=".toList ++ quote [] (b.fullPrefix pre))

/-- The URL of a further page. -/
def nextUrl (b : S3Blob) (pre token : Str) : Str :=
  b.listUrl pre ++ "&continuation-token=".toList ++ quote [] token

/-- `_strip_prefix`. -/
def stripPrefix (b : S3Blob) (key : Str) : Str :=
  if b.keyPrefix.isEmpty then key
  else
    let prefixRaw := if endsWithSlash b.keyPrefix then b.keyPrefix else b.keyPrefix ++ ['/']
    if prefixRaw.isPrefixOf key then key.drop prefixRaw.length else key

/-! ## Requests -/

/-- An exception inside the `try` of `_request`. -/
def requestFailed {α : Type} : Except String α → S3Prog α
  | .ok a => .pure a
  | .error ex => .raise (.blobError ("S3 request failed: " ++ ex))

/-- `_request`. -/
def request (b : S3Blob) (method : Method) (url : Str) (body : Bytes) : S3Prog Response :=
  (Program.call (I := http) (.sign method url body b.region (b.accessKey, b.secretKey))
    requestFailed).bind fun headers =>
  Program.call (I := http) (.send method url body headers) requestFailed

def openClient : S3Prog Unit := .call .openClient fun _ => .pure ()

def closeClient : S3Prog Unit := .call .closeClient fun _ => .pure ()

/-- `with self._client() as client: p`. -/
def withClient {α : Type} (p : S3Prog α) : S3Prog α :=
  openClient.bind fun _ => p.tryFinally closeClient

/-- The same inside a generator. -/
def withClientGen {α : Type} (p : S3Gen α) : S3Gen α :=
  openClient.embed.bind fun _ => p.tryFinally closeClient.embed

section Operations

variable (expat : Expat) (b : S3Blob)

/-- What `put` makes of the response. -/
def putResult (resp : Response) : Except PyExc Unit :=
  if resp.status = created then .ok ()
  else .error (errorFromXml expat resp.content)

def put (key : Str) (data : Bytes) : S3Prog Unit := do
  let url := b.endpointHost key
  withClient do
    let resp ← b.request .put url data
    Program.ofExcept (putResult expat resp)

/-- What `get` makes of the response. -/
def getResult (key : Str) (resp : Response) : Except PyExc Bytes :=
  if resp.status = ok then .ok resp.content
  else if resp.status = notFound then .error (.keyError key)
  else .error (errorFromXml expat resp.content)

def get (key : Str) : S3Prog Bytes := do
  let url := b.endpointHost key
  withClient do
    let resp ← b.request .get url []
    Program.ofExcept (getResult expat key resp)

def delete (key : Str) : S3Prog Unit := do
  let url := b.endpointHost key
  withClient do
    let check ← b.request .head url []
    if check.status = notFound then
      .raise (.keyError key)
    else if check.status ≠ ok then
      .raise (errorFromXml expat check.content)
    else do
      let resp ← b.request .delete url []
      if resp.status = deleted then
        return ()
      .raise (errorFromXml expat resp.content)

/-- What `exists` makes of the response. -/
def existsResult (resp : Response) : Except PyExc Bool :=
  if resp.status = ok then .ok true
  else if resp.status = notFound then .ok false
  else .error (errorFromXml expat resp.content)

def exists' (key : Str) : S3Prog Bool := do
  let url := b.endpointHost key
  withClient do
    let resp ← b.request .head url []
    Program.ofExcept (existsResult expat resp)

/-- The body of the loop in `scan`: yields the keys of one page, and returns the URL of the next
one. -/
def page (pre url : Str) : S3Gen (Option Str) := do
  let resp ← (b.request .get url []).embed
  if resp.status ≠ ok then
    .raise (errorFromXml expat resp.content)
  else do
    let (keys, token) ← Program.ofExcept (listObjects expat resp.content)
    Program.forEach keys fun key => Program.yield (b.stripPrefix key)
    return token.map (b.nextUrl pre)

end Operations

/-- `while True` of a scan: the body leaves the URL of the next page, or breaks. -/
def loop (body : Str → S3Gen (Option Str)) : Nat → Str → S3Gen Unit
  | 0, _ => .spin
  | fuel + 1, url => do
      match ← body url with
      | some url => loop body fuel url
      | none => return ()

end S3Blob

namespace Sync.S3Blob

variable (expat : Expat) (b : S3Blob)

def scan (fuel : Nat) (pre : Str) : S3Gen Unit := do
  let url := b.listUrl pre
  S3Blob.withClientGen (S3Blob.loop (b.page expat pre) fuel url)

/-- `gufo.blob.sync.s3.S3Blob`. -/
def backend (fuel : Nat) : BlobBase http Unit where
  put := b.put expat
  get := b.get expat
  delete := b.delete expat
  exists' := b.exists' expat
  scan := scan expat b fuel

end Sync.S3Blob

namespace Aio.S3Blob

variable (expat : Expat) (b : S3Blob)

/-- `_scan_async`. -/
def scan (fuel : Nat) (pre : Str) : S3Gen Unit := do
  let url := b.listUrl pre
  S3Blob.loop (fun url => S3Blob.withClientGen (b.page expat pre url)) fuel url

/-- `gufo.blob.aio.s3.S3Blob`. -/
def backend (fuel : Nat) : BlobBase http Unit where
  put := b.put expat
  get := b.get expat
  delete := b.delete expat
  exists' := b.exists' expat
  scan := scan expat b fuel

end Aio.S3Blob

end GufoBlob
