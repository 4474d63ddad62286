import GufoBlob.Interaction.Traces
import GufoBlob.S3.Tenants

/-!
# The requests of a call

What a call of an `S3Blob` does with its HTTP clients, whatever these and the clock answer. A request
is signed and then sent as it was signed, or not sent when it could not be signed (`Exchange`); the
requests stand between the opening and the closing of a client (`Sessions`).

* `clients_closed` — so they do in every run of calls.
* `errors_unified` — what a call returns or raises, in terms of the answers that it got: `KeyError`
  when the last one said that the object is not there, and otherwise a value or a `BlobError`.
-/

namespace GufoBlob

open Text Interaction S3

namespace S3

/-- A request, and what became of it. -/
structure Request where
  method : Method
  url : Str
  result : Except String Response

/-- Opens a client. -/
def opened : Entry http := ⟨.openClient, ()⟩

/-- Closes a client. -/
def closed : Entry http := ⟨.closeClient, ()⟩

end S3

namespace S3Blob

/-- A request is signed, and sent with its signature. -/
inductive Exchange (b : S3Blob) : Request → List (Entry http) → Prop where
  | unsigned (method : Method) (url : Str) (body : Bytes) (ex : String) :
      Exchange b ⟨method, url, .error ex⟩
        [⟨.sign method url body b.region (b.accessKey, b.secretKey), .error ex⟩]
  | sent (method : Method) (url : Str) (body : Bytes) (headers : Headers)
      (r : Except String Response) :
      Exchange b ⟨method, url, r⟩
        [⟨.sign method url body b.region (b.accessKey, b.secretKey), .ok headers⟩,
          ⟨.send method url body headers, r⟩]

/-- Requests one after the other. -/
inductive Exchanges (b : S3Blob) : List Request → List (Entry http) → Prop where
  | nil : Exchanges b [] []
  | cons {q : Request} {qs : List Request} {l l' : List (Entry http)} :
      Exchange b q l → Exchanges b qs l' → Exchanges b (q :: qs) (l ++ l')

/-- Clients one after the other, each with its requests. -/
inductive Sessions (b : S3Blob) : List (List Request) → List (Entry http) → Prop where
  | nil : Sessions b [] []
  | cons {qs : List Request} {qss : List (List Request)} {l l' : List (Entry http)} :
      Exchanges b qs l → Sessions b qss l' → Sessions b (qs :: qss) (opened :: (l ++ closed :: l'))

variable {b : S3Blob} {l l' : List (Entry http)}

theorem Exchanges.append {qs qs' : List Request} (h : Exchanges b qs l) (h' : Exchanges b qs' l') :
    Exchanges b (qs ++ qs') (l ++ l') := by
  induction h with
  | nil => exact h'
  | cons hq _ ih =>
      rw [List.append_assoc]
      exact .cons hq ih

theorem Exchange.single {q : Request} (h : Exchange b q l) : Exchanges b [q] l := by
  have hcons := Exchanges.cons h .nil
  rwa [List.append_nil] at hcons

theorem Sessions.append {qss qss' : List (List Request)} (h : Sessions b qss l)
    (h' : Sessions b qss' l') : Sessions b (qss ++ qss') (l ++ l') := by
  induction h with
  | nil => exact h'
  | cons hqs _ ih =>
      rw [List.cons_append, List.cons_append, List.append_assoc, List.cons_append]
      exact .cons hqs ih

theorem Exchanges.session {qs : List Request} (h : Exchanges b qs l) :
    Sessions b [qs] (opened :: (l ++ [closed])) := .cons h .nil

/-! ## One request -/

/-- The last request got this answer. -/
def EndedWith (qs : List Request) (method : Method) (status : Nat) : Prop :=
  ∃ url body, qs.getLast? = some ⟨method, url, .ok ⟨status, body⟩⟩

/-- What `_request` makes of the result. -/
def arrived : Except String Response → Outcome PyExc Response
  | .ok resp => .ok resp
  | .error ex => .error (.blobError ("S3 request failed: " ++ ex))

theorem shows_requestFailed {α : Type} {r : Except String α} {s s' : Unit} {o : Outcome PyExc α}
    (h : (requestFailed r).Shows s l o s') :
    l = [] ∧ ((∃ a, r = .ok a ∧ o = .ok a) ∨ ∃ ex, r = .error ex ∧
      o = .error (.blobError ("S3 request failed: " ++ ex))) := by
  cases r with
  | ok a => exact ⟨h.1, .inl ⟨a, rfl, h.2.1⟩⟩
  | error ex => exact ⟨h.1, .inr ⟨ex, rfl, h.2.1⟩⟩

theorem shows_request {method : Method} {url : Str} {body : Bytes} {s s' : Unit}
    {o : Outcome PyExc Response} (h : (b.request method url body).Shows s l o s') :
    ∃ r, Exchange b ⟨method, url, r⟩ l ∧ o = arrived r := by
  rcases Program.shows_bind h with ⟨headers, s₁, l₁, l₂, ⟨r, l₃, rfl, hsign⟩, ⟨r', l₄, rfl, hsend⟩, rfl⟩ |
    ⟨e, ⟨r, l₃, rfl, hsign⟩, rfl⟩ | ⟨⟨r, l₃, rfl, hsign⟩, rfl⟩
  · obtain ⟨rfl, ⟨a, rfl, ha⟩ | ⟨ex, -, hno⟩⟩ := shows_requestFailed hsign
    · obtain rfl := Outcome.ok.inj ha
      obtain ⟨rfl, ⟨resp, rfl, rfl⟩ | ⟨ex, rfl, rfl⟩⟩ := shows_requestFailed hsend
      · exact ⟨.ok resp, .sent method url body headers _, rfl⟩
      · exact ⟨.error ex, .sent method url body headers _, rfl⟩
    · cases hno
  · obtain ⟨rfl, ⟨a, -, hno⟩ | ⟨ex, rfl, hex⟩⟩ := shows_requestFailed hsign
    · cases hno
    · obtain rfl := Outcome.error.inj hex
      exact ⟨.error ex, .unsigned method url body ex, rfl⟩
  · obtain ⟨-, ⟨a, -, hno⟩ | ⟨ex, -, hno⟩⟩ := shows_requestFailed hsign <;> cases hno

/-- A request that has an answer, and what follows; or one that has none. -/
theorem shows_request_bind {α : Type} {method : Method} {url : Str} {body : Bytes}
    {k : Response → S3Prog α} {s s' : Unit} {o : Outcome PyExc α}
    (h : ((b.request method url body).bind k).Shows s l o s') :
    (∃ resp l₁ l₂, Exchange b ⟨method, url, .ok resp⟩ l₁ ∧ (k resp).Shows () l₂ o s' ∧
        l = l₁ ++ l₂) ∨
      ∃ ex, Exchange b ⟨method, url, .error ex⟩ l ∧
        o = .error (.blobError ("S3 request failed: " ++ ex)) := by
  rcases Program.shows_bind h with ⟨resp, s₁, l₁, l₂, hreq, hrest, rfl⟩ | ⟨e, hreq, rfl⟩ |
    ⟨hreq, rfl⟩
  · obtain ⟨r, hexchange, hr⟩ := shows_request hreq
    cases r with
    | ok resp' =>
        obtain rfl := Outcome.ok.inj hr
        exact .inl ⟨resp, l₁, l₂, hexchange, hrest, rfl⟩
    | error ex => cases hr
  · obtain ⟨r, hexchange, hr⟩ := shows_request hreq
    cases r with
    | ok resp' => cases hr
    | error ex => exact .inr ⟨ex, hexchange, congrArg Outcome.error (Outcome.error.inj hr)⟩
  · obtain ⟨r, -, hr⟩ := shows_request hreq
    cases r <;> cases hr

/-- A client around a program is closed, however the program ends. -/
theorem shows_withClient {α : Type} {p : S3Prog α} {s s' : Unit} {o : Outcome PyExc α}
    (h : (withClient p).Shows s l o s') :
    ∃ l₁, p.Shows s l₁ o s' ∧ (o ≠ .spun → l = opened :: (l₁ ++ [closed])) := by
  obtain ⟨r, l', rfl, hrest⟩ := h
  rcases Program.shows_tryFinally hrest with ⟨l₁, r', hp, -, rfl⟩ | ⟨hp, rfl⟩
  · exact ⟨l₁, hp, fun _ => rfl⟩
  · exact ⟨l', hp, fun hne => absurd rfl hne⟩

/-! ## The calls on an object -/

/-- The call got the answer that lets it return. -/
def Accepted (qs : List Request) : Call → Prop
  | .open' => qs = []
  | .close => qs = []
  | .put _ _ => EndedWith qs .put created
  | .get _ => EndedWith qs .get ok
  | .delete _ => EndedWith qs .delete deleted
  | .exists' _ => EndedWith qs .head ok ∨ EndedWith qs .head notFound
  | .scan _ => EndedWith qs .get ok

/-- The server said that the object is not there, where the call tells it so. -/
def Missing (qs : List Request) (key : Str) (c : Call) : Prop :=
  (c = .get key ∧ EndedWith qs .get notFound) ∨ (c = .delete key ∧ EndedWith qs .head notFound)

/-- How a call ends that has made the requests `qs`. Every page of a listing may also be one that
cannot be read. -/
structure Verdict (c : Call) (qs : List Request) (o : Outcome PyExc Value) : Prop where
  returned : (∃ v, o = .ok v) → Accepted qs c
  accepted : Accepted qs c → (∃ v, o = .ok v) ∨ ∃ pre, c = .scan pre
  missing : ∀ key, o = .error (.keyError key) ↔ Missing qs key c
  failed : ∀ e, o = .error e → (∃ text, e = .blobError text) ∨ ∃ key, e = .keyError key
  ended : o = .spun → ∃ pre, c = .scan pre

theorem ok_ne_notFound : ok ≠ notFound := by decide

/-- The outcome with its value changed. -/
def mapped {α : Type} (v : α → Value) : Outcome PyExc α → Outcome PyExc Value
  | .ok a => .ok (v a)
  | .error e => .error e
  | .spun => .spun

theorem shows_map {α : Type} {p : S3Prog α} {v : α → Value} {s s' : Unit} {o : Outcome PyExc Value}
    (h : (p.bind fun a => .pure (v a)).Shows s l o s') : ∃ o₁, p.Shows s l o₁ s' ∧ o = mapped v o₁ := by
  rcases Program.shows_bind h with ⟨a, s₁, l₁, l₂, hp, ⟨rfl, rfl, rfl⟩, rfl⟩ | ⟨e, hp, rfl⟩ | ⟨hp, rfl⟩
  · rw [List.append_nil]
    exact ⟨_, hp, rfl⟩
  · exact ⟨_, hp, rfl⟩
  · exact ⟨_, hp, rfl⟩

/-- The outcome of a program that makes a request and says at once what it makes of the response. -/
def settled {α : Type} (f : Response → Except PyExc α) : Except String Response → Outcome PyExc α
  | .ok resp => .ofExcept (f resp)
  | .error ex => .error (.blobError ("S3 request failed: " ++ ex))

theorem shows_single {α : Type} {method : Method} {url : Str} {body : Bytes}
    {f : Response → Except PyExc α} {s s' : Unit} {o : Outcome PyExc α}
    (h : (withClient ((b.request method url body).bind fun resp =>
      Program.ofExcept (f resp))).Shows s l o s') :
    ∃ r, Sessions b [[⟨method, url, r⟩]] l ∧ o = settled f r := by
  obtain ⟨l₁, hp, hl⟩ := shows_withClient h
  rcases shows_request_bind hp with ⟨resp, l₂, l₃, hexchange, hrest, rfl⟩ | ⟨ex, hexchange, rfl⟩
  · obtain ⟨rfl, rfl, -⟩ := Program.shows_ofExcept.mp hrest
    rw [List.append_nil] at hl
    rw [hl (Outcome.ofExcept_ne_spun _)]
    exact ⟨.ok resp, hexchange.single.session, rfl⟩
  · rw [hl (by simp)]
    exact ⟨.error ex, hexchange.single.session, rfl⟩

@[simp] theorem endedWith_single {m method : Method} {url : Str} {r : Except String Response}
    {status : Nat} : EndedWith [⟨m, url, r⟩] method status ↔
      m = method ∧ ∃ body, r = .ok ⟨status, body⟩ := by
  constructor
  · rintro ⟨url', body, h⟩
    obtain ⟨rfl, -, rfl⟩ := Request.mk.inj (Option.some.inj h)
    exact ⟨rfl, body, rfl⟩
  · rintro ⟨rfl, body, rfl⟩
    exact ⟨url, body, rfl⟩

section Verdicts

variable {expat : Expat} {key : Str} {s s' : Unit} {o : Outcome PyExc Value}

theorem verdict_put {data : Bytes}
    (h : ((b.put expat key data).bind fun _ => .pure Value.none).Shows s l o s') :
    ∃ qs, Sessions b [qs] l ∧ Verdict (.put key data) qs o := by
  obtain ⟨o₁, hput, rfl⟩ := shows_map h
  obtain ⟨r, hsessions, rfl⟩ := shows_single hput
  refine ⟨_, hsessions, ?_⟩
  cases r with
  | error ex => constructor <;> simp [Accepted, Missing, settled, mapped]
  | ok resp =>
      obtain ⟨status, content⟩ := resp
      obtain ⟨text, htext⟩ := errorFromXml_eq expat content
      by_cases hstatus : status = created
      · constructor <;> simp [Accepted, Missing, settled, mapped, Outcome.ofExcept, putResult, hstatus]
      · constructor <;> simp [Accepted, Missing, settled, mapped, Outcome.ofExcept, putResult, hstatus, htext]

theorem verdict_get (h : ((b.get expat key).bind fun d => .pure (Value.data d)).Shows s l o s') :
    ∃ qs, Sessions b [qs] l ∧ Verdict (.get key) qs o := by
  obtain ⟨o₁, hget, rfl⟩ := shows_map h
  obtain ⟨r, hsessions, rfl⟩ := shows_single hget
  refine ⟨_, hsessions, ?_⟩
  cases r with
  | error ex => constructor <;> simp [Accepted, Missing, settled, mapped]
  | ok resp =>
      obtain ⟨status, content⟩ := resp
      obtain ⟨text, htext⟩ := errorFromXml_eq expat content
      by_cases hok : status = ok
      · constructor <;> simp [Accepted, Missing, settled, mapped, Outcome.ofExcept, getResult, hok, ok_ne_notFound]
      · by_cases hmissing : status = notFound
        · constructor <;> simp [Accepted, Missing, settled, mapped, Outcome.ofExcept, getResult, hmissing, ok_ne_notFound.symm,
            eq_comm]
        · constructor <;> simp [Accepted, Missing, settled, mapped, Outcome.ofExcept, getResult, hok, hmissing, htext]

theorem verdict_exists
    (h : ((b.exists' expat key).bind fun r => .pure (Value.bool r)).Shows s l o s') :
    ∃ qs, Sessions b [qs] l ∧ Verdict (.exists' key) qs o := by
  obtain ⟨o₁, hexists, rfl⟩ := shows_map h
  obtain ⟨r, hsessions, rfl⟩ := shows_single hexists
  refine ⟨_, hsessions, ?_⟩
  cases r with
  | error ex => constructor <;> simp [Accepted, Missing, settled, mapped]
  | ok resp =>
      obtain ⟨status, content⟩ := resp
      obtain ⟨text, htext⟩ := errorFromXml_eq expat content
      by_cases hok : status = ok
      · constructor <;> simp [Accepted, Missing, settled, mapped, Outcome.ofExcept, existsResult, hok]
      · by_cases hmissing : status = notFound
        · constructor <;> simp [Accepted, Missing, settled, mapped, Outcome.ofExcept, existsResult, hmissing, ok_ne_notFound.symm]
        · constructor <;> simp [Accepted, Missing, settled, mapped, Outcome.ofExcept, existsResult, hok, hmissing, htext]

/-- The last of two requests. -/
@[simp] theorem endedWith_pair {q : Request} {m method : Method} {url : Str}
    {r : Except String Response} {status : Nat} : EndedWith [q, ⟨m, url, r⟩] method status ↔
      m = method ∧ ∃ body, r = .ok ⟨status, body⟩ := endedWith_single

/-- `delete` asks for the object first. -/
theorem verdict_delete
    (h : ((b.delete expat key).bind fun _ => .pure Value.none).Shows s l o s') :
    ∃ qs, Sessions b [qs] l ∧ Verdict (.delete key) qs o := by
  obtain ⟨o₁, hcall, rfl⟩ := shows_map h
  obtain ⟨l₁, hp, hl⟩ := shows_withClient hcall
  rcases shows_request_bind hp with ⟨⟨status, content⟩, l₂, l₃, hhead, hrest, rfl⟩ |
    ⟨ex, hhead, rfl⟩
  · obtain ⟨text, htext⟩ := errorFromXml_eq expat content
    by_cases hmissing : status = notFound
    · rw [if_pos hmissing] at hrest
      obtain ⟨rfl, rfl, -⟩ := hrest
      rw [List.append_nil] at hl
      rw [hl (by simp)]
      refine ⟨_, hhead.single.session, ?_⟩
      constructor <;> simp [Accepted, Missing, mapped, hmissing, eq_comm]
    · rw [if_neg hmissing] at hrest
      by_cases hok : status = ok
      · rw [if_neg (by simpa using hok)] at hrest
        -- the object is there, and its deletion is asked for
        rcases shows_request_bind hrest with ⟨⟨status', content'⟩, l₄, l₅, hdelete, hlast, rfl⟩ |
          ⟨ex, hdelete, rfl⟩
        · obtain ⟨text', htext'⟩ := errorFromXml_eq expat content'
          by_cases hdeleted : status' = deleted
          · rw [if_pos hdeleted] at hlast
            obtain ⟨rfl, rfl, -⟩ := hlast
            rw [List.append_nil] at hl
            rw [hl (by simp)]
            refine ⟨_, (Exchanges.cons hhead hdelete.single).session, ?_⟩
            constructor <;> simp [Accepted, Missing, mapped, hdeleted]
          · rw [if_neg hdeleted, htext'] at hlast
            obtain ⟨rfl, rfl, -⟩ := hlast
            rw [List.append_nil] at hl
            rw [hl (by simp)]
            refine ⟨_, (Exchanges.cons hhead hdelete.single).session, ?_⟩
            constructor <;> simp [Accepted, Missing, mapped, hdeleted]
        · rw [hl (by simp)]
          refine ⟨_, (Exchanges.cons hhead hdelete.single).session, ?_⟩
          constructor <;> simp [Accepted, Missing, mapped]
      · rw [if_pos hok, htext] at hrest
        obtain ⟨rfl, rfl, -⟩ := hrest
        rw [List.append_nil] at hl
        rw [hl (by simp)]
        refine ⟨_, hhead.single.session, ?_⟩
        constructor <;> simp [Accepted, Missing, mapped, hmissing]
  · rw [hl (by simp)]
    refine ⟨_, hhead.single.session, ?_⟩
    constructor <;> simp [Accepted, Missing, mapped]

/-! ## Scans -/

theorem shows_forEach_yield {f : Str → Str} {ks : List Str} {l : List (Entry (http.yielding Str))}
    {o : Outcome PyExc Unit}
    (h : (Program.forEach ks fun k => Program.yield (f k) : S3Gen Unit).Shows s l o s') :
    Program.callsOf l = [] ∧ o = .ok () := by
  induction ks generalizing s l with
  | nil =>
      obtain ⟨rfl, rfl, -⟩ := h
      exact ⟨rfl, rfl⟩
  | cons k ks ih =>
      obtain ⟨r, l', rfl, hrest⟩ := h
      show Program.callsOf l' = [] ∧ o = .ok ()
      exact ih hrest

/-- How the request for a page and the page end. -/
def PageEnds {α : Type} (r : Except String Response) (o : Outcome PyExc α) : Prop :=
  (∃ a content, o = .ok a ∧ r = .ok ⟨ok, content⟩) ∨ ∃ text, o = .error (.blobError text)

theorem shows_page {pre url : Str} {l : List (Entry (http.yielding Str))}
    {o : Outcome PyExc (Option Str)} (h : (b.page expat pre url).Shows s l o s') :
    ∃ r, Exchange b ⟨.get, url, r⟩ (Program.callsOf l) ∧ PageEnds r o := by
  rcases Program.shows_bind h with ⟨⟨status, content⟩, s₁, l₁, l₂, hreq, hrest, rfl⟩ |
    ⟨e, hreq, rfl⟩ | ⟨hreq, rfl⟩
  · obtain ⟨r, hexchange, hr⟩ := shows_request (Program.shows_embed hreq)
    obtain rfl : r = .ok ⟨status, content⟩ := by
      cases r with
      | ok resp => rw [Outcome.ok.inj hr]
      | error ex => cases hr
    rw [Program.callsOf_append]
    by_cases hok : status = ok
    · rw [if_neg (by simpa using hok)] at hrest
      subst hok
      cases hlist : listObjects expat content with
      | error e =>
          obtain ⟨text, rfl⟩ := listObjects_error hlist
          dsimp only at hrest
          rw [hlist] at hrest
          obtain ⟨rfl, rfl, -⟩ := hrest
          rw [Program.callsOf, List.append_nil]
          exact ⟨_, hexchange, .inr ⟨text, rfl⟩⟩
      | ok page =>
          dsimp only at hrest
          rw [hlist] at hrest
          change ((Program.forEach page.1 fun key => Program.yield (b.stripPrefix key)).bind fun _ =>
            .pure (page.2.map (b.nextUrl pre)) : S3Gen (Option Str)).Shows s₁ l₂ o s' at hrest
          rcases Program.shows_bind hrest with ⟨u, s₂, l₃, l₄, hyield, ⟨rfl, rfl, -⟩, rfl⟩ |
            ⟨e, hyield, rfl⟩ | ⟨hyield, rfl⟩
          · rw [List.append_nil, (shows_forEach_yield hyield).1, List.append_nil]
            exact ⟨_, hexchange, .inl ⟨_, content, rfl, rfl⟩⟩
          · cases (shows_forEach_yield hyield).2
          · cases (shows_forEach_yield hyield).2
    · obtain ⟨text, htext⟩ := errorFromXml_eq expat content
      rw [if_pos hok, htext] at hrest
      obtain ⟨rfl, rfl, -⟩ := hrest
      rw [Program.callsOf, List.append_nil]
      exact ⟨_, hexchange, .inr ⟨text, rfl⟩⟩
  · obtain ⟨r, hexchange, hr⟩ := shows_request (Program.shows_embed hreq)
    cases r with
    | ok resp => cases hr
    | error ex =>
        obtain rfl := Outcome.error.inj hr
        exact ⟨_, hexchange, .inr ⟨_, rfl⟩⟩
  · obtain ⟨r, -, hr⟩ := shows_request (Program.shows_embed hreq)
    cases r <;> cases hr

/-- How the loop over the pages ends. -/
def LoopEnds (qs : List Request) (o : Outcome PyExc Unit) : Prop :=
  (o = .ok () ∧ EndedWith qs .get ok) ∨ (∃ text, o = .error (.blobError text)) ∨ o = .spun

theorem EndedWith.append {qs : List Request} {method : Method} {status : Nat}
    (h : EndedWith qs method status) (qs' : List Request) : EndedWith (qs' ++ qs) method status := by
  obtain ⟨url, body, hlast⟩ := h
  refine ⟨url, body, ?_⟩
  rw [List.getLast?_append, hlast]
  rfl

/-- The pages one after the other; `R` is what the calls of a page and of many of them are. -/
theorem shows_loop {R : List (List Request) → List (Entry http) → Prop} (hnil : R [] [])
    (happend : ∀ {x y l l'}, R x l → R y l' → R (x ++ y) (l ++ l'))
    {body : Str → S3Gen (Option Str)}
    (hbody : ∀ url s l o s', (body url).Shows s l o s' →
      ∃ r, R [[⟨.get, url, r⟩]] (Program.callsOf l) ∧ PageEnds r o)
    {fuel : Nat} {url : Str} {l : List (Entry (http.yielding Str))} {o : Outcome PyExc Unit}
    (h : (loop body fuel url).Shows s l o s') :
    ∃ qss, R qss (Program.callsOf l) ∧ LoopEnds qss.flatten o := by
  induction fuel generalizing url s l with
  | zero =>
      obtain ⟨rfl, rfl, -⟩ := h
      exact ⟨[], hnil, .inr (.inr rfl)⟩
  | succ fuel ih =>
      rcases Program.shows_bind h with ⟨next, s₁, l₁, l₂, hpage, hrest, rfl⟩ | ⟨e, hpage, rfl⟩ |
        ⟨hpage, rfl⟩
      · obtain ⟨r, hrel, ⟨a, content, ho, rfl⟩ | ⟨text, ho⟩⟩ := hbody url _ _ _ _ hpage
        · rw [Program.callsOf_append]
          cases next with
          | none =>
              obtain ⟨rfl, rfl, -⟩ := hrest
              rw [Program.callsOf, List.append_nil]
              exact ⟨_, hrel, .inl ⟨rfl, by simp⟩⟩
          | some url' =>
              obtain ⟨qss, hqss, hends⟩ := ih hrest
              refine ⟨_, happend hrel hqss, ?_⟩
              rcases hends with ⟨rfl, hlast⟩ | ⟨text, rfl⟩ | rfl
              · rw [List.flatten_append]
                exact .inl ⟨rfl, hlast.append _⟩
              · exact .inr (.inl ⟨text, rfl⟩)
              · exact .inr (.inr rfl)
        · cases ho
      · obtain ⟨r, hrel, ⟨a, content, ho, -⟩ | ⟨text, ho⟩⟩ := hbody url _ _ _ _ hpage
        · cases ho
        · exact ⟨_, hrel, .inr (.inl ⟨text, congrArg Outcome.error (Outcome.error.inj ho)⟩)⟩
      · obtain ⟨r, hrel, ⟨a, content, ho, -⟩ | ⟨text, ho⟩⟩ := hbody url _ _ _ _ hpage <;> cases ho

/-- A client around a piece of a generator. -/
theorem shows_withClientGen {α : Type} {g : S3Gen α} {l : List (Entry (http.yielding Str))}
    {o : Outcome PyExc α} (h : (withClientGen g).Shows s l o s') :
    ∃ l₁, g.Shows s l₁ o s' ∧
      (o ≠ .spun → Program.callsOf l = opened :: (Program.callsOf l₁ ++ [closed])) := by
  obtain ⟨r, l', rfl, hrest⟩ := h
  have hclose : (g.tryFinally (.call (Sum.inl HttpOp.closeClient) fun _ => .pure ())).Shows s l' o s' :=
    hrest
  rcases Program.shows_tryFinally hclose with ⟨l₁, r', hg, -, rfl⟩ | ⟨hg, rfl⟩
  · refine ⟨l₁, hg, fun _ => ?_⟩
    rw [Program.callsOf, Program.callsOf_append]
    rfl
  · exact ⟨l', hg, fun hne => absurd rfl hne⟩

theorem verdict_loop {pre : Str} {qs : List Request} {o₁ : Outcome PyExc Unit}
    {o₂ : Outcome PyExc (List Str)} (hends : LoopEnds qs o₁) (ho : Program.Collects o₁ o₂) :
    Verdict (.scan pre) qs (mapped Value.keys o₂) := by
  rcases hends with ⟨rfl, hlast⟩ | ⟨text, rfl⟩ | rfl
  · obtain ⟨-, ks, rfl⟩ | ⟨e, he, -⟩ | ⟨he, -⟩ := ho
    · constructor <;> simp [Accepted, Missing, mapped, hlast]
    · cases he
    · cases he
  · obtain ⟨he, -⟩ | ⟨e, he, rfl⟩ | ⟨he, -⟩ := ho
    · cases he
    · obtain rfl := Outcome.error.inj he
      constructor <;> simp [Accepted, Missing, mapped]
    · cases he
  · obtain ⟨he, -⟩ | ⟨e, he, -⟩ | ⟨-, rfl⟩ := ho
    · cases he
    · cases he
    · constructor <;> simp [Accepted, Missing, mapped]

/-- A scan keeps one client for all pages, or opens one for each page. -/
theorem verdict_scan {fuel : Nat} {be : BlobBase http Unit} (hbe : be ∈ backends expat b fuel)
    {pre : Str} (h : ((be.scan pre).collect.bind fun ks => .pure (Value.keys ks)).Shows s l o s') :
    ∃ qss, (o ≠ .spun → Sessions b qss l) ∧ Verdict (.scan pre) qss.flatten o := by
  obtain ⟨o₂, hcollect, rfl⟩ := shows_map h
  obtain ⟨l', o₁, hscan, rfl, ho⟩ := Program.shows_collect hcollect
  rcases List.mem_pair.mp hbe with rfl | rfl
  · obtain ⟨l₁, hloop, hl⟩ := shows_withClientGen hscan
    obtain ⟨qss, hqss, hends⟩ := shows_loop
      (R := fun qss l => Exchanges b qss.flatten l) .nil
      (fun hx hy => by rw [List.flatten_append]; exact hx.append hy)
      (fun url s l o s' hpage => by
        obtain ⟨r, hexchange, hends⟩ := shows_page hpage
        exact ⟨r, hexchange.single, hends⟩) hloop
    refine ⟨[qss.flatten], fun hne => ?_, ?_⟩
    · have hne₁ : o₁ ≠ .spun := by
        rintro rfl
        obtain ⟨he, -⟩ | ⟨e, he, -⟩ | ⟨-, rfl⟩ := ho
        · cases he
        · cases he
        · exact hne rfl
      rw [hl hne₁]
      exact hqss.session
    · rw [List.flatten_singleton]
      exact verdict_loop hends ho
  · obtain ⟨qss, hqss, hends⟩ := shows_loop (R := Sessions b) .nil Sessions.append
      (fun url s l o s' hpage => by
        obtain ⟨l₁, hg, hl⟩ := shows_withClientGen hpage
        obtain ⟨r, hexchange, hends⟩ := shows_page hg
        refine ⟨r, ?_, hends⟩
        have hne : o ≠ .spun := by
          rintro rfl
          obtain ⟨a, content, ho, -⟩ | ⟨text, ho⟩ := hends <;> cases ho
        rw [hl hne]
        exact hexchange.single.session) hscan
    exact ⟨qss, fun _ => hqss, verdict_loop hends ho⟩

end Verdicts

/-! ## Calls and runs -/

section Runs

variable {expat : Expat} {fuel : Nat} {be : BlobBase http Unit}

theorem verdict_of_shows (hbe : be ∈ backends expat b fuel) {c : Call} {s s' : Unit}
    {o : Outcome PyExc Value} (h : (be.perform c).Shows s l o s') :
    ∃ qss, (o ≠ .spun → Sessions b qss l) ∧ Verdict c qss.flatten o := by
  have hidle : ∀ c, c = .open' ∨ c = .close → l = [] → o = .ok .none →
      ∃ qss, (o ≠ .spun → Sessions b qss l) ∧ Verdict c qss.flatten o := by
    rintro c hc rfl rfl
    refine ⟨[], fun _ => .nil, ?_⟩
    rcases hc with rfl | rfl <;> constructor <;> simp [Accepted, Missing]
  have hsingle : ∀ {c}, (∃ qs, Sessions b [qs] l ∧ Verdict c qs o) →
      ∃ qss, (o ≠ .spun → Sessions b qss l) ∧ Verdict c qss.flatten o := by
    rintro c ⟨qs, hsessions, hverdict⟩
    exact ⟨[qs], fun _ => hsessions, by rwa [List.flatten_singleton]⟩
  cases c with
  | scan pre => exact verdict_scan hbe h
  | open' => rcases List.mem_pair.mp hbe with rfl | rfl <;> exact hidle _ (.inl rfl) h.1 h.2.1
  | close => rcases List.mem_pair.mp hbe with rfl | rfl <;> exact hidle _ (.inr rfl) h.1 h.2.1
  | put key data => rcases List.mem_pair.mp hbe with rfl | rfl <;> exact hsingle (verdict_put h)
  | get key => rcases List.mem_pair.mp hbe with rfl | rfl <;> exact hsingle (verdict_get h)
  | delete key => rcases List.mem_pair.mp hbe with rfl | rfl <;> exact hsingle (verdict_delete h)
  | exists' key => rcases List.mem_pair.mp hbe with rfl | rfl <;> exact hsingle (verdict_exists h)

variable {W : Type}

/-- **What a call of an `S3Blob` may return or raise**, whatever its HTTP clients, the clock and the
XML parser do: it returns when the last request was accepted, raises `KeyError` exactly when a `get`
or the question of a `delete` was answered with 404, and raises `BlobError` otherwise. -/
theorem errors_unified (hbe : be ∈ backends expat b fuel) (h : Handler http W) (c : Call) (w : W) :
    let r := (be.perform c).run (Program.logging h) () (w, [])
    ∃ qss, (r.1 ≠ .spun → Sessions b qss r.2.2.2) ∧ Verdict c qss.flatten r.1 := by
  obtain ⟨l, hl, hshows⟩ := Program.run_logging h (be.perform c) () w []
  rw [List.nil_append] at hl
  intro r
  rw [show r.2.2.2 = l from hl]
  exact verdict_of_shows hbe hshows

/-- The question of a `delete` is answered with 404. -/
theorem errors_unified_absent :
    let r := ((Sync.S3Blob.backend sampleExpat (inBucket []) 1).perform (.delete ['a'])).run
      (Program.logging (sampleServer.handler "abc".toList)) () ((⟨.empty, none⟩, 0), [])
    r.1 = .error (.keyError ['a']) ∧
      ∃ qss, (r.1 ≠ .spun → Sessions (inBucket []) qss r.2.2.2) ∧
        Verdict (.delete ['a']) qss.flatten r.1 :=
  ⟨by decide +kernel, errors_unified (.head _) _ _ _⟩

/-- **Every HTTP client is closed again.** The log of every run of calls that have ended is a row of
sessions: a client is opened, requests are made, each of them signed before it is sent, and the client
is closed, however the calls ended. -/
theorem clients_closed (hbe : be ∈ backends expat b fuel) (h : Handler http W) (cs : List Call)
    (w : W) (hends : .spun ∉ (Program.runCalls (Program.logging h) be.perform cs () (w, [])).1) :
    ∃ qss, Sessions b qss (Program.runCalls (Program.logging h) be.perform cs () (w, [])).2.2.2 := by
  -- the log of the calls that are left comes behind what is there
  have hrest : ∀ (cs : List Call) (w : W) (l : List (Entry http)),
      .spun ∉ (Program.runCalls (Program.logging h) be.perform cs () (w, l)).1 →
      ∃ qss l', (Program.runCalls (Program.logging h) be.perform cs () (w, l)).2.2.2 = l ++ l' ∧
        Sessions b qss l' := by
    intro cs
    induction cs with
    | nil => exact fun w l _ => ⟨[], [], (List.append_nil l).symm, .nil⟩
    | cons c cs ih =>
        intro w l hends
        obtain ⟨l₁, hl₁, hshows⟩ := Program.run_logging h (be.perform c) () w l
        have hne : ((be.perform c).run (Program.logging h) () (w, l)).1 ≠ .spun := by
          intro hspun
          rw [Program.runCalls_cons_of_spun cs hspun] at hends
          exact hends List.mem_cons_self
        rw [Program.runCalls_cons_of_ne hne] at hends ⊢
        obtain ⟨qss₁, hqss₁, -⟩ := verdict_of_shows hbe hshows
        obtain ⟨qss₂, l₂, hl₂, hqss₂⟩ := ih _ _ fun hspun => hends (List.mem_cons_of_mem _ hspun)
        refine ⟨qss₁ ++ qss₂, l₁ ++ l₂, ?_, (hqss₁ hne).append hqss₂⟩
        rw [← List.append_assoc, ← hl₁]
        exact hl₂
  obtain ⟨qss, l', hl', hqss⟩ := hrest cs w [] hends
  rw [List.nil_append] at hl'
  rw [hl']
  exact ⟨qss, hqss⟩

/-- The calls of a sample run. -/
def someCalls : List Call := [.put ['a'] [1], .scan [], .delete ['b'], .get ['a']]

theorem clients_closed_some :
    ∃ qss, Sessions (inBucket ['q']) qss (Program.runCalls
      (Program.logging (sampleServer.handler "abc".toList))
      (Sync.S3Blob.backend sampleExpat (inBucket ['q']) 1).perform someCalls ()
      ((⟨.empty, none⟩, 0), [])).2.2.2 :=
  clients_closed (.head _) _ _ _ (by decide +kernel)

end Runs

end S3Blob

end GufoBlob
