import GufoBlob.Interaction.Fuel
import GufoBlob.S3.Bucket
import GufoBlob.SharedStore

/-!
# What a call does to the bucket

A call of an `S3Blob` on an `ObjectServer`, with a rule for each method: it does to the objects below
the prefix of the blob what a flat store does, or the server has failed it and it has done nothing
(`Does`). A scan needs fuel for every page of the listing, and more fuel changes nothing
(`extends_perform`).
-/

namespace GufoBlob

open Text Data Interaction Uri Xml S3 FlatStore

namespace S3Blob

/-- A blob of either class. -/
def build (expat : Expat) (b : S3Blob) (async : Bool) (fuel : Nat) : BlobBase http Unit :=
  if async then Aio.S3Blob.backend expat b fuel else Sync.S3Blob.backend expat b fuel

/-- The failures of a server. -/
def failures {expat : Expat} (srv : ObjectServer expat) : Failures := fun _ e =>
  ¬ srv.Faultless ∧ ∃ text, e = .blobError text

/-- The bucket holds the objects `m`, and none of them has the empty key. -/
def Holds (w : Bucket) (m : Contents) : Prop := w.objects.get? = m ∧ ∀ k ∈ w.objects.keys, k ≠ []

/-- A call on plain keys. -/
inductive Allowed (b : S3Blob) : Call → Prop where
  | open' : Allowed b .open'
  | close : Allowed b .close
  | put {key : Str} (data : Bytes) : b.Plain key → Allowed b (.put key data)
  | get {key : Str} : b.Plain key → Allowed b (.get key)
  | delete {key : Str} : b.Plain key → Allowed b (.delete key)
  | exists' {key : Str} : b.Plain key → Allowed b (.exists' key)
  | scan (pre : Str) : Allowed b (.scan pre)

theorem uniform_failures {expat : Expat} (srv : ObjectServer expat) : Uniform (failures srv) :=
  fun _ _ _ he => ⟨he.2, he⟩

section Calls

variable {expat : Expat} {srv : ObjectServer expat} {b : S3Blob} {o : Origin} {w : Bucket}
  {m : Contents} {n : Nat} {key : Str}

/-- What a call may do to the objects `m`. -/
def Does (srv : ObjectServer expat) (b : S3Blob) (m : Contents) (c : Call)
    (out : Outcome PyExc Value) (w : Bucket) : Prop :=
  ∃ m', FlatStore.spec (failures srv) (liftCall b.rawPrefix c) m (liftOutcome b.rawPrefix out) m' ∧
    Holds w m'

theorem does_of_answers {c : Call} {out : Outcome PyExc Value}
    (hanswers : FlatStore.Answers (below b.rawPrefix m) c out)
    (hw : Holds w (contents m (writeOf (liftCall b.rawPrefix c) (liftOutcome b.rawPrefix out)))) :
    Does srv b m c out w :=
  ⟨_, ⟨.inl (answers_lift_iff.mpr hanswers), rfl⟩, hw⟩

theorem does_failed (c : Call) (hw : Holds w m) (hfaulty : ¬ srv.Faultless) (text : String) :
    Does srv b m c (.error (.blobError text)) w := by
  refine ⟨m, ⟨.inr ⟨.blobError text, rfl, hfaulty, text, rfl⟩, ?_⟩, hw⟩
  cases c <;> rfl

/-- The error that the body of a refusal describes. -/
theorem does_refused (c : Call) (hw : Holds w m) (hfaulty : ¬ srv.Faultless) (body : Bytes) :
    Does srv b m c (.error (errorFromXml expat body)) w := by
  obtain ⟨text, htext⟩ := errorFromXml_eq expat body
  rw [htext]
  exact does_failed c hw hfaulty text

theorem notFound_ne_ok : notFound ≠ ok := by decide

/-- Storing an object. -/
theorem Holds.set (hw : Holds w m) (hkey : key ≠ []) (data : Bytes) :
    Holds { w with objects := w.objects.set key data } (contents m [.assign key data]) := by
  refine ⟨by rw [Dict.get?_set_eq, hw.1, contents_assign], fun k hk => ?_⟩
  rw [Dict.keys_set] at hk
  split at hk
  · exact hw.2 k hk
  · rcases List.mem_append.mp hk with hk | hk
    · exact hw.2 k hk
    · rw [List.mem_singleton.mp hk]
      exact hkey

/-- Deleting an object. -/
theorem Holds.erase (hw : Holds w m) (key : Str) :
    Holds { w with objects := w.objects.erase key } (contents m [.remove key]) := by
  refine ⟨by rw [Dict.get?_erase_eq, hw.1, contents_remove], fun k hk => ?_⟩
  exact hw.2 k ((List.filter_sublist.map _).subset hk)

section Objects

variable (hend : b.endpoint = o.url) (hb : rxBucket b.bucket = true) (hkey : b.Plain key)
  (hw : Holds w m)

include hend hb hkey hw

theorem does_put (data : Bytes) :
    Program.wp (srv.handler b.bucket) ((b.put expat key data).bind fun _ => .pure Value.none)
      (fun out _ w' => Does srv b m (.put key data) out w'.1) () (w, n) := by
  unfold put
  rw [Program.wp_bind, wp_withClient, Program.bind_eq, Program.wp_bind]
  apply wp_request
  · exact fun text _ hfaulty => does_failed _ hw hfaulty text
  · intro resp _ hfaulty hstatus
    have hne : resp.status ≠ created := by simpa [Method.understood] using hstatus
    rw [Program.bindPost_ok, putResult, if_neg hne]
    exact does_refused _ hw hfaulty _
  · intro n'
    rw [Program.bindPost_ok, putResult, answer_endpointHost hend hb hkey, ObjectServer.object, if_pos rfl]
    have hne : b.rawPrefix ++ key ≠ [] := by simp [hkey.1]
    exact does_of_answers rfl (hw.set hne data)

theorem does_get :
    Program.wp (srv.handler b.bucket) ((b.get expat key).bind fun d => .pure (Value.data d))
      (fun out _ w' => Does srv b m (.get key) out w'.1) () (w, n) := by
  have hanswer : below b.rawPrefix m key = w.objects.get? (b.rawPrefix ++ key) :=
    congrFun hw.1.symm _
  unfold get
  rw [Program.wp_bind, wp_withClient, Program.bind_eq, Program.wp_bind]
  apply wp_request
  · exact fun text _ hfaulty => does_failed _ hw hfaulty text
  · intro resp _ hfaulty hstatus
    have hne : resp.status ≠ ok ∧ resp.status ≠ notFound := by
      simpa [Method.understood] using hstatus
    rw [Program.bindPost_ok, getResult, if_neg hne.1, if_neg hne.2]
    exact does_refused _ hw hfaulty _
  · intro n'
    rw [Program.bindPost_ok, getResult, answer_endpointHost hend hb hkey]
    cases hd : w.objects.get? (b.rawPrefix ++ key) with
    | none =>
        have hobject : srv.object w .get (b.endpointHost key) [] (b.rawPrefix ++ key) =
            (⟨notFound, srv.note .get (b.endpointHost key)⟩, w) := by
          simp [ObjectServer.object, hd]
        rw [hobject, if_neg notFound_ne_ok, if_pos rfl]
        have hanswers : FlatStore.Answers (below b.rawPrefix m) (.get key) (.error (.keyError key)) := by
          simp [FlatStore.Answers, hanswer, hd]
        exact does_of_answers hanswers hw
    | some d =>
        have hobject : srv.object w .get (b.endpointHost key) [] (b.rawPrefix ++ key) =
            (⟨ok, d⟩, w) := by
          simp [ObjectServer.object, hd]
        rw [hobject, if_pos rfl]
        have hanswers : FlatStore.Answers (below b.rawPrefix m) (.get key) (.ok (.data d)) := by
          simp [FlatStore.Answers, hanswer, hd]
        exact does_of_answers hanswers hw

theorem does_exists :
    Program.wp (srv.handler b.bucket) ((b.exists' expat key).bind fun r => .pure (Value.bool r))
      (fun out _ w' => Does srv b m (.exists' key) out w'.1) () (w, n) := by
  have hanswer : (below b.rawPrefix m key).isSome ↔ b.rawPrefix ++ key ∈ w.objects := by
    rw [← Dict.isSome_get?_iff, hw.1]
    rfl
  unfold exists'
  rw [Program.wp_bind, wp_withClient, Program.bind_eq, Program.wp_bind]
  apply wp_request
  · exact fun text _ hfaulty => does_failed _ hw hfaulty text
  · intro resp _ hfaulty hstatus
    have hne : resp.status ≠ ok ∧ resp.status ≠ notFound := by
      simpa [Method.understood] using hstatus
    rw [Program.bindPost_ok, existsResult, if_neg hne.1, if_neg hne.2]
    exact does_refused _ hw hfaulty _
  · intro n'
    rw [Program.bindPost_ok, existsResult, answer_endpointHost hend hb hkey, ObjectServer.object]
    by_cases hmem : b.rawPrefix ++ key ∈ w.objects
    · rw [if_pos hmem, if_pos rfl]
      have hanswers : FlatStore.Answers (below b.rawPrefix m) (.exists' key) (.ok (.bool true)) := by
        simp [FlatStore.Answers, hanswer.mpr hmem]
      exact does_of_answers hanswers hw
    · have hnone : below b.rawPrefix m key = none :=
        Option.not_isSome_iff_eq_none.mp fun h => hmem (hanswer.mp h)
      rw [if_neg hmem, if_neg notFound_ne_ok, if_pos rfl]
      have hanswers : FlatStore.Answers (below b.rawPrefix m) (.exists' key) (.ok (.bool false)) := by
        simp [FlatStore.Answers, hnone]
      exact does_of_answers hanswers hw

/-- `delete` asks whether the object is there, and then deletes it. -/
theorem does_delete :
    Program.wp (srv.handler b.bucket) ((b.delete expat key).bind fun _ => .pure Value.none)
      (fun out _ w' => Does srv b m (.delete key) out w'.1) () (w, n) := by
  have hanswer : (below b.rawPrefix m key).isSome ↔ b.rawPrefix ++ key ∈ w.objects := by
    rw [← Dict.isSome_get?_iff, hw.1]
    rfl
  unfold delete
  rw [Program.wp_bind, wp_withClient, Program.bind_eq, Program.wp_bind]
  apply wp_request
  · exact fun text _ hfaulty => does_failed _ hw hfaulty text
  · intro resp _ hfaulty hstatus
    have hne : resp.status ≠ ok ∧ resp.status ≠ notFound := by
      simpa [Method.understood] using hstatus
    rw [Program.bindPost_ok, if_neg hne.2, if_pos hne.1]
    exact does_refused _ hw hfaulty _
  · intro n'
    rw [Program.bindPost_ok, answer_endpointHost hend hb hkey, ObjectServer.object]
    by_cases hmem : b.rawPrefix ++ key ∈ w.objects
    · obtain ⟨d, hd⟩ := Option.isSome_iff_exists.mp (hanswer.mpr hmem)
      rw [if_pos hmem, if_neg notFound_ne_ok.symm, if_neg (by simp), Program.bind_eq, Program.wp_bind]
      apply wp_request
      · exact fun text _ hfaulty => does_failed _ hw hfaulty text
      · intro resp _ hfaulty hstatus
        have hne : resp.status ≠ deleted := by simpa [Method.understood] using hstatus
        rw [Program.bindPost_ok, if_neg hne]
        exact does_refused _ hw hfaulty _
      · intro n''
        rw [Program.bindPost_ok, answer_endpointHost hend hb hkey, ObjectServer.object, if_pos rfl]
        have hanswers : FlatStore.Answers (below b.rawPrefix m) (.delete key) (.ok .none) := by
          simp [FlatStore.Answers, hd]
        exact does_of_answers hanswers (hw.erase (b.rawPrefix ++ key))
    · have hnone : below b.rawPrefix m key = none :=
        Option.not_isSome_iff_eq_none.mp fun h => hmem (hanswer.mp h)
      rw [if_neg hmem, if_pos rfl]
      have hanswers : FlatStore.Answers (below b.rawPrefix m) (.delete key)
          (.error (.keyError key)) := by
        simp [FlatStore.Answers, hnone]
      exact does_of_answers hanswers hw

end Objects

/-! ## Listings -/

/-- One page: it fails, or its keys are yielded without the prefix and its token leads to the next
URL. -/
theorem wp_page_bucket {p : Page} {rest : List Page} (hp : p.Faithful expat)
    (hkeys : ∀ k ∈ p.keys, k ≠ []) (hnext : ∀ t, p.next = some t → t ≠ []) {pre url : Str}
    {xs : List Str} (hurl : srv.answer b.bucket (n + 1) w .get url [] =
      ((serve (p :: rest)).1, { w with pending := (serve (p :: rest)).2 }))
    {Q : Outcome PyExc (Option Str) → Unit → (Bucket × Nat) × List Str → Prop}
    (hfailed : ∀ text n', ¬ srv.Faultless → Q (.error (.blobError text)) () ((w, n'), xs))
    (hpage : ∀ n', Q (.ok (p.next.map (b.nextUrl pre))) ()
      (({ w with pending := p.next.map fun t => (t, rest) }, n'), xs ++ p.keys.map b.stripPrefix)) :
    Program.wp (Program.collecting (srv.handler b.bucket)) (b.page expat pre url) Q ()
      ((w, n), xs) := by
  obtain ⟨evs, doc, hexpat, hevs, hleaves, hselect, htoken⟩ := hp
  have hlist := listObjects_of_document hexpat hevs hleaves (by rw [hselect]; exact hkeys)
  have hresult : listObjects expat p.body = .ok (p.keys, p.next) := by
    rw [hlist, hselect, htoken]
    cases hn : p.next with
    | none => rfl
    | some t => simp [hnext t hn]
  unfold page
  rw [Program.bind_eq, Program.wp_bind, Program.wp_embed]
  apply wp_request
  · exact hfailed
  · intro resp n' hfaulty hstatus
    have hne : resp.status ≠ ok ∧ resp.status ≠ notFound := by
      simpa [Method.understood] using hstatus
    obtain ⟨text, htext⟩ := errorFromXml_eq expat resp.content
    rw [Program.bindPost_ok, if_pos hne.1, htext]
    exact hfailed text n' hfaulty
  · intro n'
    rw [hurl]
    have hok := hpage n'
    simpa [serve, hresult, Program.ofExcept, Program.wp_forEach_yield] using hok

/-- The loop of a scan, from any page on: with fuel for every page it fails, or yields all their
keys and returns. -/
theorem wp_loop_bucket (hend : b.endpoint = o.url) (hb : rxBucket b.bucket = true) {pre : Str}
    {body : Str → S3Gen (Option Str)}
    (hbody : ∀ url w (Q : Outcome PyExc (Option Str) → Unit → (Bucket × Nat) × List Str → Prop),
      Program.wp (Program.collecting (srv.handler b.bucket)) (body url) Q () w ↔
        Program.wp (Program.collecting (srv.handler b.bucket)) (b.page expat pre url) Q () w)
    {ps : List Page} (hgood : Good expat ps) {fuel : Nat} (hfuel : ps.length ≤ fuel) {url : Str}
    (hurl : srv.answer b.bucket (n + 1) w .get url [] =
      ((serve ps).1, { w with pending := (serve ps).2 })) {xs : List Str}
    {Q : Outcome PyExc Unit → Unit → (Bucket × Nat) × List Str → Prop}
    (hfailed : ∀ text w' xs', ¬ srv.Faultless → w'.1.objects = w.objects →
      Q (.error (.blobError text)) () (w', xs'))
    (hlisted : ∀ w', w'.1.objects = w.objects →
      Q (.ok ()) () (w', xs ++ (ps.flatMap Page.keys).map b.stripPrefix)) :
    Program.wp (Program.collecting (srv.handler b.bucket)) (loop body fuel url) Q ()
      ((w, n), xs) := by
  induction fuel generalizing ps url w n xs with
  | zero =>
      obtain rfl := List.length_eq_zero_iff.mp (Nat.le_zero.mp hfuel)
      exact absurd hgood.linked id
  | succ fuel ih =>
      cases ps with
      | nil => exact absurd hgood.linked id
      | cons p rest =>
          rw [loop, Program.bind_eq, Program.wp_bind, hbody]
          apply wp_page_bucket (hgood.faithful p List.mem_cons_self)
            (hgood.keys_ne p List.mem_cons_self) hgood.next_ne hurl
          · exact fun text n' hfaulty => hfailed text _ _ hfaulty rfl
          · intro n'
            rw [Program.bindPost_ok]
            rcases hgood.next with ⟨hnone, rfl⟩ | ⟨t, -, hnext, hrest⟩
            · rw [hnone]
              have hend := hlisted ({ w with pending := none }, n') rfl
              simpa using hend
            · rw [hnext]
              refine ih hrest (Nat.le_of_succ_le_succ hfuel) ?_ ?_ ?_
              · unfold ObjectServer.answer
                rw [nextUrl_eq hend, listRequest_url o hb]
                dsimp only
                rw [if_pos rfl, ObjectServer.list]
                exact if_pos rfl
              · exact hfailed
              · intro w' hw'
                have hend := hlisted w' hw'
                simpa using hend

/-- A client around a piece of a generator is not seen by the server. -/
theorem wp_withClientGen_bucket {α : Type} {g : S3Gen α}
    {Q : Outcome PyExc α → Unit → (Bucket × Nat) × List Str → Prop} {w : (Bucket × Nat) × List Str} :
    Program.wp (Program.collecting (srv.handler b.bucket)) (withClientGen g) Q () w ↔
      Program.wp (Program.collecting (srv.handler b.bucket)) g Q () w := by
  have hpost : Program.finallyPost (Program.collecting (srv.handler b.bucket))
      (closeClient.embed : S3Gen Unit) Q = Q := by
    funext o s w
    cases o <;> rfl
  unfold withClientGen
  rw [Program.wp_bind, Program.wp_embed]
  show Program.wp _ (g.tryFinally closeClient.embed) Q () w ↔ _
  rw [Program.wp_tryFinally, hpost]

theorem good_pages_bucket (srv : ObjectServer expat) (n : Nat) {ks : List Str}
    (hks : ∀ k ∈ ks, k ≠ []) (p : Str) : Good expat (srv.pages n ks p) where
  linked := srv.linked n ks p
  faithful := srv.faithful n ks p
  keys_ne page hpage k hk := by
    have hmem : k ∈ (srv.pages n ks p).flatMap Page.keys := List.mem_flatMap.mpr ⟨page, hpage, hk⟩
    rw [(srv.pages_perm n ks p).mem_iff, List.mem_filter] at hmem
    exact hks k hmem.1

/-- What a scan yields: the keys below the prefix that start with `pre`, each once. -/
theorem answers_listed (hw : Holds w m) (n : Nat) (pre : Str) :
    FlatStore.Answers (below b.rawPrefix m) (.scan pre) (.ok (.keys
      (((srv.pages n w.objects.keys (b.fullPrefix pre)).flatMap Page.keys).map b.stripPrefix))) := by
  have hperm := srv.pages_perm n w.objects.keys (b.fullPrefix pre)
  have hmem : ∀ k, k ∈ (srv.pages n w.objects.keys (b.fullPrefix pre)).flatMap Page.keys ↔
      k ∈ w.objects ∧ b.rawPrefix ++ pre <+: k := by
    intro k
    rw [hperm.mem_iff, List.mem_filter, List.isPrefixOf_iff_prefix, fullPrefix_eq]
    rfl
  refine ⟨_, rfl, List.Nodup.map_on ?_ (hperm.nodup_iff.mpr (w.objects.nodup.filter _)), fun k => ?_⟩
  · intro x hx y hy hxy
    obtain ⟨-, s, rfl⟩ := (hmem x).mp hx
    obtain ⟨-, t, rfl⟩ := (hmem y).mp hy
    rw [List.append_assoc, List.append_assoc, stripPrefix_append, stripPrefix_append] at hxy
    rw [List.append_assoc, List.append_assoc, hxy]
  · have hstored : (below b.rawPrefix m k).isSome ↔ b.rawPrefix ++ k ∈ w.objects := by
      rw [← Dict.isSome_get?_iff, hw.1]
      rfl
    rw [List.mem_map, hstored]
    constructor
    · rintro ⟨obj, hobj, rfl⟩
      obtain ⟨hin, t, rfl⟩ := (hmem obj).mp hobj
      rw [List.append_assoc] at hin ⊢
      rw [stripPrefix_append]
      exact ⟨hin, List.prefix_append pre t⟩
    · rintro ⟨hin, hpre⟩
      exact ⟨b.rawPrefix ++ k, (hmem _).mpr ⟨hin, (List.prefix_append_right_inj _).mpr hpre⟩,
        stripPrefix_append b k⟩

/-- A scan of either class, with fuel for every page. -/
theorem does_scan (hend : b.endpoint = o.url) (hb : rxBucket b.bucket = true) (hw : Holds w m)
    (async : Bool) (pre : Str) {fuel : Nat}
    (hfuel : (srv.pages (n + 1) w.objects.keys (b.fullPrefix pre)).length ≤ fuel) :
    Program.wp (srv.handler b.bucket) ((build expat b async fuel).perform (.scan pre))
      (fun out _ w' => Does srv b m (.scan pre) out w'.1) () (w, n) := by
  have hgood := good_pages_bucket srv (n + 1) hw.2 (b.fullPrefix pre)
  have hfirst : srv.answer b.bucket (n + 1) w .get (b.listUrl pre) [] =
      ((serve (srv.pages (n + 1) w.objects.keys (b.fullPrefix pre))).1,
        { w with pending := (serve (srv.pages (n + 1) w.objects.keys (b.fullPrefix pre))).2 }) := by
    unfold ObjectServer.answer
    rw [listUrl_eq hend, listRequest_url o hb]
    rfl
  have hsame : ∀ {w' : Bucket}, w'.objects = w.objects → Holds w' m := by
    intro w' hw'
    exact ⟨by rw [hw', hw.1], by rw [hw']; exact hw.2⟩
  have hfailed : ∀ text (w' : Bucket × Nat), ¬ srv.Faultless → w'.1.objects = w.objects →
      Does srv b m (.scan pre) (.error (.blobError text)) w'.1 := fun text w' hfaulty hw' =>
    does_failed _ (hsame hw') hfaulty text
  have hlisted : ∀ w' : Bucket × Nat, w'.1.objects = w.objects →
      Does srv b m (.scan pre) (.ok (.keys
        (((srv.pages (n + 1) w.objects.keys (b.fullPrefix pre)).flatMap Page.keys).map b.stripPrefix)))
        w'.1 := fun w' hw' => does_of_answers (answers_listed hw (n + 1) pre) (hsame hw')
  rw [BlobBase.perform, Program.wp_bind, Program.wp_collect]
  cases async with
  | false =>
      show Program.wp _ (withClientGen (loop (b.page expat pre) fuel (b.listUrl pre))) _ _ _
      rw [wp_withClientGen_bucket]
      exact wp_loop_bucket hend hb (fun _ _ _ => Iff.rfl) hgood hfuel hfirst
        (fun text w' _ => hfailed text w') hlisted
  | true =>
      show Program.wp _ (loop (fun url => withClientGen (b.page expat pre url)) fuel
        (b.listUrl pre)) _ _ _
      exact wp_loop_bucket hend hb (fun _ _ _ => wp_withClientGen_bucket) hgood hfuel hfirst
        (fun text w' _ => hfailed text w') hlisted

end Calls

/-! ## Runs -/

section Fuel

variable {W : Type} {h : Handler http W} {m n : Nat}

/-- With more fuel a loop goes further. -/
theorem extends_loop {h : Handler (http.yielding Str) W} (body : Str → S3Gen (Option Str))
    (hmn : m ≤ n) (url : Str) : Program.Extends h (loop body m url) (loop body n url) := by
  induction m generalizing n url with
  | zero => exact Program.extends_spin _
  | succ m ih =>
      obtain ⟨n, rfl⟩ := Nat.exists_eq_add_of_le' (Nat.le_trans (Nat.le_add_left 1 m) hmn)
      apply Program.extends_bind (Program.extends_refl (body url))
      intro next
      cases next with
      | none => exact Program.extends_refl _
      | some url => exact ih (Nat.le_of_succ_le_succ hmn) url

theorem extends_scan (expat : Expat) (b : S3Blob) (async : Bool) (hmn : m ≤ n) (pre : Str) :
    Program.Extends (Program.collecting h) ((build expat b async m).scan pre)
      ((build expat b async n).scan pre) := by
  cases async with
  | false =>
      apply Program.extends_bind (Program.extends_refl openClient.embed)
      exact fun _ => Program.extends_tryFinally (extends_loop _ hmn _) _
  | true => exact extends_loop _ hmn _

theorem extends_perform (expat : Expat) (b : S3Blob) (async : Bool) (hmn : m ≤ n) (c : Call) :
    Program.Extends h ((build expat b async m).perform c) ((build expat b async n).perform c) := by
  have hscan := extends_scan (h := h) expat b async hmn
  cases c with
  | scan pre =>
      apply Program.extends_bind (Program.extends_collect (hscan pre))
      exact fun _ => Program.extends_refl _
  | _ => cases async <;> exact Program.extends_refl _

end Fuel

end S3Blob

end GufoBlob
