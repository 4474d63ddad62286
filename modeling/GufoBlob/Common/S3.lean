import GufoBlob.Error
import GufoBlob.Xml.Names
import Mathlib.Data.List.TakeWhile

/-!
# S3: common definitions

`common/s3.py` as far as the S3 backends use it: the status codes, the bucket names that `parse_url`
accepts, and the extraction of element texts from an XML answer. Expat is the environment: it turns
the octets of an answer into events or raises `ExpatError`.

`parseFields_spec` says what the event handlers compute: for every field the texts that
`Content.select` picks.
-/

namespace GufoBlob

open Text Xml

namespace S3

/-- `S3_OK`. -/
def ok : Nat := 200

/-- `S3_CREATED`. -/
def created : Nat := 200

/-- `S3_DELETED`. -/
def deleted : Nat := 204

/-- `S3_NOT_FOUND`. -/
def notFound : Nat := 404

def isBucketEnd (c : Char) : Bool := c.isLower || c.isDigit

/-- `rx_bucket`, `^[a-z0-9][a-z0-9.\\-]{1,61}[a-z0-9]$`, matched against the whole name. -/
def rxBucket (name : Str) : Bool :=
  match name with
  | [] => false
  | c :: cs =>
      match cs.reverse with
      | [] => false
      | l :: mid =>
          isBucketEnd c && isBucketEnd l && decide (1 ≤ mid.length ∧ mid.length ≤ 61) &&
            mid.all fun d => isBucketEnd d || d = '.' || d = '-'

/-- The part of an HTTP answer that the backends read. -/
structure Response where
  status : Nat
  content : Bytes

/-- `expat.ParserCreate("UTF-8", "}").Parse(body, True)`: the events, or the text of the
`ExpatError`. -/
abbrev Expat := Bytes → Except String (List Event)

/-! ## `_parse_xml_fields` -/

/-- `_local_name`: `tag.rsplit("}", 1)[-1]`. -/
def localName (tag : Str) : Str := (tag.reverse.takeWhile fun c => c ≠ '}').reverse

/-- The variables that the three handlers share. -/
structure FieldParser where
  path : List Str := []
  active : Option (List Str) := none
  text : List Str := []
  values : List Str → List Str := fun _ => []

/-- `path[-n:]`, which is all of `path` for `n = 0`. -/
def lastItems (path : List Str) (n : Nat) : List Str :=
  if n = 0 then path else path.drop (path.length - n)

/-- `path[-len(field):] == field`. -/
def endsWith (path field : List Str) : Bool := lastItems path field.length = field

namespace FieldParser

/-- `_start`. -/
def start (fields : List (List Str)) (p : FieldParser) (tag : Str) : FieldParser :=
  let path := p.path ++ [localName tag]
  match fields.find? fun f => decide (f.length ≤ path.length) && endsWith path f with
  | some f => { p with path, active := some f, text := [] }
  | none => { p with path }

/-- `_data`. -/
def data (p : FieldParser) (value : Str) : FieldParser :=
  if p.active.isSome then { p with text := p.text ++ [value] } else p

/-- `_end`. -/
def stop (p : FieldParser) : FieldParser :=
  let p := match p.active with
    | some f =>
        if endsWith p.path f then
          { p with
            values := fun g => if g = f then p.values g ++ [p.text.flatten] else p.values g
            active := none
            text := [] }
        else p
    | none => p
  { p with path := p.path.dropLast }

def step (fields : List (List Str)) (p : FieldParser) : Event → FieldParser
  | .start tag => p.start fields tag
  | .data s => p.data s
  | .stop _ => p.stop

end FieldParser

/-- `_parse_xml_fields`: for each field its texts, or the `ExpatError`. -/
def parseXmlFields (expat : Expat) (body : Bytes) (fields : List (List Str)) :
    Except String (List Str → List Str) :=
  (expat body).map fun evs => (evs.foldl (FieldParser.step fields) {}).values

/-! ## `S3Xml` and `S3Error` -/

def keyField : List Str := ["Contents".toList, "Key".toList]

def tokenField : List Str := ["ListBucketResult".toList, "NextContinuationToken".toList]

/-- `S3Xml.list_objects`: the non-empty keys, and the continuation token if there is one. -/
def listObjects (expat : Expat) (body : Bytes) : Except PyExc (List Str × Option Str) :=
  match parseXmlFields expat body [keyField, tokenField] with
  | .error ex => .error (.blobError ("Failed to parse S3 response: " ++ ex))
  | .ok values =>
      let keys := (values keyField).filter fun key => !key.isEmpty
      let token := match values tokenField with
        | t :: _ => if t.isEmpty then none else some t
        | [] => none
      .ok (keys, token)

def codeField : List Str := ["Error".toList, "Code".toList]

def messageField : List Str := ["Error".toList, "Message".toList]

/-- `S3Error.from_xml`. -/
def errorFromXml (expat : Expat) (body : Bytes) : PyExc :=
  match parseXmlFields expat body [codeField, messageField] with
  | .error _ => .blobError "S3 returned an unparsable error response"
  | .ok values =>
      let code := (values codeField).headD []
      let code := if code.isEmpty then "Unknown".toList else code
      let message := (values messageField).headD []
      .blobError ("S3 error " ++ fmt code ++ ": " ++ fmt message)

theorem errorFromXml_eq (expat : Expat) (body : Bytes) :
    ∃ text, errorFromXml expat body = .blobError text := by
  unfold errorFromXml
  split <;> exact ⟨_, rfl⟩

/-- A listing that cannot be read is a `BlobError`. -/
theorem listObjects_error {expat : Expat} {body : Bytes} {e : PyExc}
    (h : listObjects expat body = .error e) : ∃ text, e = .blobError text := by
  unfold listObjects at h
  split at h
  · exact ⟨_, (Except.error.inj h).symm⟩
  · cases h

/-! ## What the handlers compute -/

theorem endsWith_iff {path field : List Str} (hne : field ≠ []) (hlen : field.length ≤ path.length) :
    endsWith path field = true ↔ field <:+ path := by
  rw [endsWith, decide_eq_true_eq, lastItems, if_neg (by simpa using hne)]
  constructor
  · intro h
    exact ⟨path.take (path.length - field.length), by
      conv_rhs => rw [← List.take_append_drop (path.length - field.length) path, h]⟩
  · rintro ⟨front, rfl⟩
    simp

/-- No field is a suffix of another. -/
def Independent (fields : List (List Str)) : Prop :=
  ∀ f ∈ fields, ∀ g ∈ fields, f <:+ g → f = g

theorem find_field {fields : List (List Str)} (hne : [] ∉ fields) (hind : Independent fields)
    {f path : List Str} (hf : f ∈ fields) (hsuffix : f <:+ path) :
    fields.find? (fun f => decide (f.length ≤ path.length) && endsWith path f) = some f := by
  have hnil : ∀ g ∈ fields, g ≠ [] := by
    rintro g hg rfl
    exact hne hg
  have hmatch : (decide (f.length ≤ path.length) && endsWith path f) = true := by
    have hlen := hsuffix.length_le
    simp [hlen, (endsWith_iff (hnil f hf) hlen).mpr hsuffix]
  cases hfind : fields.find? (fun f => decide (f.length ≤ path.length) && endsWith path f) with
  | none => exact absurd hmatch (List.find?_eq_none.mp hfind f hf)
  | some g =>
      have hg := List.find?_some hfind
      rw [Bool.and_eq_true, decide_eq_true_eq] at hg
      have hgmem := List.mem_of_find?_eq_some hfind
      have hgsuffix := (endsWith_iff (hnil g hgmem) hg.1).mp hg.2
      rcases List.suffix_or_suffix_of_suffix hsuffix hgsuffix with h | h
      · rw [hind f hf g hgmem h]
      · rw [hind g hgmem f hf h]

theorem find_none {fields : List (List Str)} (hne : [] ∉ fields) {path : List Str}
    (h : ¬ ∃ f ∈ fields, f <:+ path) :
    fields.find? (fun f => decide (f.length ≤ path.length) && endsWith path f) = none := by
  rw [List.find?_eq_none]
  intro f hf hmatch
  rw [Bool.and_eq_true, decide_eq_true_eq] at hmatch
  have hnil : f ≠ [] := by
    rintro rfl
    exact hne hf
  exact h ⟨f, hf, (endsWith_iff hnil hmatch.1).mp hmatch.2⟩

theorem foldl_data {fields : List (List Str)} (pieces : List Str) {p : FieldParser}
    (hp : p.active.isSome = true) : (pieces.map Event.data).foldl (FieldParser.step fields) p =
      { p with text := p.text ++ pieces } := by
  induction pieces generalizing p with
  | nil => simp
  | cons s pieces ih =>
      have hstep : FieldParser.step fields p (.data s) = { p with text := p.text ++ [s] } :=
        if_pos hp
      have ih := ih (p := { p with text := p.text ++ [s] }) hp
      rw [List.map_cons, List.foldl_cons, hstep, ih]
      simp

theorem foldl_data_inactive {fields : List (List Str)} (pieces : List Str) {p : FieldParser}
    (hp : p.active = none) : (pieces.map Event.data).foldl (FieldParser.step fields) p = p := by
  induction pieces with
  | nil => rfl
  | cons s pieces ih =>
      have hstep : FieldParser.step fields p (.data s) = p := by
        simp [FieldParser.step, FieldParser.data, hp]
      rw [List.map_cons, List.foldl_cons, hstep, ih]

/-- Outside every selected element the handlers collect, for each field, the texts of the elements
that it selects, and are back where they were. -/
theorem parseFields_spec {fields : List (List Str)} (hne : [] ∉ fields)
    (hind : Independent fields) {c : Content} {evs : List Event} (hevs : Delivered c evs) {path : List Str}
    (hleaves : c.Leaves localName fields path) (values : List Str → List Str) :
    evs.foldl (FieldParser.step fields) ⟨path, none, [], values⟩ =
      ⟨path, none, [], fun f => values f ++
        if f ∈ fields then c.select localName f path else []⟩ := by
  induction hevs generalizing path values with
  | nil => simp [Content.select]
  | text pieces _ ih =>
      rw [List.foldl_append, foldl_data_inactive pieces rfl, ih hleaves]
      rfl
  | @elem tag children rest inner evs hinner hrest ihinner ihrest =>
      obtain ⟨htext, hchildren, hafter⟩ := hleaves
      rw [List.foldl_cons, List.foldl_append, List.foldl_cons]
      by_cases hsel : ∃ f ∈ fields, f <:+ path ++ [localName tag]
      · -- a selected element: its events are the pieces of its text
        obtain ⟨f, hf, hsuffix⟩ := hsel
        obtain ⟨pieces, rfl, hflat⟩ :=
          Content.delivered_onlyText (htext ⟨f, hf, hsuffix⟩) hinner
        have hstart : FieldParser.step fields ⟨path, none, [], values⟩ (.start tag) =
            ⟨path ++ [localName tag], some f, [], values⟩ := by
          simp only [FieldParser.step, FieldParser.start, find_field hne hind hf hsuffix]
        have hends : endsWith (path ++ [localName tag]) f = true :=
          (endsWith_iff (by rintro rfl; exact hne hf) hsuffix.length_le).mpr hsuffix
        rw [hstart, foldl_data pieces rfl]
        have hstop : FieldParser.step fields ⟨path ++ [localName tag], some f, [] ++ pieces, values⟩
            (.stop tag) = ⟨path, none, [],
              fun g => if g = f then values g ++ [pieces.flatten] else values g⟩ := by
          simp [FieldParser.step, FieldParser.stop, hends]
        rw [hstop, ihrest hafter, hflat]
        congr 1
        funext g
        have hnone := Content.select_of_onlyText localName g (path ++ [localName tag])
          (htext ⟨f, hf, hsuffix⟩)
        by_cases hgf : g = f
        · subst hgf
          simp [hf, Content.select, hsuffix, hnone]
        · by_cases hg : g ∈ fields
          · have hnot : ¬ g <:+ path ++ [localName tag] := by
              intro hgs
              rcases List.suffix_or_suffix_of_suffix hgs hsuffix with h | h
              · exact hgf (hind g hg f hf h)
              · exact hgf (hind f hf g hg h).symm
            simp [hgf, hg, Content.select, hnot, hnone]
          · simp [hgf, hg]
      · -- any other element: its content is handled on the longer path
        have hstart : FieldParser.step fields ⟨path, none, [], values⟩ (.start tag) =
            ⟨path ++ [localName tag], none, [], values⟩ := by
          simp only [FieldParser.step, FieldParser.start, find_none hne hsel]
        have hstop : ∀ vs, FieldParser.step fields ⟨path ++ [localName tag], none, [], vs⟩
            (.stop tag) = ⟨path, none, [], vs⟩ := by
          intro vs
          simp [FieldParser.step, FieldParser.stop]
        rw [hstart, ihinner hchildren, hstop, ihrest hafter]
        congr 1
        funext g
        by_cases hg : g ∈ fields
        · have hnot : ¬ g <:+ path ++ [localName tag] := fun h => hsel ⟨g, hg, h⟩
          simp [hg, Content.select, hnot]
        · simp [hg]

/-- The fields of `list_objects` are told apart. -/
theorem independent_listFields : Independent [keyField, tokenField] := by
  unfold Independent
  decide

theorem parseXmlFields_of_delivered {expat : Expat} {body : Bytes} {evs : List Event} {c : Content}
    (hexpat : expat body = .ok evs) (hevs : Delivered c evs) {fields : List (List Str)}
    (hne : [] ∉ fields) (hind : Independent fields) (hleaves : c.Leaves localName fields []) :
    parseXmlFields expat body fields =
      .ok fun f => if f ∈ fields then c.select localName f [] else [] := by
  rw [parseXmlFields, hexpat]
  exact congrArg (fun p : FieldParser => Except.ok p.values)
    (parseFields_spec hne hind hevs hleaves fun _ => [])

/-- What `list_objects` returns for a document. -/
theorem listObjects_of_delivered {expat : Expat} {body : Bytes} {evs : List Event} {doc : Content}
    (hexpat : expat body = .ok evs) (hevs : Delivered doc evs)
    (hleaves : doc.Leaves localName [keyField, tokenField] []) :
    listObjects expat body = .ok
      ((doc.select localName keyField []).filter fun key => !key.isEmpty,
        match doc.select localName tokenField [] with
        | t :: _ => if t.isEmpty then none else some t
        | [] => none) := by
  have hparse := parseXmlFields_of_delivered hexpat hevs (by decide) independent_listFields hleaves
  simp [listObjects, hparse]

/-- The same for a document in which no key is empty. -/
theorem listObjects_of_document {expat : Expat} {body : Bytes} {evs : List Event} {doc : Content}
    (hexpat : expat body = .ok evs) (hevs : Delivered doc evs)
    (hleaves : doc.Leaves localName [keyField, tokenField] [])
    (hkeys : ∀ k ∈ doc.select localName keyField [], k ≠ []) :
    listObjects expat body = .ok (doc.select localName keyField [],
      match doc.select localName tokenField [] with
      | t :: _ => if t.isEmpty then none else some t
      | [] => none) := by
  have hfilter : (doc.select localName keyField []).filter (fun key => !key.isEmpty) =
      doc.select localName keyField [] := by
    rw [List.filter_eq_self]
    intro k hk
    simpa using hkeys k hk
  rw [listObjects_of_delivered hexpat hevs hleaves, hfilter]

/-! ## Documents with namespaces -/

/-- `_local_name` takes the namespace away. -/
theorem localName_spell (n : QName) : localName n.spell = n.localPart := by
  have hall : ∀ c ∈ n.localPart.reverse, decide (c ≠ '}') = true := by
    intro c hc
    have hne : c ≠ '}' := by
      rintro rfl
      exact n.ok (List.mem_reverse.mp hc)
    exact decide_eq_true hne
  have hself : n.localPart.reverse.takeWhile (fun c => decide (c ≠ '}')) = n.localPart.reverse :=
    List.takeWhile_eq_self_iff.mpr hall
  unfold localName QName.spell
  cases n.uri with
  | none => rw [hself, List.reverse_reverse]
  | some uri =>
      rw [List.reverse_append, List.reverse_cons, List.append_assoc,
        List.takeWhile_append_of_pos hall]
      simp

/-- **The extraction of fields is exact**: for every document, however the parser splits its texts,
and every set of non-empty fields of which none is a suffix of another, where the selected elements
contain only text, `_parse_xml_fields` gives for each field the texts of the elements whose path of
local names ends with it, in document order. So `list_objects` gives the non-empty keys and the first
token, unless it is empty. -/
theorem parseXmlFields_exact {expat : Expat} {body : Bytes} {evs : List Event} {doc : Nodes}
    (hexpat : expat body = .ok evs) (hevs : Delivered doc.content evs) :
    (∀ fields, [] ∉ fields → Independent fields → doc.Leaves fields [] →
      ∃ values, parseXmlFields expat body fields = .ok values ∧
        ∀ f ∈ fields, values f = doc.select f []) ∧
    (doc.Leaves [keyField, tokenField] [] →
      listObjects expat body = .ok ((doc.select keyField []).filter fun key => !key.isEmpty,
        (doc.select tokenField []).head?.filter fun token => !token.isEmpty)) := by
  constructor
  · intro fields hne hind hleaves
    have hcontent := (Nodes.leaves_content localName_spell).mpr hleaves
    refine ⟨_, parseXmlFields_of_delivered hexpat hevs hne hind hcontent, fun f hf => ?_⟩
    rw [if_pos hf, Nodes.select_content localName_spell hf hleaves]
  · intro hleaves
    have hcontent := (Nodes.leaves_content localName_spell).mpr hleaves
    rw [listObjects_of_delivered hexpat hevs hcontent,
      Nodes.select_content localName_spell (by simp) hleaves,
      Nodes.select_content localName_spell (by simp) hleaves]
    cases doc.select tokenField [] with
    | nil => rfl
    | cons t ts => cases t <;> rfl

theorem plain_listNames : ∀ l ∈ [keyField, tokenField].flatten, '}' ∉ l := by
  decide

/-- The name `l` in the namespace `n`. -/
def listName (l : Str) (hl : l ∈ [keyField, tokenField].flatten) : QName :=
  ⟨some ['n'], l, plain_listNames l hl⟩

/-- A page with the key `ab` and the token `t`. -/
def samplePage : Nodes :=
  .elem (listName "ListBucketResult".toList (by simp [tokenField]))
    (.elem (listName "Contents".toList (by simp [keyField]))
        (.elem (listName "Key".toList (by simp [keyField])) (.text "ab".toList .nil) .nil)
      (.elem (listName "NextContinuationToken".toList (by simp [tokenField]))
        (.text "t".toList .nil) .nil))
    .nil

/-- Its octets. -/
def sampleBody : Bytes :=
  encode ("<ListBucketResult xmlns='n'><Contents><Key>ab</Key></Contents>" ++
    "<NextContinuationToken>t</NextContinuationToken></ListBucketResult>").toList

/-- What the parser delivers for them, the key in two pieces. -/
def sampleEvents : List Event :=
  [.start "n\x7dListBucketResult".toList, .start "n\x7dContents".toList, .start "n\x7dKey".toList,
    .data ['a'], .data ['b'], .stop "n\x7dKey".toList, .stop "n\x7dContents".toList,
    .start "n\x7dNextContinuationToken".toList, .data ['t'],
    .stop "n\x7dNextContinuationToken".toList, .stop "n\x7dListBucketResult".toList]

theorem delivered_samplePage : Delivered samplePage.content sampleEvents :=
  .elem (.elem (.elem (.text [['a'], ['b']] .nil) .nil) (.elem (.text [['t']] .nil) .nil)) .nil

theorem parseXmlFields_exact_samplePage :
    listObjects (fun body => if body = sampleBody then .ok sampleEvents else .error "no element found")
      sampleBody = .ok ([['a', 'b']], some ['t']) :=
  (parseXmlFields_exact (if_pos rfl) delivered_samplePage).2 (by
    simp [samplePage, Nodes.Leaves, Nodes.OnlyText, listName, keyField, tokenField]
    decide)

end S3

end GufoBlob
