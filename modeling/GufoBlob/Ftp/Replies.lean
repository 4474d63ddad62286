import GufoBlob.Ftp.Reading

/-!
# Replies on the wire

The grammar of replies, and what `_read_response` makes of a first line that is not in it. The octets
arrive in chunks of any size: `scripted` delivers one chunk at every receive.

* `readReplies_exact` — replies that were sent one after the other are read one after the other,
  whatever the chunks are, and what is left is what was sent after them.
* `rejected_iff` — a first line outside the grammar is rejected, except for those that are four
  octets or longer and begin with a `Numeral`, which Python's `int` accepts.
-/

namespace GufoBlob.Ftp

open Text Interaction Program FTPBlob

/-! ## Chunks -/

/-- The connection `s` is held, and the buffer and the chunks that are not delivered make up
`rest`. -/
structure Chunked (s : Sock .control) (f : Option FTPFeatures) (chunks : List Bytes) (rest : Bytes)
    (st : State) (l : List Bytes) : Prop where
  held : st.conn = some s
  features : st.features = f
  unread : st.responseBuffer ++ l.flatten = rest
  undelivered : l <:+ chunks

section Chunks

variable {fuel : Nat} {conn : FtpProg (Option (Sock .control))} {s : Sock .control}
  {f : Option FTPFeatures} {chunks l : List Bytes} {st : State} {rest : Bytes}

theorem wp_recv_chunk {fl : Flavour} (x : Bytes) (Q : Outcome PyExc Bytes → State → List Bytes → Prop) :
    wp scripted (fl.dialect.recv s) Q st (x :: l) ↔ Q (.ok x) st l := by
  cases fl <;>
    simp [Flavour.dialect, Sync.FTPBlob.dialect, Aio.FTPBlob.dialect, scripted, raised]

/-- Chunks that are not empty are a source of octets, which never fails. -/
theorem source_chunks (fl : Flavour) (hconn : Holds scripted conn s) (hchunks : ∀ c ∈ chunks, c ≠ []) :
    Source scripted fl conn (fun _ => False) (fun _ => True) (fun _ _ _ => False)
      (Chunked s f chunks) where
  failed _ _ hB := hB
  buffered hl := ⟨_, hl.unread⟩
  consumed := by
    intro x r rest st l _ hbuf hl
    have hunread := hl.unread
    rw [hbuf, List.append_assoc, List.append_cancel_left_eq] at hunread
    exact ⟨hl.held, hl.features, hunread, hl.undelivered⟩
  received := by
    intro rest st l _ hmore hl
    unfold receive
    rw [wp_tryCatch, bind_eq, wp_bind, hconn _ _ _ hl.held, bindPost_ok]
    dsimp only
    cases l with
    | nil =>
        have hunread := hl.unread
        rw [List.flatten_nil, List.append_nil] at hunread
        exact absurd hunread hmore
    | cons x l =>
        rw [wp_recv_chunk]
        right
        refine ⟨rfl, hchunks x (hl.undelivered.subset List.mem_cons_self), hl.held, hl.features, ?_,
          (List.suffix_cons x l).trans hl.undelivered⟩
        rw [← hl.unread, List.flatten_cons, List.append_assoc]
  sound _ := trivial

end Chunks

/-! ## Replies -/

/-- Three digits. -/
structure CodeDigits (ddd : Bytes) : Prop where
  length : ddd.length = 3
  digits : ddd.all isDigit

/-- The lines of a reply: with further lines, the interior ones and the text of the last one. -/
def wireLines (ddd text : Bytes) : Option (List Bytes × Bytes) → List Bytes
  | none => [ddd ++ 32 :: text]
  | some (between, last) => (ddd ++ 45 :: text) :: (between ++ [ddd ++ 32 :: last])

/-- A reply as the protocol defines it. -/
structure WireReply where
  ddd : Bytes
  text : Bytes
  more : Option (List Bytes × Bytes)
  code : CodeDigits ddd
  noBreak : ∀ l ∈ wireLines ddd text more, ¬ HasCrlf l
  interior : ∀ between last, more = some (between, last) → ∀ l ∈ between, ¬ ddd ++ [32] <+: l

namespace WireReply

def lines (r : WireReply) : List Bytes := wireLines r.ddd r.text r.more

/-- The reply as it is sent. -/
def bytes (r : WireReply) : Bytes := r.lines.flatMap frame

/-- What `_read_response` is to return. -/
def result (r : WireReply) : Int × List Bytes := (digitsValue r.ddd, r.lines)

end WireReply

theorem CodeDigits.value {ddd : Bytes} (h : CodeDigits ddd) :
    bytesToIntRange ddd 0 999 = .ok (digitsValue ddd : Int) := by
  have hne : ddd ≠ [] := List.ne_nil_of_length_eq_add_one h.length
  have hvalue := pyInt_digits hne h.digits (by rw [h.length]; decide)
  have hlt := digitsValue_lt h.digits
  rw [h.length] at hlt
  rcases bytesToIntRange_cases ddd 0 999 with ⟨n, hn, -, -, hok⟩ | ⟨hout, -⟩
  · rw [hok, Option.some.inj (hvalue.symm.trans hn)]
  · have := hout _ hvalue
    omega

/-- The last line of a reply repeats the first three octets, with a space behind them. -/
theorem endsReply_iff {ddd first line : Bytes} (hfirst : first.take 3 = ddd) (hddd : ddd.length = 3) :
    endsReply first line = true ↔ ddd ++ [32] <+: line := by
  unfold endsReply
  simp only [hfirst, minFtpResponse, Bool.and_eq_true, decide_eq_true_eq]
  constructor
  · rintro ⟨⟨-, htake⟩, hspace⟩
    rw [← List.take_append_drop 3 line, htake, List.prefix_append_right_inj, ← hspace]
    exact List.take_prefix 1 _
  · rintro ⟨y, rfl⟩
    simp [← hddd]
    omega

/-- `_read_response` reads a well-formed reply as one. -/
theorem WireReply.exists_reply (r : WireReply) :
    ∃ q : Reply, q.lines = r.lines ∧ (q.code, q.lines) = r.result := by
  obtain ⟨ddd, text, more, hcode, hbreak, hinterior⟩ := r
  have hlength := hcode.length
  have htake : ∀ c : UInt8, (ddd ++ c :: text).take 3 = ddd := fun c => by simp [← hlength]
  have hdrop : ∀ c : UInt8, ((ddd ++ c :: text).drop 3).take 1 = [c] := fun c => by simp [← hlength]
  have hfour : ∀ c : UInt8, minFtpResponse ≤ (ddd ++ c :: text).length := by
    intro c
    rw [List.length_append, hlength, minFtpResponse, List.length_cons]
    omega
  cases more with
  | none =>
      refine ⟨⟨digitsValue ddd, ddd ++ 32 :: text, [], hbreak, hfour 32, ?_, ?_⟩, rfl, rfl⟩
      · rw [htake, hcode.value]
      · unfold Completes
        rw [hdrop, if_neg (by decide)]
  | some more =>
      obtain ⟨between, last⟩ := more
      refine ⟨⟨digitsValue ddd, ddd ++ 45 :: text, between ++ [ddd ++ 32 :: last], hbreak, hfour 45,
        ?_, ?_⟩, rfl, rfl⟩
      · rw [htake, hcode.value]
      · unfold Completes
        rw [hdrop, if_pos rfl]
        refine ⟨between, _, rfl, ?_, ?_⟩
        · intro l hl
          rw [Bool.eq_false_iff, ne_eq, endsReply_iff (htake 45) hlength]
          exact hinterior between last rfl l hl
        · rw [endsReply_iff (htake 45) hlength]
          exact ⟨last, by simp⟩

/-! ## Reading replies -/

/-- `n` successive calls of `_read_response`. -/
def readReplies (d : Dialect) (fuel : Nat) (conn : FtpProg (Option (Sock .control))) :
    Nat → FtpProg (List (Int × List Bytes))
  | 0 => return []
  | n + 1 => do
      let r ← readResponse d fuel conn
      let rs ← readReplies d fuel conn n
      return r :: rs

section Reading

variable {fuel : Nat} {conn : FtpProg (Option (Sock .control))} {s : Sock .control}
  {f : Option FTPFeatures} {chunks l : List Bytes} {st : State} {rest : Bytes}

theorem wp_readResponse_chunks (fl : Flavour) (hconn : Holds scripted conn s) (hchunks : ∀ c ∈ chunks, c ≠ [])
    (q : Reply) (hfuel : q.bytes.length < fuel) (hl : Chunked s f chunks (q.bytes ++ rest) st l) :
    wp scripted (readResponse fl.dialect fuel conn)
      (fun o st l => o = .ok (q.code, q.lines) ∧ Chunked s f chunks rest st l) st l := by
  apply wp_mono ((source_chunks fl hconn hchunks).wp_readResponse_source q hl)
  rintro (x | e | _) st' l' (hfailed | ho)
  · exact hfailed.elim
  · exact ⟨congrArg _ ho.1, ho.2⟩
  · exact hfailed.elim
  · exact ho.elim
  · exact hfailed.elim
  · exact absurd ho.1 (Nat.not_le.mpr hfuel)

theorem wp_readReplies_chunks (fl : Flavour) (hconn : Holds scripted conn s) (hchunks : ∀ c ∈ chunks, c ≠ [])
    (rs : List WireReply) (hfuel : (rs.flatMap WireReply.bytes).length < fuel)
    (hl : Chunked s f chunks (rs.flatMap WireReply.bytes ++ rest) st l) :
    wp scripted (readReplies fl.dialect fuel conn rs.length)
      (fun o st l => o = .ok (rs.map WireReply.result) ∧ Chunked s f chunks rest st l) st l := by
  induction rs generalizing st l with
  | nil => exact ⟨rfl, hl⟩
  | cons r rs ih =>
      obtain ⟨q, hlines, hresult⟩ := r.exists_reply
      have hbytes : r.bytes = q.bytes := by rw [WireReply.bytes, Reply.bytes, hlines]
      rw [List.flatMap_cons, hbytes] at hl hfuel
      rw [List.append_assoc] at hl
      rw [List.length_append] at hfuel
      rw [List.length_cons, readReplies, bind_eq, wp_bind]
      apply wp_mono (wp_readResponse_chunks fl hconn hchunks q (by omega) hl)
      rintro o st' l' ⟨rfl, hl'⟩
      rw [bindPost_ok, bind_eq, wp_bind]
      apply wp_mono (ih (by omega) hl')
      rintro o st'' l'' ⟨rfl, hl''⟩
      rw [hresult]
      exact ⟨rfl, hl''⟩

end Reading

/-- Replies that were sent one after the other are read one after the other: the codes and the lines
are theirs, and the octets behind the last one are still to be read, whatever the chunks are. -/
theorem readReplies_exact (fl : Flavour) (b : FTPBlob) (s : Sock .control) (f : Option FTPFeatures)
    (buffer : Bytes) (chunks : List Bytes) (rs : List WireReply) (rest : Bytes) (fuel : Nat)
    (hchunks : ∀ c ∈ chunks, c ≠ [])
    (hstream : buffer ++ chunks.flatten = rs.flatMap WireReply.bytes ++ rest)
    (hfuel : (rs.flatMap WireReply.bytes).length < fuel) :
    ∃ buffer' undelivered,
      (readReplies fl.dialect fuel (fl.connection b fuel) rs.length).run scripted
          ⟨some s, buffer, f⟩ chunks =
        (.ok (rs.map WireReply.result), ⟨some s, buffer', f⟩, undelivered) ∧
      undelivered <:+ chunks ∧ buffer' ++ undelivered.flatten = rest := by
  obtain ⟨n, rfl⟩ : ∃ n, fuel = n + 1 := ⟨fuel - 1, by omega⟩
  have hconn : Holds scripted (fl.connection b (n + 1)) s := connection_holds fl.dialect b (n + 1) n s
  have hl : Chunked s f chunks (rs.flatMap WireReply.bytes ++ rest) ⟨some s, buffer, f⟩ chunks :=
    ⟨rfl, rfl, hstream, List.suffix_refl chunks⟩
  obtain ⟨hok, hl'⟩ := wp_readReplies_chunks fl hconn hchunks rs hfuel hl
  generalize (readReplies fl.dialect (n + 1) (fl.connection b (n + 1)) rs.length).run scripted
    ⟨some s, buffer, f⟩ chunks = r at hok hl' ⊢
  obtain ⟨o, ⟨conn, buffer', f'⟩, l⟩ := r
  obtain ⟨rfl, rfl, hunread, hsuffix⟩ := hl'
  exact ⟨buffer', l, congrArg (·, _) hok, hsuffix, hunread⟩

/-- A reply of three lines, the second of which holds a lone CR and begins with a code. -/
def sizeReply : WireReply where
  ddd := [50, 49, 49]
  text := []
  more := some ([[32, 83, 73, 90, 69], [50, 49, 49, 13]], [69])
  code := ⟨rfl, rfl⟩
  noBreak := by decide
  interior := by
    rintro between last ⟨⟩
    decide

/-- `250 k`. -/
def actionReply : WireReply where
  ddd := [50, 53, 48]
  text := [107]
  more := none
  code := ⟨rfl, rfl⟩
  noBreak := by decide
  interior := by rintro between last ⟨⟩

/-- The end of the first reply, the second one and an octet after it arrive in one segment. -/
theorem readReplies_exact_three_lines :
    ∃ buffer' undelivered,
      (readReplies Flavour.aio.dialect 40 (Flavour.aio.connection anonymous 40) 2).run scripted
          ⟨some ⟨0⟩, [50, 49], none⟩
          [[49, 45, 13], [10, 32, 83, 73, 90, 69, 13, 10, 50, 49, 49, 13, 13], [10],
            [50, 49, 49, 32, 69, 13, 10, 50, 53, 48, 32, 107, 13, 10, 50], [50]] =
        (.ok [(211, sizeReply.lines), (250, actionReply.lines)], ⟨some ⟨0⟩, buffer', none⟩,
          undelivered) ∧
      undelivered <:+ [[49, 45, 13], [10, 32, 83, 73, 90, 69, 13, 10, 50, 49, 49, 13, 13], [10],
        [50, 49, 49, 32, 69, 13, 10, 50, 53, 48, 32, 107, 13, 10, 50], [50]] ∧
      buffer' ++ undelivered.flatten = [50, 50] :=
  readReplies_exact .aio anonymous ⟨0⟩ none [50, 49]
    [[49, 45, 13], [10, 32, 83, 73, 90, 69, 13, 10, 50, 49, 49, 13, 13], [10],
      [50, 49, 49, 32, 69, 13, 10, 50, 53, 48, 32, 107, 13, 10, 50], [50]]
    [sizeReply, actionReply] [50, 50] 40 (by decide) (by decide) (by decide)

/-! ## Lines that are no replies -/

/-- Three digits, a space or a hyphen, and any octets. -/
def StatusLine (l : Bytes) : Prop :=
  ∃ ddd c text, CodeDigits ddd ∧ (c = 32 ∨ c = 45) ∧ l = ddd ++ c :: text

/-- As a first line, `l` makes `_read_response` raise a `BlobError`, whatever follows it and whatever
the chunks are. -/
def LineRejected (fl : Flavour) (l : Bytes) : Prop :=
  ∀ (b : FTPBlob) (s : Sock .control) (f : Option FTPFeatures) (buffer : Bytes)
    (chunks : List Bytes) (rest : Bytes) (fuel : Nat), (∀ c ∈ chunks, c ≠ []) →
    buffer ++ chunks.flatten = frame l ++ rest → (frame l).length < fuel →
    ∃ msg, ((readResponse fl.dialect fuel (fl.connection b fuel)).run scripted
      ⟨some s, buffer, f⟩ chunks).1 = .error (.blobError msg)

/-- The first three octets are read as a code. -/
def ReadsAsCode (l : Bytes) : Prop := minFtpResponse ≤ l.length ∧ Numeral (l.take 3)

theorem rejected_of_not_readsAsCode (fl : Flavour) {l : Bytes} (hl : ¬ HasCrlf l)
    (hcode : ¬ ReadsAsCode l) : LineRejected fl l := by
  intro b s f buffer chunks rest fuel hchunks hstream hfuel
  obtain ⟨n, rfl⟩ : ∃ n, fuel = n + 1 := ⟨fuel - 1, by omega⟩
  have hconn : Holds scripted (fl.connection b (n + 1)) s := connection_holds fl.dialect b (n + 1) n s
  have hl' : Chunked s f chunks (frame l ++ rest) ⟨some s, buffer, f⟩ chunks :=
    ⟨rfl, rfl, hstream, List.suffix_refl chunks⟩
  have hreject : l.length < minFtpResponse ∨
      ∃ msg, bytesToIntRange (l.take 3) 0 999 = .error (.blobError msg) := by
    by_cases hlength : l.length < minFtpResponse
    · exact .inl hlength
    · right
      rcases bytesToIntRange_cases (l.take 3) 0 999 with ⟨n, hn, hlo, hhi, -⟩ | ⟨-, hmsg⟩
      · refine absurd ⟨Nat.not_lt.mp hlength, ?_⟩ hcode
        exact (pyInt_code_iff (List.length_take_le 3 l)).mp ⟨n, hn, hlo, hhi⟩
      · exact hmsg
  have hwp := (source_chunks fl hconn hchunks).wp_readResponse_rejects (n + 1) hl hreject hl'
  unfold wp at hwp
  generalize ((readResponse fl.dialect (n + 1) (fl.connection b (n + 1))).run scripted
    ⟨some s, buffer, f⟩ chunks).1 = o at hwp ⊢
  cases o with
  | ok r => exact (hwp.resolve_left id).elim
  | error e =>
      have he : IsBlobError e := (hwp.resolve_left id).resolve_left id
      cases e with
      | blobError msg => exact ⟨msg, rfl⟩
      | _ => exact he.elim
  | spun => exact absurd (hwp.resolve_left id) (Nat.not_le.mpr hfuel)

theorem not_hasCrlf_append_space {l : Bytes} (hl : ¬ HasCrlf l) : ¬ HasCrlf (l ++ [32]) := by
  rw [hasCrlf_append (by simp [StartsLf])]
  exact fun h => h.elim hl (by decide)

/-- A first line whose first three octets are read as a code begins a reply with that code. -/
theorem exists_reply_of_readsAsCode {l : Bytes} (hl : ¬ HasCrlf l) (hcode : ReadsAsCode l) :
    ∃ q : Reply, q.first = l := by
  obtain ⟨n, hn, hlo, hhi⟩ := (pyInt_code_iff (List.length_take_le 3 l)).mpr hcode.2
  have hok : bytesToIntRange (l.take 3) 0 999 = .ok n := by
    rcases bytesToIntRange_cases (l.take 3) 0 999 with ⟨m, hm, -, -, hok⟩ | ⟨hout, -⟩
    · rw [hok, Option.some.inj (hn.symm.trans hm)]
    · have := hout n hn
      omega
  have hlength : (l.take 3).length = 3 := List.length_take_of_le (Nat.le_of_succ_le hcode.1)
  by_cases hdash : (l.drop 3).take 1 = [45]
  · have hlast := not_hasCrlf_append_space (not_hasCrlf_of_isInfix hl (List.take_prefix 3 l).isInfix)
    refine ⟨⟨n, l, [l.take 3 ++ [32]], ?_, hcode.1, hok, ?_⟩, rfl⟩
    · intro x hx
      rcases List.mem_pair.mp hx with rfl | rfl
      · exact hl
      · exact hlast
    · unfold Completes
      rw [if_pos hdash]
      exact ⟨[], _, rfl, by simp, (endsReply_iff rfl hlength).mpr (List.prefix_refl _)⟩
  · refine ⟨⟨n, l, [], ?_, hcode.1, hok, ?_⟩, rfl⟩
    · simpa using hl
    · unfold Completes
      rw [if_neg hdash]

theorem not_rejected_of_readsAsCode (fl : Flavour) {l : Bytes} (hl : ¬ HasCrlf l)
    (hcode : ReadsAsCode l) : ¬ LineRejected fl l := by
  obtain ⟨q, rfl⟩ := exists_reply_of_readsAsCode hl hcode
  intro hreject
  have hbytes : q.bytes = frame q.first ++ q.more.flatMap frame := by
    rw [Reply.bytes, Reply.lines, List.flatMap_cons]
  have hne : ∀ c ∈ [q.bytes], c ≠ [] := by
    intro c hc
    rw [List.mem_singleton.mp hc, hbytes]
    simp [frame, crlf]
  have hconn : Holds scripted (fl.connection anonymous (q.bytes.length + 1)) ⟨0⟩ :=
    connection_holds fl.dialect anonymous _ _ ⟨0⟩
  have hl' : Chunked ⟨0⟩ none [q.bytes] (q.bytes ++ []) ⟨some ⟨0⟩, [], none⟩ [q.bytes] :=
    ⟨rfl, rfl, by simp, List.suffix_refl _⟩
  obtain ⟨hok, -⟩ := wp_readResponse_chunks fl hconn hne q (Nat.lt_succ_self _) hl'
  obtain ⟨msg, hmsg⟩ := hreject anonymous ⟨0⟩ none [] [q.bytes] (q.more.flatMap frame)
    (q.bytes.length + 1) hne (by simp [hbytes]) (by rw [hbytes, List.length_append]; omega)
  cases hok.symm.trans hmsg

/-- A line outside the grammar is rejected exactly when it is shorter than four octets or its first
three are not a numeral: with a sign, with white space around the digits, with underscores between
them, or without the separator behind them, it is taken for a reply. -/
theorem rejected_iff (fl : Flavour) {l : Bytes} (hl : ¬ HasCrlf l) :
    (¬ StatusLine l → LineRejected fl l) ↔
      StatusLine l ∨ l.length < minFtpResponse ∨ ¬ Numeral (l.take 3) := by
  have hcode : (l.length < minFtpResponse ∨ ¬ Numeral (l.take 3)) ↔ ¬ ReadsAsCode l := by
    unfold ReadsAsCode
    grind
  rw [hcode]
  constructor
  · intro h
    by_cases hstatus : StatusLine l
    · exact .inl hstatus
    · exact .inr fun hreads => not_rejected_of_readsAsCode fl hl hreads (h hstatus)
  · rintro (hstatus | hno) hnot
    · exact absurd hstatus hnot
    · exact rejected_of_not_readsAsCode fl hl hno

theorem not_statusLine {l : Bytes} (h : (l.take 3).all isDigit = false) : ¬ StatusLine l := by
  rintro ⟨ddd, c, text, hddd, -, heq⟩
  have htake : l.take 3 = ddd := by simp [heq, ← hddd.length]
  rw [htake, hddd.digits] at h
  cases h

/-- The line `+12 ok` is not rejected, and `12x ok` is. -/
theorem rejected_iff_signed :
    ((¬ StatusLine (line "+12 ok") → LineRejected .sync (line "+12 ok")) ↔
      StatusLine (line "+12 ok") ∨ (line "+12 ok").length < minFtpResponse ∨
        ¬ Numeral ((line "+12 ok").take 3)) ∧
      LineRejected .aio (line "12x ok") := by
  have hnumeral : ¬ Numeral ((line "12x ok").take 3) := by
    rw [← pyInt_code_iff (by decide), show pyInt ((line "12x ok").take 3) = none by decide]
    simp
  exact ⟨rejected_iff .sync (by decide),
    (rejected_iff .aio (by decide)).mpr (.inr (.inr hnumeral)) (not_statusLine (by decide))⟩

/-- The line `+12 ok` is taken for a reply with the code 12. -/
theorem not_all_rejected :
    ¬ ∀ (fl : Flavour) (l : Bytes), ¬ HasCrlf l → ¬ StatusLine l → LineRejected fl l := by
  intro h
  have hdigits : Digits [49, 50] :=
    ⟨[[49, 50]], List.cons_ne_nil _ _, by decide, by decide⟩
  have hcode : ReadsAsCode (line "+12 ok") := ⟨by decide, .plus [49, 50] (by decide) hdigits⟩
  exact not_rejected_of_readsAsCode .sync (by decide) hcode
    (h .sync _ (by decide) (not_statusLine (by decide)))

end GufoBlob.Ftp
