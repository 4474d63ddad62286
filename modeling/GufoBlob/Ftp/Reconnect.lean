import GufoBlob.Ftp.Injection

/-!
# Reconnecting

What an `FTPBlob` without a connection does next should depend on what it gets from the connection
that it opens next. The field `_response_buffer` is not cleared when a connection is given up, so
what was left over from an old one is read as the beginning of the new one.

* `fresh_iff` — an object that is disconnected behaves like a new one exactly when nothing was left
  over.
* `exists_telling_script` — the reason: whatever was left over, there is a server to which the
  object logs in with the leftover but not without it, or the other way round.
* `not_alike_stale` — two runs that differ in what the first connection sent, and behave differently
  on the second.
-/

namespace GufoBlob.Ftp

open Text Interaction Program FTPBlob

/-! ## The greeting of a server -/

/-- A first line that can begin the reply that `_login` waits for. -/
def Greets (line : Bytes) : Prop :=
  minFtpResponse ≤ line.length ∧ bytesToIntRange (line.take 3) 0 999 = .ok ready

/-- Only one text of three octets is read as the code 220. -/
theorem eq_of_code_ready {x : Bytes} (hx : x.length = 3)
    (h : bytesToIntRange x 0 999 = .ok ready) : x = [50, 50, 48] := by
  obtain ⟨hdigits, hvalue⟩ := digits_of_code hx.le (by decide) h
  match x, hx with
  | [a, b, c], _ =>
      have h48 : (48 : UInt8).toNat = 48 := rfl
      have h50 : (50 : UInt8).toNat = 50 := rfl
      have h57 : (57 : UInt8).toNat = 57 := rfl
      simp only [List.all_cons, List.all_nil, isDigit, Bool.and_eq_true, decide_eq_true_eq,
        UInt8.le_iff_toNat_le, Bool.and_true] at hdigits
      simp only [digitsValue, List.foldl_cons, List.foldl_nil, ready] at hvalue
      have ha : a.toNat = 50 := by omega
      have hb : b.toNat = 50 := by omega
      have hc : c.toNat = 48 := by omega
      rw [UInt8.toNat_inj.mp (ha.trans h50.symm), UInt8.toNat_inj.mp (hb.trans h50.symm),
        UInt8.toNat_inj.mp (hc.trans h48.symm)]

theorem Greets.take {line : Bytes} (hline : Greets line) : line.take 3 = [50, 50, 48] := by
  apply eq_of_code_ready _ hline.2
  have hlen : 4 ≤ line.length := hline.1
  rw [List.length_take]
  omega

/-- `220 .` -/
def greeting : Bytes := line "220 ."

/-- A line that is no reply. -/
def noise : Bytes := line "xxxx"

theorem greets_greeting : Greets greeting := by
  unfold Greets
  decide

theorem not_greets_noise : ¬ Greets noise := by
  unfold Greets
  decide

theorem not_hasCrlf_greeting : ¬ HasCrlf greeting := by decide

theorem not_hasCrlf_noise : ¬ HasCrlf noise := by decide

/-- The greeting ends every reply that a greeting began. -/
theorem Greets.endsReply {line : Bytes} (hline : Greets line) : endsReply line greeting = true := by
  unfold FTPBlob.endsReply
  rw [hline.take]
  decide

theorem greeting_eq : greeting = [50, 50, 48, 32, 46] := by decide

/-- A leftover that makes a greeting of the new one is long enough to be one by itself. -/
theorem greets_append {buf : Bytes} (hbuf : buf ≠ []) (h : Greets (buf ++ greeting)) :
    Greets (buf ++ noise) := by
  have htake := h.take
  have hthree : 3 ≤ buf.length := by
    rw [greeting_eq] at htake
    match buf, hbuf with
    | [a], _ => simp at htake
    | [a, b], _ => simp at htake
    | a :: b :: c :: rest, _ => simp
  rw [List.take_append_of_le_length hthree] at htake
  refine ⟨?_, ?_⟩
  · rw [List.length_append, minFtpResponse, show noise.length = 4 by decide]
    omega
  · rw [List.take_append_of_le_length hthree, htake]
    decide

/-! ## A script as a stream -/

section Stream

variable {fl : Flavour} {conn : FtpProg (Option (Sock .control))} {s : Sock .control}
  {f : Option FTPFeatures} {next : Nat} {log : List Event}
  (hconn : Holds (recording scripted) conn s)

/-- What is in the buffer and still to come is the stream `b`. -/
structure Delivers (buf : Bytes) (l : List Bytes) (b : Bytes) : Prop where
  stream : buf ++ l.flatten = b
  parts : ∀ x ∈ l, x ≠ []

include hconn

/-- A line of the stream, wherever the parts of the script end. -/
theorem wp_readLine_stream {fuel : Nat} {buf : Bytes} {l : List Bytes} {b first rest : Bytes}
    (hb : Delivers buf l b) (hline : cutLine b = some (first, rest)) (hfuel : l.length < fuel)
    {Q : Outcome PyExc Bytes → State → Transcript (List Bytes) → Prop}
    (hQ : ∀ buf' l', Delivers buf' l' rest → l'.length ≤ l.length →
      Q (.ok first) ⟨some s, buf', f⟩ ⟨l', next, log⟩) :
    wp (recording scripted) (readLine fl.dialect fuel conn) Q ⟨some s, buf, f⟩ ⟨l, next, log⟩ := by
  show wp _ (readLineLoop fl.dialect conn fuel) _ _ _
  induction fuel generalizing buf l with
  | zero => omega
  | succ n ih =>
      obtain ⟨rfl, hparts⟩ := hb
      unfold readLineLoop
      rw [bind_eq, wp_bind, wp_read, bindPost_ok]
      dsimp only
      cases hbuf : cutLine buf with
      -- what is still to come does not move the end of the line
      | some x =>
          obtain ⟨first', rest'⟩ := x
          have hboth := cutLine_append hbuf l.flatten
          rw [hline] at hboth
          obtain ⟨rfl, rfl⟩ : first = first' ∧ rest = rest' ++ l.flatten := by simpa using hboth
          exact hQ rest' l ⟨rfl, hparts⟩ le_rfl
      | none =>
          cases l with
          | nil =>
              rw [List.flatten_nil, List.append_nil, hbuf] at hline
              cases hline
          | cons x l =>
              have hx : x ≠ [] := hparts x List.mem_cons_self
              have hdelivers : Delivers (buf ++ x) l (buf ++ (x :: l).flatten) :=
                ⟨by simp, fun y hy => hparts y (List.mem_cons_of_mem _ hy)⟩
              unfold receive
              simp only [bind_eq, wp_bind, wp_tryCatch, hconn _ (⟨some s, buf, f⟩ : State) _ rfl,
                bindPost_ok, wp_recv_scripted, catchPost_ok, List.isEmpty_iff, if_neg hx,
                wp_appendBuffer]
              apply ih hdelivers (Nat.lt_of_succ_lt_succ hfuel)
              exact fun buf' l' hb' hle => hQ buf' l' hb' (hle.trans (Nat.le_succ _))

/-- The further lines of a reply, up to the first line that ends it. -/
theorem wp_moreLines_stream {fuel n : Nat} {first last : Bytes} {ls : List Bytes}
    (hlines : ∀ x ∈ ls ++ [last], ¬ HasCrlf x) (hlast : endsReply first last = true)
    (hn : ls.length < n) {buf : Bytes} {l : List Bytes}
    (hb : Delivers buf l ((ls ++ [last]).flatMap frame)) (hfuel : l.length < fuel)
    (lines : List Bytes) :
    wp (recording scripted) (moreLines fl.dialect fuel conn first n lines)
      (fun o st t => (∃ lines, o = .ok lines) ∧ st.conn = some s ∧ t.log = log)
      ⟨some s, buf, f⟩ ⟨l, next, log⟩ := by
  induction n generalizing ls buf l lines with
  | zero => omega
  | succ n ih =>
      unfold moreLines
      rw [bind_eq, wp_bind]
      cases ls with
      | nil =>
          have hline := cutLine_frame (hlines last (by simp)) []
          apply wp_readLine_stream hconn hb (by simpa [frame] using hline) hfuel
          intro buf' l' _ _
          rw [bindPost_ok, if_pos hlast]
          exact ⟨⟨_, rfl⟩, rfl, rfl⟩
      | cons x ls =>
          have hline := cutLine_frame (hlines x (by simp)) ((ls ++ [last]).flatMap frame)
          apply wp_readLine_stream hconn hb hline hfuel
          intro buf' l' hb' hle
          rw [bindPost_ok]
          split
          · exact ⟨⟨_, rfl⟩, rfl, rfl⟩
          · apply ih _ _ hb' (by omega)
            · exact fun y hy => hlines y (List.mem_cons_of_mem _ hy)
            · exact Nat.lt_of_succ_lt_succ hn

/-- A stream that greets, and ends with a greeting, lets the login begin. -/
theorem wp_expect_greets {fuel : Nat} {first : Bytes} {ls : List Bytes}
    (hlines : ∀ x ∈ first :: (ls ++ [greeting]), ¬ HasCrlf x) (hfirst : Greets first)
    {buf : Bytes} {l : List Bytes}
    (hb : Delivers buf l ((first :: (ls ++ [greeting])).flatMap frame))
    (hfuel : ls.length + l.length < fuel) :
    wp (recording scripted) (expect fl.dialect fuel conn ready)
      (fun o st t => o = .ok () ∧ st.conn = some s ∧ t.log = log)
      ⟨some s, buf, f⟩ ⟨l, next, log⟩ := by
  have hline := cutLine_frame (hlines first List.mem_cons_self) ((ls ++ [greeting]).flatMap frame)
  unfold expect readResponse
  rw [bind_eq, wp_bind, bind_eq, wp_bind]
  apply wp_readLine_stream hconn hb hline (by omega)
  intro buf' l' hb' hle
  rw [bindPost_ok, if_neg (Nat.not_lt.mpr hfirst.1), bind_eq, wp_bind, wp_ofExcept, hfirst.2,
    bindPost_ok]
  split
  · rw [bind_eq, wp_bind]
    have hmore : wp (recording scripted) (moreLines fl.dialect fuel conn first fuel [first])
        (fun o st t => (∃ lines, o = .ok lines) ∧ st.conn = some s ∧ t.log = log)
        ⟨some s, buf', f⟩ ⟨l', next, log⟩ :=
      wp_moreLines_stream hconn (fun x hx => hlines x (List.mem_cons_of_mem _ hx))
        hfirst.endsReply (by omega) hb' (by omega) _
    apply wp_mono hmore
    rintro o st t ⟨⟨lines, rfl⟩, hst, ht⟩
    exact ⟨rfl, hst, ht⟩
  · exact ⟨rfl, rfl, rfl⟩

/-- Nothing was asked so far. -/
def NoneAsked (t : Transcript (List Bytes)) : Prop := ∀ id c, .asked id c ∉ t.log

omit hconn in
theorem noneAsked_recording {t : Transcript (List Bytes)} {o : FtpOp} (ho : SocketOp o)
    (ht : NoneAsked t) : NoneAsked (recording scripted t o).2 := by
  intro id c hmem
  unfold recording at hmem
  split at hmem
  · exact ho
  · rcases List.mem_append.mp hmem with hmem | hmem
    · exact ht id c hmem
    · cases o with
      | asked s cmd => exact ho
      | _ => simp [events] at hmem

omit hconn in
theorem noneAsked_sockets (J : State → Prop) :
    Sockets (fun p : FtpProg _ => Preserves (recording scripted) (fun st t => J st ∧ NoneAsked t) p)
    where
  toCompositional := preserves_compositional _ _
  call _ _ ho hk := preserves_call (fun _ _ hJ => ⟨hJ.1, noneAsked_recording ho hJ.2⟩) hk

theorem noneAsked_reads :
    Reads (fun p : FtpProg _ =>
      Preserves (recording scripted) (fun st t => st.conn = some s ∧ NoneAsked t) p)
      fl.dialect conn where
  toCompositional := preserves_compositional _ _
  connection := fun st t hJ => (hconn _ st t hJ.1).mpr hJ
  read := preserves_read
  setBuffer _ := preserves_modify fun _ _ hJ => hJ
  appendBuffer _ := preserves_modify fun _ _ hJ => hJ
  recv := recv_of (noneAsked_sockets _) fl

/-- A stream whose first line is no greeting ends the login before it begins. -/
theorem wp_expect_not_greets {fuel : Nat} {buf : Bytes} {l : List Bytes} {b first rest : Bytes}
    (hb : Delivers buf l b) (hline : cutLine b = some (first, rest)) (hfirst : ¬ Greets first)
    (hfuel : l.length < fuel) (hlog : ∀ id c, .asked id c ∉ log) :
    wp (recording scripted) (expect fl.dialect fuel conn ready)
      (fun o st t => o ≠ .ok () ∧ st.conn = some s ∧ NoneAsked t)
      ⟨some s, buf, f⟩ ⟨l, next, log⟩ := by
  unfold expect readResponse
  rw [bind_eq, wp_bind, bind_eq, wp_bind]
  apply wp_readLine_stream hconn hb hline hfuel
  intro buf' l' hb' hle
  have hasked : NoneAsked (⟨l', next, log⟩ : Transcript (List Bytes)) := hlog
  rw [bindPost_ok]
  split
  · exact ⟨by simp, rfl, hasked⟩
  · next hlen =>
      rw [bind_eq, wp_bind, wp_ofExcept]
      cases hcode : bytesToIntRange (first.take 3) 0 999 with
      | error e => exact ⟨by simp, rfl, hasked⟩
      | ok code =>
          -- whether more lines follow or not, the code is that of the first one
          have hne : code ≠ ready := by
            rintro rfl
            exact hfirst ⟨Nat.not_lt.mp hlen, hcode⟩
          rw [bindPost_ok]
          split
          · have hmore : wp (recording scripted) (moreLines fl.dialect fuel conn first fuel [first])
                (fun _ st t => st.conn = some s ∧ NoneAsked t) ⟨some s, buf', f⟩ ⟨l', next, log⟩ :=
              moreLines_of (noneAsked_reads hconn) first fuel [first] _ _ ⟨rfl, hasked⟩
            rw [bind_eq, wp_bind]
            apply wp_mono hmore
            intro o st t hJ
            cases o with
            | ok lines =>
                rw [bindPost_ok, pure_eq, wp_pure, bindPost_ok]
                dsimp only
                rw [if_pos hne]
                exact ⟨nofun, hJ⟩
            | error e => exact ⟨by simp, hJ⟩
            | spun => exact ⟨by simp, hJ⟩
          · rw [pure_eq, wp_pure, bindPost_ok]
            dsimp only
            rw [if_pos hne]
            exact ⟨nofun, rfl, hasked⟩

end Stream

/-! ## A login that begins, and one that does not -/

section Login

variable {fl : Flavour} {b : FTPBlob} {buf : Bytes} {l : List Bytes} {f : Option FTPFeatures}
  {next : Nat}

/-- The object logs in when the stream greets. -/
theorem asked_of_greets (hb : 0 < b.retries) {n : Nat} {first : Bytes} {ls : List Bytes}
    (hlines : ∀ x ∈ first :: (ls ++ [greeting]), ¬ HasCrlf x) (hfirst : Greets first)
    (hstream : Delivers buf l ((first :: (ls ++ [greeting])).flatMap frame))
    (hfuel : ls.length + l.length < n + 2) (log : List Event) :
    wp (recording scripted) (fl.connection b (n + 2)) (fun _ _ => Asked b.userCmd) ⟨none, buf, f⟩
      ⟨l, next, log⟩ := by
  apply asked_of_login hb rfl
  intro log
  have hholds : Holds (recording scripted) (FTPBlob.connection fl.dialect b (n + 2) (n + 1)) ⟨next⟩ :=
    connection_holds _ _ _ _ _
  unfold login
  rw [bind_eq, wp_bind]
  apply wp_mono (wp_expect_greets hholds hlines hfirst hstream hfuel)
  rintro o st t ⟨rfl, hst, rfl⟩
  rw [bindPost_ok]
  apply wp_bind_of_stable (asked_stable scripted _)
  exact wp_bind_of_stable (asked_stable scripted _) (asked_cmd hholds hst _)

/-- The object gives the connection up when it does not, and has sent nothing. -/
theorem noneAsked_of_not_greets (hb : 0 < b.retries) {n : Nat} {stream first rest : Bytes}
    (hstream : Delivers buf l stream) (hline : cutLine stream = some (first, rest))
    (hfirst : ¬ Greets first) (hfuel : l.length < n + 2) :
    wp (recording scripted) (fl.connection b (n + 2))
      (fun o _ t => (∀ r, o ≠ .ok r) ∧ NoneAsked t) ⟨none, buf, f⟩ (.fresh l) := by
  have hholds : Holds (recording scripted) (FTPBlob.connection fl.dialect b (n + 2) (n + 1)) ⟨0⟩ :=
    connection_holds _ _ _ _ _
  unfold Flavour.connection FTPBlob.connection connectAndLogin Transcript.fresh
  rw [bind_eq, wp_bind, wp_read, bindPost_ok]
  dsimp only
  rw [bind_eq, wp_bind, bind_eq, wp_bind, wp_tcpConnect_scripted hb, bindPost_ok, bind_eq, wp_bind,
    wp_setConn, bindPost_ok, wp_tryCatch]
  unfold login
  rw [bind_eq, wp_bind]
  apply wp_mono (wp_expect_not_greets hholds hstream hline hfirst hfuel (by simp))
  rintro o st t ⟨ho, hst, hasked⟩
  cases o with
  | ok u => exact absurd rfl ho
  | spun => exact ⟨by simp, hasked⟩
  | error e =>
      rw [bindPost_error, catchPost_error]
      unfold loginFailed
      split
      · unfold dropHeld
        rw [bind_eq, wp_bind, bind_eq, wp_bind, wp_read, bindPost_ok, hst]
        have hdrop := dropConn_of (noneAsked_sockets fun _ => True) fl ⟨0⟩ st t ⟨trivial, hasked⟩
        apply wp_mono hdrop
        intro o st' t' hJ
        cases o with
        | ok u => exact ⟨by simp, hJ.2⟩
        | error e => exact ⟨by simp, hJ.2⟩
        | spun => exact ⟨by simp, hJ.2⟩
      · exact ⟨by simp, hasked⟩

/-- With `buf` left over, the object begins its login on the server with the script `l`. -/
def LogsIn (fl : Flavour) (b : FTPBlob) (n : Nat) (f : Option FTPFeatures) (l : List Bytes)
    (buf : Bytes) : Prop :=
  wp (recording scripted) (fl.connection b (n + 2)) (fun _ _ => Asked b.userCmd) ⟨none, buf, f⟩
    (.fresh l)

/-- With `buf` left over, the object gives up before it has sent anything. -/
def GivesUp (fl : Flavour) (b : FTPBlob) (n : Nat) (f : Option FTPFeatures) (l : List Bytes)
    (buf : Bytes) : Prop :=
  wp (recording scripted) (fl.connection b (n + 2)) (fun o _ t => (∀ r, o ≠ .ok r) ∧ NoneAsked t)
    ⟨none, buf, f⟩ (.fresh l)

/-- The first line of the leftover is the first line on any connection, or the new octets complete
it. -/
theorem greets_of_leftover (hbuf : buf ≠ []) {first first' : Bytes} {ls ls' : List Bytes}
    (hlines : ∀ x ∈ first :: ls, ¬ HasCrlf x) (hlines' : ∀ x ∈ first' :: ls', ¬ HasCrlf x)
    (h : buf ++ greeting ++ crlf = (first :: ls).flatMap frame)
    (h' : buf ++ noise ++ crlf = (first' :: ls').flatMap frame) (hfirst : Greets first) :
    Greets first' := by
  have hcut : cutLine (buf ++ greeting ++ crlf) = some (first, ls.flatMap frame) := by
    rw [h]
    exact cutLine_frame (hlines first List.mem_cons_self) _
  have hcut' : cutLine (buf ++ noise ++ crlf) = some (first', ls'.flatMap frame) := by
    rw [h']
    exact cutLine_frame (hlines' first' List.mem_cons_self) _
  cases hline : cutLine buf with
  | some x =>
      obtain ⟨p, r⟩ := x
      rw [List.append_assoc, cutLine_append hline] at hcut hcut'
      obtain ⟨rfl, -⟩ : p = first ∧ _ := by simpa using hcut
      obtain ⟨rfl, -⟩ : p = first' ∧ _ := by simpa using hcut'
      exact hfirst
  | none =>
      have hno : ¬ HasCrlf buf := cutLine_eq_none_iff.mp hline
      have hone : ¬ HasCrlf (buf ++ greeting) := by
        rw [hasCrlf_append (by rw [greeting_eq]; simp [StartsLf])]
        exact not_or.mpr ⟨hno, not_hasCrlf_greeting⟩
      have hone' : ¬ HasCrlf (buf ++ noise) := by
        rw [hasCrlf_append (by unfold StartsLf; decide)]
        exact not_or.mpr ⟨hno, not_hasCrlf_noise⟩
      have heq := cutLine_frame hone []
      have heq' := cutLine_frame hone' []
      rw [List.append_nil, hcut] at heq
      rw [List.append_nil, hcut'] at heq'
      obtain ⟨rfl, -⟩ : first = buf ++ greeting ∧ _ := by simpa using heq
      obtain ⟨rfl, -⟩ : first' = buf ++ noise ∧ _ := by simpa using heq'
      exact greets_append hbuf hfirst

/-- Whatever was left over, some server can tell: it is greeted either with the leftover only or
without it only. -/
theorem exists_telling_script (fl : Flavour) (hb : 0 < b.retries) (f : Option FTPFeatures)
    (hbuf : buf ≠ []) : ∃ (l : List Bytes) (n : Nat),
      (LogsIn fl b n f l buf ∧ GivesUp fl b n f l []) ∨
        (GivesUp fl b n f l buf ∧ LogsIn fl b n f l []) := by
  obtain ⟨first, ls, hlines, heq⟩ := exists_frames (buf ++ greeting)
  by_cases hfirst : Greets first
  · -- a server that sends noise first
    obtain ⟨first', ls', hlines', heq'⟩ := exists_frames (buf ++ noise)
    have hfirst' := greets_of_leftover hbuf hlines hlines' heq heq' hfirst
    have hstream : Delivers buf [frame noise ++ frame greeting]
        ((first' :: (ls' ++ [greeting])).flatMap frame) := by
      refine ⟨?_, by simp [frame, crlf]⟩
      rw [← List.cons_append, List.flatMap_append, ← heq']
      simp [frame]
    have hclean : Delivers [] [frame noise ++ frame greeting] (noise ++ crlf ++ frame greeting) :=
      ⟨by simp [frame], by simp [frame, crlf]⟩
    refine ⟨[frame noise ++ frame greeting], ls'.length, .inl ⟨?_, ?_⟩⟩
    · apply asked_of_greets hb _ hfirst' hstream (by simp)
      intro x hx
      rcases List.mem_append.mp (List.cons_append ▸ hx) with hx | hx
      · exact hlines' x hx
      · exact List.mem_singleton.mp hx ▸ not_hasCrlf_greeting
    · exact noneAsked_of_not_greets hb hclean (cutLine_frame not_hasCrlf_noise _) not_greets_noise
        (by simp)
  · -- a server that greets
    have hstream : Delivers buf [frame greeting ++ frame greeting]
        (first ++ crlf ++ (ls.flatMap frame ++ frame greeting)) := by
      refine ⟨?_, by simp [frame, crlf]⟩
      rw [List.flatMap_cons, frame] at heq
      rw [← List.append_assoc, ← heq]
      simp [frame]
    have hclean : Delivers [] [frame greeting ++ frame greeting]
        ((greeting :: ([] ++ [greeting])).flatMap frame) :=
      ⟨by simp, by simp [frame, crlf]⟩
    refine ⟨[frame greeting ++ frame greeting], 0, .inr ⟨?_, ?_⟩⟩
    · exact noneAsked_of_not_greets hb hstream
        (cutLine_frame (hlines first List.mem_cons_self) _) hfirst (by simp)
    · apply asked_of_greets hb _ greets_greeting hclean (by simp)
      simp [not_hasCrlf_greeting]

end Login

end GufoBlob.Ftp

namespace GufoBlob.FTPBlob

open Text Interaction Program Ftp

/-! ## What is seen of an object -/

section Alike

variable {E : Type} {h : Handler ftp E} {fl : Flavour} {b : FTPBlob} {fuel : Nat} {st : State}
  {t : Transcript E}

/-- What the calls `cs` return, and what they do on their sockets. -/
def observed (h : Handler ftp E) (fl : Flavour) (b : FTPBlob) (fuel : Nat) (cs : List Call)
    (st : State) (e : E) : List (Outcome PyExc Value) × List Event :=
  let r := runCalls (recording h) (fl.backend b fuel).perform cs st (.fresh e)
  (r.1, r.2.2.log)

/-- The calls `cs` behave alike in two states, on every server. -/
def Alike (fl : Flavour) (b : FTPBlob) (cs : List Call) (st₁ st₂ : State) : Prop :=
  ∀ (E : Type) (h : Handler ftp E) (e : E) (fuel : Nat),
    observed h fl b fuel cs st₁ e = observed h fl b fuel cs st₂ e

/-- An object without any connection so far that knows the features of `st`. -/
def renewed (st : State) : State := ⟨none, [], st.features⟩

/-- Without its connection an object behaves like a new one from then on. The connection is given
up between two calls, or by the asynchronous `close` before it calls `_cmd`. -/
structure Fresh (fl : Flavour) (b : FTPBlob) (st : State) : Prop where
  idle : st.conn = none → ∀ cs, Alike fl b cs st (renewed st)
  closing : fl = .aio → ∀ cs, Alike fl b (.close :: cs) { st with conn := none } (renewed st)

/-- Two objects that differ in their earlier connections behave alike when both are fresh. -/
theorem Fresh.alike {st₁ st₂ : State} (h₁ : Fresh fl b st₁) (h₂ : Fresh fl b st₂)
    (hst₁ : st₁.conn = none) (hst₂ : st₂.conn = none) (hfeatures : st₁.features = st₂.features)
    (cs : List Call) : Alike fl b cs st₁ st₂ := by
  intro E h e fuel
  have hsame : renewed st₁ = renewed st₂ := by
    unfold renewed
    rw [hfeatures]
  rw [h₁.idle hst₁ cs E h e fuel, hsame, h₂.idle hst₂ cs E h e fuel]

/-- What happens on the sockets in a single call. -/
theorem observed_single (c : Call) (e : E) : (observed h fl b fuel [c] st e).2 =
    (((fl.backend b fuel).perform c).run (recording h) st (.fresh e)).2.2.log := by
  unfold observed runCalls
  split
  · next heq => rw [heq]
  · next heq => rw [heq]; rfl

/-- A call that needs a connection before anything else. -/
def Connects (fl : Flavour) (c : Call) : Prop := c = .open' ∨ c = .close ∧ fl = .aio

theorem asked_of_logsIn {c : Call} (hc : Connects fl c) {n : Nat} {f : Option FTPFeatures}
    {l : List Bytes} {buf : Bytes} (hlogin : LogsIn fl b n f l buf) :
    wp (recording scripted) ((fl.backend b (n + 2)).perform c) (fun _ _ => Asked b.userCmd)
      ⟨none, buf, f⟩ (.fresh l) := by
  have hstable := asked_stable scripted b.userCmd
  rcases hc with rfl | ⟨rfl, rfl⟩
  · exact wp_bind_of_stable hstable (wp_bind_of_stable hstable hlogin)
  · apply wp_bind_of_stable hstable
    show wp _ (Aio.FTPBlob.close _ _) _ _ _
    unfold Aio.FTPBlob.close
    rw [bind_eq, wp_bind, wp_read, bindPost_ok, bind_eq, wp_bind, wp_setConn, bindPost_ok]
    apply wp_tryFinally_of_stable hstable
    apply wp_tryCatch_of_stable hstable
    apply wp_bind_of_stable hstable
    exact asked_of_cmd hlogin quitCmd

theorem noneAsked_of_givesUp {c : Call} (hc : Connects fl c) {n : Nat} {f : Option FTPFeatures}
    {l : List Bytes} {buf : Bytes} (hfails : GivesUp fl b n f l buf) :
    wp (recording scripted) ((fl.backend b (n + 2)).perform c) (fun _ _ => NoneAsked)
      ⟨none, buf, f⟩ (.fresh l) := by
  rcases hc with rfl | ⟨rfl, rfl⟩
  · show wp _ (Program.bind (Program.bind _ _) _) _ _ _
    rw [wp_bind, wp_bind]
    apply wp_mono hfails
    intro o st t ho
    cases o with
    | ok r => exact absurd rfl (ho.1 r)
    | error e => exact ho.2
    | spun => exact ho.2
  -- `close` of the asynchronous version connects in order to send `QUIT`
  · have hquit : wp (recording scripted) (suppressBlobError ((cmd Aio.FTPBlob.dialect (n + 2)
        (Flavour.aio.connection b (n + 2)) quitCmd).bind fun _ => .pure ())) (fun _ _ => NoneAsked)
        ⟨none, buf, f⟩ (.fresh l) := by
      unfold suppressBlobError cmd sendCmd
      simp only [bind_eq, wp_tryCatch, wp_bind]
      apply wp_mono hfails
      intro o st t ho
      cases o with
      | ok r => exact absurd rfl (ho.1 r)
      | error e =>
          rw [bindPost_error, catchPost_error]
          unfold sendFailed
          cases e with
          | ioError e => cases e <;> exact ho.2
          | _ => exact ho.2
      | spun => exact ho.2
    show wp _ (Program.bind (Aio.FTPBlob.close _ _) _) _ _ _
    unfold Aio.FTPBlob.close
    rw [wp_bind, bind_eq, wp_bind, wp_read, bindPost_ok, bind_eq, wp_bind, wp_setConn, bindPost_ok,
      wp_tryFinally]
    apply wp_mono hquit
    intro o st t ho
    cases o with
    | ok u => exact ho
    | error e => exact ho
    | spun => exact ho

/-- A leftover shows in the first call that connects. -/
theorem not_alike_of_leftover (hb : 0 < b.retries) {c : Call} (hc : Connects fl c) {buf : Bytes}
    (hbuf : buf ≠ []) (f : Option FTPFeatures) :
    ¬ Alike fl b [c] ⟨none, buf, f⟩ ⟨none, [], f⟩ := by
  intro halike
  obtain ⟨l, n, htell⟩ := exists_telling_script fl hb f hbuf
  have hlog := congrArg Prod.snd (halike _ scripted l (n + 2))
  have hasked : ∀ buf, LogsIn fl b n f l buf →
      ∃ id, .asked id b.userCmd ∈ (observed scripted fl b (n + 2) [c] ⟨none, buf, f⟩ l).2 := by
    intro buf hlogin
    rw [observed_single]
    obtain ⟨id, hid⟩ := asked_of_logsIn hc hlogin
    obtain ⟨ev, hev, hcmd⟩ := List.mem_filterMap.mp hid
    cases ev with
    | asked i x =>
        obtain ⟨-, rfl⟩ : i = id ∧ x = b.userCmd := by simpa [Event.command] using hcmd
        exact ⟨i, hev⟩
    | _ => cases hcmd
  have hsilent : ∀ buf, GivesUp fl b n f l buf →
      ∀ id x, .asked id x ∉ (observed scripted fl b (n + 2) [c] ⟨none, buf, f⟩ l).2 := by
    intro buf hfails
    rw [observed_single]
    exact noneAsked_of_givesUp hc hfails
  rcases htell with ⟨hlogin, hfails⟩ | ⟨hfails, hlogin⟩
  · obtain ⟨id, hid⟩ := hasked _ hlogin
    exact hsilent _ hfails id _ (hlog ▸ hid)
  · obtain ⟨id, hid⟩ := hasked _ hlogin
    exact hsilent _ hfails id _ (hlog ▸ hid)

end Alike

/-! ## Fresh connections -/

/-- **A reconnection is fresh exactly when nothing was left over**: after any run of an object, in
both classes, what it does without its connection depends on the new connections alone exactly when
the reply buffer is empty at the moment the old connection is given up. -/
theorem fresh_iff {E : Type} {h : Handler ftp E} {fl : Flavour} {b : FTPBlob} {fuel : Nat}
    {st : State} {t : Transcript E} (hr : Run h fl b fuel st t) :
    Fresh fl b st ↔ (st.conn = none ∨ fl = .aio → st.responseBuffer = []) := by
  have hretries : st.responseBuffer ≠ [] → 0 < b.retries := by
    intro hbuf
    by_contra hb
    exact hbuf (unsent_run (Int.not_lt.mp hb) hr).buffer
  constructor
  · intro hfresh hgiven
    by_contra hbuf
    rcases hgiven with hst | haio
    · have halike := hfresh.idle hst [.open']
      rw [show st = ⟨none, st.responseBuffer, st.features⟩ by rw [← hst]] at halike
      exact not_alike_of_leftover (hretries hbuf) (.inl rfl) hbuf _ halike
    · have hconnects : Connects fl .close := .inr ⟨rfl, haio⟩
      exact not_alike_of_leftover (hretries hbuf) hconnects hbuf _ (hfresh.closing haio [])
  · intro hempty
    constructor
    · intro hst cs E h e fuel
      rw [show st = renewed st by unfold renewed; rw [← hst, ← hempty (.inl hst)]]
      rfl
    · intro haio cs E h e fuel
      rw [show ({ st with conn := none } : State) = renewed st by
        unfold renewed; rw [← hempty (.inr haio)]]

/-- A blob that was opened and closed against a healthy server is fresh. -/
theorem fresh_iff_closed : ∃ st t, Run scripted .sync anonymous 2 st t ∧ st.conn = none ∧
    t.next = 1 ∧ Fresh .sync anonymous st := by
  have hrun : Run scripted .sync anonymous 2 _ _ :=
    Reachable.step Call.close (.step Call.open'
      (.init ⟨rfl, loginScript anonymous ++ [line "221 ." ++ crlf], rfl⟩)
      (by decide)) (by decide +kernel)
  exact ⟨_, _, hrun, by decide, by decide +kernel,
    (fresh_iff hrun).mpr fun _ => by decide⟩

/-- A new object after a failed `open`: the server rejects it, and sends `rest` as well. -/
def rejected (fl : Flavour) (rest : Bytes) : Outcome PyExc Value × State × Transcript (List Bytes) :=
  ((fl.backend anonymous 2).perform .open').run (recording scripted) anonymous.start
    (.fresh [frame (line "500 .") ++ rest])

/-- The state is that of a disconnected object after a run. -/
def Disconnected (fl : Flavour) (st : State) : Prop :=
  st.conn = none ∧ ∃ t, Run scripted fl anonymous 2 st t

theorem disconnected_rejected {fl : Flavour} {rest : Bytes} (hreturns : (rejected fl rest).1 ≠ .spun)
    (hconn : (rejected fl rest).2.1.conn = none) : Disconnected fl (rejected fl rest).2.1 :=
  ⟨hconn, _, Reachable.step Call.open' (.init ⟨rfl, _, rfl⟩) hreturns⟩

/-- A greeting that is read when the object connects again. -/
def staleGreeting : Bytes := frame (line "220 .")

theorem disconnected_stale (fl : Flavour) : Disconnected fl (rejected fl staleGreeting).2.1 := by
  apply disconnected_rejected
  · cases fl <;> decide
  · cases fl <;> decide

theorem disconnected_clean (fl : Flavour) : Disconnected fl (rejected fl []).2.1 := by
  apply disconnected_rejected
  · cases fl <;> decide
  · cases fl <;> decide

/-- Two runs that end disconnected and differ in what the server sent. When the server sends nothing
on the next connection, one object logs in there and the other does not, in both classes. -/
theorem not_alike_stale :
    (Disconnected .sync (rejected .sync staleGreeting).2.1 ∧
      Disconnected .sync (rejected .sync []).2.1 ∧
      ¬ Alike .sync anonymous [.open'] (rejected .sync staleGreeting).2.1 (rejected .sync []).2.1) ∧
    Disconnected .aio (rejected .aio staleGreeting).2.1 ∧
      Disconnected .aio (rejected .aio []).2.1 ∧
      ¬ Alike .aio anonymous [.open'] (rejected .aio staleGreeting).2.1 (rejected .aio []).2.1 := by
  have hdiffer : ∀ fl, ¬ Alike fl anonymous [.open'] (rejected fl staleGreeting).2.1
      (rejected fl []).2.1 := by
    intro fl halike
    have hseen := halike _ scripted [] 2
    cases fl with
    | sync => exact absurd hseen (by decide)
    | aio => exact absurd hseen (by decide)
  exact ⟨⟨disconnected_stale .sync, disconnected_clean .sync, hdiffer .sync⟩,
    disconnected_stale .aio, disconnected_clean .aio, hdiffer .aio⟩

end GufoBlob.FTPBlob
