import GufoBlob.Ftp.Reading

/-!
# Commands and their replies

What `_read_response` and `_cmd` do in a session. `Reading s k rest` says that the connection `s` is
held, that the server and the observer are in the state `k`, and that `rest` is what is still to be
read: the buffer and what is on the wire.

* `source_session` — so a reply at the front is read, and nothing else.
* `wp_cmd_session` — a command is answered, and what the server sent after the reply is still to be
  read.

Both hold unless a receive times out (`Failed`). In a login that is allowed after whole lines, and
then `Interrupted` says that nothing has been buffered.
-/

namespace GufoBlob.Ftp

open Text Interaction Program FTPBlob

variable {S N : Type} {P : Peer S} {net : N → Option Nat × N}

/-! ## Timeouts -/

/-- The server answers in time, on the control connection and on the data connections. -/
structure Punctual (P : Peer S) (net : N → Option Nat × N) : Prop where
  control : ∀ n, (net n).1 ≠ none
  recv : ∀ p (s : Sock .data) e, (P.other p (.recv s)).1 ≠ .error (.timeout e)
  sendall : ∀ p (s : Sock .data) b e, (P.other p (.sendall s b)).1 ≠ .error (.timeout e)

/-- A receive has timed out, of a server that need not answer in time. -/
def Failed (P : Peer S) (net : N → Option Nat × N) (t : Session S N) : Prop :=
  t.late = true ∧ ¬ Punctual P net

namespace Session

variable {t : Session S N}

@[simp] theorem late_finished : (t.finished P).late = t.late := by
  unfold finished
  split <;> rfl

@[simp] theorem late_transferred (o : FtpOp) : (t.transferred P o).late = t.late := by
  unfold transferred
  dsimp only
  split
  · exact late_finished
  · rfl

@[simp] theorem late_sent (b : Bytes) : (t.sent P b).late = t.late := by
  unfold sent
  generalize (splitCrlf b).dropLast = ls
  induction ls generalizing t with
  | nil => rfl
  | cons l ls ih => exact ih (t := t.serve P l)

theorem late_deliver (h : t.late = true) : (t.deliver net).2.late = true := by
  unfold deliver
  split
  · exact h
  · simp [h]

end Session

/-- A receive that has timed out has timed out for good. -/
theorem failed_stable (t : Session S N) (o : FtpOp) (ht : Failed P net t) :
    Failed P net (session P net t o).2 := by
  refine ⟨?_, ht.2⟩
  unfold session
  split
  · dsimp only
    split <;> exact ht.1
  · exact (Session.late_sent _).trans ht.1
  · exact (Session.late_sent _).trans ht.1
  · exact ht.1
  · exact ht.1
  · exact Session.late_deliver ht.1
  · exact ht.1
  · exact ht.1
  · exact ht.1
  · exact ht.1
  · exact (Session.late_transferred _).trans ht.1

/-! ## Calls on the control connection -/

section Calls

variable {fl : Flavour} {s : Sock .control} {st : State} {t : Session S N}

theorem wp_recv_session (Q : Outcome PyExc Bytes → State → Session S N → Prop) :
    wp (session P net) (fl.dialect.recv s) Q st t ↔
      Q (raised (t.deliver net).1) st (t.deliver net).2 := by
  cases fl
  · show wp (session P net) (.call (.recv s) raiseOnError) _ _ _ ↔ _
    rw [wp_call, wp_raiseOnError]
    rfl
  · show wp (session P net) (.call (.wait s) fun r => (raiseOnError r).bind fun _ => _) _ _ _ ↔ _
    rw [wp_call, wp_bind, wp_raiseOnError]
    show wp (session P net) (.call (.recv s) raiseOnError) _ _ _ ↔ _
    rw [wp_call, wp_raiseOnError]
    rfl

theorem wp_send_session (b : Bytes) (Q : Outcome PyExc Unit → State → Session S N → Prop) :
    wp (session P net) (fl.dialect.send s b) Q st t ↔ Q (.ok ()) st (t.sent P b) := by
  cases fl
  · show wp (session P net) (.call (.sendall s b) raiseOnError) _ _ _ ↔ _
    rw [wp_call, wp_raiseOnError]
    rfl
  · show wp (session P net) (.call (.write s b) fun _ => .call (.drain s) raiseOnError) _ _ _ ↔ _
    rw [wp_call, wp_call, wp_raiseOnError]
    rfl

theorem wp_connect_session (host : Str) (port : Nat)
    (Q : Outcome PyExc (Except IOErr (Sock .control)) → State → Session S N → Prop) :
    wp (session P net) (connect .control host port) Q st t ↔
      match (P.other t.peer (.connect .control host port)).1 with
      | .ok s => Q (.ok (.ok s)) st (t.opened P (P.other t.peer (.connect .control host port)).2)
      | .error e => Q (.ok (.error e)) st
          { t with peer := (P.other t.peer (.connect .control host port)).2 } := by
  rw [wp_connect]
  unfold session
  dsimp only
  generalize (P.other t.peer (.connect .control host port)).1 = r
  cases r <;> rfl

end Calls

/-! ## Reading -/

namespace Book

/-- So far every reply was the one to its command. -/
structure Sound (k : Book S) : Prop where
  matched : k.matched = true
  clear : k.clear = true

end Book

/-- The connection `s` is held, the server and the observer are in the state `k`, and `rest` is what
is still to be read. -/
structure Reading (s : Sock .control) (k : Book S) (rest : Bytes) (st : State) (t : Session S N) :
    Prop where
  held : st.conn = some s
  book : t.toBook = k
  unread : st.responseBuffer ++ t.wire = rest
  /-- What was delivered and is not in the buffer is made of lines. -/
  lines : ∃ ls : List Bytes, (∀ l ∈ ls, ¬ HasCrlf l) ∧
    t.delivered = ls.flatMap frame ++ st.responseBuffer
  sound : k.Sound

/-- A receive of a login has timed out after whole lines, of a server that need not answer in
time. -/
structure Interrupted (P : Peer S) (net : N → Option Nat × N) (s : Sock .control) (k : Book S)
    (e : PyExc) (st : State) (t : Session S N) : Prop where
  notPunctual : ¬ Punctual P net
  loggingIn : k.loggingIn = true
  error : IsBlobError e
  held : st.conn = some s
  buffer : st.responseBuffer = []
  sound : t.toBook.Sound

section Reading

variable {fl : Flavour} {fuel : Nat} {conn : FtpProg (Option (Sock .control))} {s : Sock .control}
  {k : Book S} {st : State} {t : Session S N} {rest : Bytes}

/-- Octets without CR LF behind the last line are no octets. -/
theorem eq_nil_of_endsLine {ls : List Bytes} {b : Bytes} (hls : ∀ l ∈ ls, ¬ HasCrlf l)
    (hb : ¬ HasCrlf b) (h : endsLine (ls.flatMap frame ++ b) = true) : b = [] := by
  unfold endsLine at h
  rw [splitCrlf_frames_append hls, splitCrlf_of_not_hasCrlf hb] at h
  simpa using h

variable (hconn : Holds (session P net) conn s)

include hconn

theorem wp_receive_session (ht : Reading s k rest st t) (hbuf : ¬ HasCrlf st.responseBuffer)
    (hwire : t.wire = [] → ¬ Punctual P net) :
    wp (session P net) (receive fl.dialect conn)
      (orFailed (Failed P net) (arrived (Interrupted P net s k) (Reading s k rest) st)) st t := by
  obtain ⟨ls, hls, hdelivered⟩ := ht.lines
  unfold receive
  rw [wp_tryCatch, bind_eq, wp_bind, hconn _ _ _ ht.held, bindPost_ok]
  dsimp only
  rw [wp_recv_session]
  unfold Session.deliver
  split
  · next n x wire _ hw =>
      right
      refine ⟨rfl, by simp, ht.held, ht.book, ?_, ⟨ls, hls, ?_⟩, ht.sound⟩
      · rw [← ht.unread, hw, List.append_assoc, List.cons_append, List.take_append_drop]
      · show t.delivered ++ _ = _
        rw [hdelivered, List.append_assoc]
  · next hnone =>
      -- nothing has arrived in time, so the server is not punctual
      have hlate : ¬ Punctual P net := by
        intro hp
        cases hw : t.wire with
        | nil => exact hwire hw hp
        | cons x wire =>
            obtain ⟨n, hn⟩ := Option.ne_none_iff_exists'.mp (hp.control t.net)
            exact hnone n x wire hn hw
      by_cases hlogin : (t.loggingIn && endsLine t.delivered) = true
      · obtain ⟨hlogin, hends⟩ := Bool.and_eq_true_iff.mp hlogin
        rw [hdelivered] at hends
        right
        exact
          { notPunctual := hlate
            loggingIn := by
              rw [← ht.book]
              exact hlogin
            error := trivial
            held := ht.held
            buffer := eq_nil_of_endsLine hls hbuf hends
            sound := by
              show t.toBook.Sound
              rw [ht.book]
              exact ht.sound }
      · left
        refine ⟨?_, hlate⟩
        show (t.late || !(t.loggingIn && endsLine t.delivered)) = true
        rw [Bool.eq_false_iff.mpr hlogin]
        simp

/-- A session in which `rest` is still to be read is a source of octets. -/
theorem source_session (fl : Flavour) :
    Source (session P net) fl conn (Failed P net) (fun t => t.toBook.Sound) (Interrupted P net s k)
      (Reading s k) where
  failed := failed_stable
  buffered ht := ⟨_, ht.unread⟩
  consumed := by
    intro l r rest st t hl hbuf ht
    obtain ⟨ls, hls, hdelivered⟩ := ht.lines
    have hunread := ht.unread
    rw [hbuf, List.append_assoc, List.append_cancel_left_eq] at hunread
    refine ⟨ht.held, ht.book, hunread, ⟨ls ++ [l], ?_, ?_⟩, ht.sound⟩
    · intro y hy
      rcases List.mem_append.mp hy with hy | hy
      · exact hls y hy
      · rwa [List.mem_singleton.mp hy]
    · rw [hdelivered, hbuf]
      simp
  received := by
    intro rest st t hbuf hmore ht
    apply wp_receive_session hconn ht hbuf
    intro hwire
    have hunread := ht.unread
    rw [hwire, List.append_nil] at hunread
    exact absurd hunread hmore
  sound ht := ht.book ▸ ht.sound

/-- When there is nothing to read, the receive times out. -/
theorem wp_readResponse_nothing (fl : Flavour) (hlate : ¬ Punctual P net) (hk : k.loggingIn = false)
    (ht : Reading s k [] st t) :
    wp (session P net) (readResponse fl.dialect fuel conn)
      (orFailed (Failed P net) (fun o _ t => o = .spun ∧ t.toBook.Sound)) st t := by
  have hbuf : st.responseBuffer = [] := (List.append_eq_nil_iff.mp ht.unread).1
  have hline : wp (session P net) (readLine fl.dialect fuel conn)
      (orFailed (Failed P net) (fun o _ t => o = .spun ∧ t.toBook.Sound)) st t := by
    unfold readLine
    cases fuel with
    | zero => exact .inr ⟨rfl, ht.book ▸ ht.sound⟩
    | succ n =>
        unfold readLineLoop
        rw [bind_eq, wp_bind, wp_read, bindPost_ok, hbuf]
        have hbreak : ¬ HasCrlf st.responseBuffer := hbuf ▸ not_hasCrlf_nil
        apply wp_bind_unless failed_stable (wp_receive_session hconn ht hbreak fun _ => hlate)
        · rintro data st' t' ⟨-, hdata, ht'⟩
          -- nothing is left that could have arrived
          have hunread := ht'.unread
          simp [hdata] at hunread
        · exact fun e st' t' he => absurd (hk.symm.trans he.loggingIn) (by simp)
        · exact fun _ _ hspun => hspun.elim
  unfold readResponse
  apply wp_bind_unless failed_stable hline
  · exact fun _ _ _ ho => absurd ho.1 (by simp)
  · exact fun _ _ _ ho => absurd ho.1 (by simp)
  · exact fun _ _ ho => ⟨rfl, ho.2⟩

/-- What `_expect` leaves: it returns when the code is the right one. -/
def expectPost (P : Peer S) (net : N → Option Nat × N) (s : Sock .control) (k : Book S)
    (fuel : Nat) (r : Reply) (code : Int) (rest : Bytes) :
    Outcome PyExc Unit → State → Session S N → Prop
  | .ok _ => fun st t => r.code = code ∧ Reading s k rest st t
  | .error e => fun st t =>
      Interrupted P net s k e st t ∨ (r.code ≠ code ∧ IsBlobError e ∧ Reading s k rest st t)
  | .spun => fun _ t => fuel ≤ r.bytes.length ∧ t.toBook.Sound

theorem wp_expect_session (fl : Flavour) (r : Reply) (code : Int) (ht : Reading s k (r.bytes ++ rest) st t) :
    wp (session P net) (expect fl.dialect fuel conn code)
      (orFailed (Failed P net) (expectPost P net s k fuel r code rest)) st t := by
  apply wp_bind_unless failed_stable ((source_session hconn fl).wp_readResponse_source r ht)
  · rintro x st' t' ⟨rfl, ht'⟩
    dsimp only
    split
    · next hne => exact .inr (.inr ⟨hne, trivial, ht'⟩)
    · next heq => exact .inr ⟨not_not.mp heq, ht'⟩
  · exact fun _ _ _ he => .inl he
  · exact fun _ _ hspun => hspun

/-! ## Commands -/

omit hconn in
/-- A command without CR LF is one line. -/
theorem sent_command {c : Str} (hc : ¬ BreaksLine c) (t : Session S N) :
    t.sent P (encode c ++ crlf) = t.serve P (encode c) := by
  have hsplit := splitCrlf_frame (fun h => hc (hasCrlf_encode.mp h)) []
  rw [List.append_nil] at hsplit
  unfold Session.sent
  rw [hsplit]
  rfl

omit hconn in
/-- The server starts a transfer, and its final reply is sent or pending, or it answers with the
final reply at once. -/
theorem receive_cases (p : S) (line : Bytes) :
    (startsTransfer (P.receive p line).reply.code = false ∧ (P.receive p line).after = [] ∧
        (P.receive p line).pending = false) ∨
      (startsTransfer (P.receive p line).reply.code = true ∧ isTransfer line = true ∧
        ((P.receive p line).pending = true ∧ (P.receive p line).after = [] ∨
          (P.receive p line).pending = false ∧ ∃ f : Reply, (P.receive p line).after = f.bytes)) := by
  have hstarts := P.starts p line
  unfold Peer.receive
  split
  · next r h p' heq => exact .inl ⟨h, rfl, rfl⟩
  · next r h p' heq =>
      exact .inr ⟨h, hstarts r h true (congrArg Prod.fst heq), .inr ⟨rfl, _, rfl⟩⟩
  · next r h p' heq =>
      exact .inr ⟨h, hstarts r h false (congrArg Prod.fst heq), .inl ⟨rfl, rfl⟩⟩

omit hconn in
/-- Other commands are answered by one reply. -/
theorem receive_of_not_transfer (P : Peer S) (p : S) {line : Bytes} (h : isTransfer line = false) :
    (P.receive p line).after = [] ∧ (P.receive p line).pending = false := by
  rcases receive_cases (P := P) p line with hfinal | hstart
  · exact hfinal.2
  · exact absurd (h.symm.trans hstart.2.1) (by simp)

/-- The state of the server and the observer when a command has been answered. -/
def Book.commanded (P : Peer S) (k : Book S) (c : Str) : Book S :=
  { k with
    peer := (P.receive k.peer (encode c)).peer
    pending := k.pending || (P.receive k.peer (encode c)).pending
    loggingIn := k.loggingIn && !(c = typeCmd && (P.receive k.peer (encode c)).reply.code = ok)
    last := some
      ⟨encode c, (P.receive k.peer (encode c)).reply.code,
        (P.receive k.peer (encode c)).reply.lines, (P.receive k.peer (encode c)).after.length⟩ }

/-- `_cmd` returns the reply to the command. -/
def cmdPost (P : Peer S) (net : N → Option Nat × N) (s : Sock .control) (k : Book S)
    (fuel : Nat) (c : Str) :
    Outcome PyExc (Int × List Bytes) → State → Session S N → Prop
  | .ok a => fun st t =>
      a = ((P.receive k.peer (encode c)).reply.code, (P.receive k.peer (encode c)).reply.lines) ∧
        Reading s (k.commanded P c) (P.receive k.peer (encode c)).after st t
  | .error e => Interrupted P net s k e
  | .spun => fun _ t =>
      fuel ≤ (P.receive k.peer (encode c)).reply.bytes.length ∧ t.toBook.Sound

omit hconn in
/-- The observer finds that the reply is the right one. -/
theorem book_answered {c : Str} {t t' : Session S N}
    (hasked : (t.asked.serve P (encode c)).toBook.Sound) (ht : t.toBook.Sound)
    (ht' : Reading s (t.asked.serve P (encode c)).toBook (P.receive t.peer (encode c)).after st t') :
    (t'.answered c (P.receive t.peer (encode c)).reply.code
      (P.receive t.peer (encode c)).reply.lines).toBook = t.toBook.commanded P c := by
  have hbook := ht'.book
  have hlast : t'.last = some
      ⟨encode c, (P.receive t.peer (encode c)).reply.code,
        (P.receive t.peer (encode c)).reply.lines, (P.receive t.peer (encode c)).after.length⟩ :=
    congrArg Book.last hbook
  have hanswers : t'.answers c (P.receive t.peer (encode c)).reply.code
      (P.receive t.peer (encode c)).reply.lines = true := by
    have hlength := congrArg List.length ht'.unread
    rw [List.length_append] at hlength
    unfold Session.answers
    rw [hlast]
    simp
    omega
  apply Book.ext
  · exact (congrArg Book.peer hbook :)
  · exact (congrArg Book.pending hbook :)
  · exact (congrArg (fun k : Book S => k.loggingIn && _) hbook :)
  · exact hlast
  · show (t'.matched && _) = t.matched
    rw [hanswers, Bool.and_true]
    exact (congrArg Book.matched hbook :)
  · exact ((congrArg Book.clear hbook).trans (hasked.clear.trans ht.clear.symm) :)

/-- A command is answered, and what the server sent after the reply is still to be read. -/
theorem wp_cmd_session (fl : Flavour) {c : Str} (hc : ¬ BreaksLine c) (hk : k.pending = false)
    (ht : Reading s k [] st t) :
    wp (session P net) (cmd fl.dialect fuel conn c)
      (orFailed (Failed P net) (cmdPost P net s k fuel c)) st t := by
  obtain ⟨hbuf, hwire⟩ := List.append_eq_nil_iff.mp ht.unread
  unfold cmd sendCmd
  rw [bind_eq, wp_bind, wp_tryCatch, bind_eq, wp_bind, hconn _ _ _ ht.held, bindPost_ok]
  dsimp only
  rw [bind_eq, wp_bind, wp_asked, bindPost_ok, wp_send_session, catchPost_ok, bindPost_ok,
    sent_command hc]
  obtain rfl := ht.book
  have hasked : Reading s ((t.asked.serve P (encode c)).toBook)
      ((P.receive t.peer (encode c)).reply.bytes ++ (P.receive t.peer (encode c)).after) st
      (t.asked.serve P (encode c)) := by
    refine ⟨ht.held, rfl, ?_, ht.lines, ht.sound.matched, ?_⟩
    · show st.responseBuffer ++ (t.wire ++ _) = _
      rw [hbuf, hwire]
      rfl
    · show (t.clear && t.wire.isEmpty && !t.pending) = true
      rw [ht.sound.clear, hwire, hk]
      rfl
  show wp (session P net) _ _ st (t.asked.serve P (encode c))
  rw [bind_eq]
  apply wp_bind_unless failed_stable ((source_session hconn fl).wp_readResponse_source _ hasked)
  · rintro r st' t' ⟨rfl, ht'⟩
    rw [bind_eq, wp_bind, wp_answered]
    right
    exact ⟨rfl, ht'.held, book_answered hasked.sound ht.sound ht', ht'.unread, ht'.lines,
      ht.sound.matched, ht.sound.clear⟩
  · exact fun _ _ _ he => { he with }
  · exact fun _ _ hspun => hspun

end Reading

end GufoBlob.Ftp
