import GufoBlob.Ftp.Quiet

/-!
# Outstanding replies

After the reply that starts a transfer, the final reply is owed (`Owes`): it is pending until the
data connection has ended, and then it is there (`Due`). `keepsQuiet_perform` says that every
operation of the sync class reads it before it ends, and so keeps `Quiet`.
-/

namespace GufoBlob.Ftp

open Text Interaction Program FTPBlob

variable {S N : Type} {P : Peer S} {net : N → Option Nat × N}

/-- The final reply of a transfer has been sent, and it is all that is to be read. -/
structure Due (s : Sock .control) (st : State) (t : Session S N) : Prop where
  reading : ∃ f : Reply, Reading s t.toBook f.bytes st t
  pending : t.pending = false
  loggedIn : t.loggingIn = false

/-- The final reply of a transfer is to come, or has been sent. -/
inductive Owes (s : Sock .control) (st : State) (t : Session S N) : Prop where
  | due : Due s st t → Owes s st t
  | pending : Reading s t.toBook [] st t → t.pending = true → t.loggingIn = false → Owes s st t

section Data

variable {s : Sock .control} {st : State} {t : Session S N}

theorem Reading.withPeer {k : Book S} {rest : Bytes} (ht : Reading s k rest st t) (p : S) :
    Reading s { t.toBook with peer := p } rest st { t with peer := p } where
  held := ht.held
  book := rfl
  unread := ht.unread
  lines := ht.lines
  sound := by
    obtain rfl := ht.book
    exact ⟨ht.sound.matched, ht.sound.clear⟩

/-- At the end of the data connection the final reply is sent. -/
theorem Owes.finished (ht : Owes s st t) : Due s st (t.finished P) := by
  unfold Session.finished
  cases ht with
  | due ht =>
      rw [if_neg (by rw [ht.pending]; exact nofun)]
      exact ht
  | pending ht hpending hlogin =>
      rw [if_pos hpending]
      refine ⟨⟨(P.finish t.peer).1, ht.held, rfl, ?_, ht.lines, ht.sound.matched, ht.sound.clear⟩,
        rfl, hlogin⟩
      show st.responseBuffer ++ (t.wire ++ _) = _
      rw [← List.append_assoc, ht.unread, List.nil_append]

theorem Quiet.finished (ht : Quiet st t) : t.finished P = t := by
  unfold Session.finished
  rw [if_neg (by rw [ht.pending]; exact nofun)]

/-- After a call on the data connection the final reply is owed, or due when that has ended. -/
theorem Owes.transferred (ht : Owes s st t) (o : FtpOp) :
    if endsData o (P.other t.peer o).1 then Due s st (t.transferred P o)
    else Owes s st (t.transferred P o) := by
  have hpeer : ∀ p : S, Owes s st { t with peer := p } := by
    intro p
    cases ht with
    | due ht =>
        obtain ⟨f, hf⟩ := ht.reading
        exact .due ⟨⟨f, hf.withPeer p⟩, ht.pending, ht.loggedIn⟩
    | pending ht hpending hlogin => exact .pending (ht.withPeer p) hpending hlogin
  unfold Session.transferred
  dsimp only
  split
  · exact (hpeer _).finished
  · exact hpeer _

theorem Quiet.transferred (ht : Quiet st t) (o : FtpOp) : Quiet st (t.transferred P o) := by
  have hpeer : ∀ p : S, Quiet st { t with peer := p } := fun p =>
    { ht with sound := ⟨ht.sound.matched, ht.sound.clear⟩ }
  unfold Session.transferred
  dsimp only
  split
  · rw [(hpeer _).finished]
    exact hpeer _
  · exact hpeer _

/-- Calls on a data connection. -/
def DataOp : FtpOp → Prop
  | .connect .data _ _ => True
  | @FtpOp.sendall .data _ _ => True
  | @FtpOp.recv .data _ => True
  | @FtpOp.shutdown .data _ => True
  | @FtpOp.close .data _ => True
  | _ => False

theorem session_dataOp {o : FtpOp} (ho : DataOp o) :
    session P net t o = ((P.other t.peer o).1, t.transferred P o) := by
  unfold session
  split <;> first | exact ho.elim | rfl

theorem Due.sound (ht : Due s st t) : t.toBook.Sound := ht.reading.choose_spec.sound

theorem Owes.sound (ht : Owes s st t) : t.toBook.Sound := by
  cases ht with
  | due ht => exact ht.sound
  | pending ht _ _ => exact ht.sound

end Data

/-! ## Reading the final reply -/

/-- What is left when the final reply has been read. -/
def settledPost : Outcome PyExc Unit → State → Session S N → Prop
  | .ok _ => Quiet
  | .error e => fun st t => IsBlobError e ∧ Quiet st t
  | .spun => fun _ t => t.toBook.Sound

/-- What is left when a data connection has failed. -/
def failedPost {α : Type} : Outcome PyExc α → State → Session S N → Prop
  | .ok _ => fun _ _ => False
  | .error _ => Quiet
  | .spun => fun _ t => t.toBook.Sound

section Final

variable {s : Sock .control} {st : State} {t : Session S N} {fuel : Nat}
  {conn : FtpProg (Option (Sock .control))} (hconn : Holds (session P net) conn s)

include hconn

theorem wp_expect_due (code : Int) (ht : Due s st t) :
    wp (session P net) (expect Sync.FTPBlob.dialect fuel conn code)
      (orFailed (Failed P net) settledPost) st t := by
  obtain ⟨f, hf⟩ := ht.reading
  rw [← List.append_nil f.bytes] at hf
  apply wp_mono (wp_expect_session hconn .sync f code hf)
  rintro (⟨⟩ | e | _) st' t' (hfailed | ho)
  · exact .inl hfailed
  · exact .inr (ho.2.quiet ht.pending ht.loggedIn)
  · exact .inl hfailed
  · rcases ho with he | ⟨-, he, ht'⟩
    · exact absurd (ht.loggedIn.symm.trans he.loggingIn) (by simp)
    · exact .inr ⟨he, ht'.quiet ht.pending ht.loggedIn⟩
  · exact .inl hfailed
  · exact .inr ho.2

/-- A reply that is not due is waited for until the receive times out. -/
theorem wp_expect_owes (code : Int) (hlate : ¬ Punctual P net) (ht : Owes s st t) :
    wp (session P net) (expect Sync.FTPBlob.dialect fuel conn code)
      (orFailed (Failed P net) settledPost) st t := by
  cases ht with
  | due ht => exact wp_expect_due hconn code ht
  | pending ht _ hlogin =>
      apply wp_bind_unless failed_stable (wp_readResponse_nothing hconn .sync hlate hlogin ht)
      · exact fun _ _ _ ho => absurd ho.1 (by simp)
      · exact fun _ _ _ ho => absurd ho.1 (by simp)
      · exact fun _ _ ho => ho.2

omit hconn in
theorem dataFailed_of_isOSError {α : Type} (fuel : Nat)
    (conn : FtpProg (Option (Sock .control))) {e : PyExc} (he : IsOSError e) :
    ∃ msg, (dataFailed Sync.FTPBlob.dialect fuel conn e : FtpProg α) =
      (suppressBlobError (expect Sync.FTPBlob.dialect fuel conn transferDone)).bind
        fun _ => .raise (.blobError msg) := by
  cases e with
  | ioError e => cases e <;> first | exact he.elim | exact ⟨_, rfl⟩
  | _ => exact he.elim

omit hconn in
/-- The `except` clauses around the use of a data connection read the final reply. -/
theorem wp_dataFailed_session {α : Type} {e : PyExc} (he : IsOSError e)
    (hexpect : wp (session P net) (expect Sync.FTPBlob.dialect fuel conn transferDone)
      (orFailed (Failed P net) settledPost) st t) :
    wp (session P net) (dataFailed Sync.FTPBlob.dialect fuel conn e : FtpProg α)
      (orFailed (Failed P net) failedPost) st t := by
  obtain ⟨msg, hmsg⟩ := dataFailed_of_isOSError (α := α) fuel conn he
  have hsuppressed : wp (session P net)
      (suppressBlobError (expect Sync.FTPBlob.dialect fuel conn transferDone))
      (orFailed (Failed P net) settledPost) st t := by
    apply wp_tryCatch_unless failed_stable hexpect
    · exact fun _ _ _ hquiet => hquiet
    · rintro e st' t' ⟨he, hquiet⟩
      cases e with
      | blobError msg => exact .inr hquiet
      | _ => exact he.elim
    · exact fun _ _ hspun => hspun
  rw [hmsg]
  apply wp_bind_unless failed_stable hsuppressed
  · exact fun _ _ _ hquiet => .inr hquiet
  · exact fun _ _ _ ho => ho.2
  · exact fun _ _ hspun => hspun

end Final

/-! ## Data connections -/

section Connection

variable {s : Sock .control} {st : State} {t : Session S N} {fuel : Nat}
  {conn : FtpProg (Option (Sock .control))}

/-- Both calls that close a data connection are made, and neither raises. -/
theorem wp_closeData_session (hos : OSErrors P.other) (sock : Sock .data)
    (Q : Outcome PyExc Unit → State → Session S N → Prop) :
    wp (session P net) (Sync.FTPBlob.dialect.closeData sock) Q st t ↔
      Q (.ok ()) st ((t.transferred P (.shutdown sock)).transferred P (.close sock)) := by
  have hcall : ∀ {o : FtpOp} {k : ftp.Ans o → FtpProg Unit} (t : Session S N)
      (R : Outcome PyExc Unit → State → Session S N → Prop), DataOp o →
      (∃ r, k (P.other t.peer o).1 = raiseOnError r ∧ Raisable r) →
      (wp (session P net) (suppressOSError (.call o k)) R st t ↔
        R (.ok ()) st (t.transferred P o)) := by
    rintro o k t R ho ⟨r, hk, hr⟩
    unfold suppressOSError
    rw [wp_tryCatch, wp_call, session_dataOp ho]
    dsimp only
    rw [hk, wp_raiseOnError]
    cases r with
    | ok u => rfl
    | error e =>
        cases e with
        | runtime e => exact absurd rfl (hr e)
        | _ => rfl
  show wp (session P net) ((suppressOSError (.call (.shutdown sock) raiseOnError)).bind
    fun _ => Sync.FTPBlob.closeSock sock) Q st t ↔ _
  rw [wp_bind, hcall (o := .shutdown sock) t _ trivial ⟨_, rfl, hos.shutdown _ _ _⟩, bindPost_ok]
  exact hcall (o := .close sock) _ _ trivial ⟨_, rfl, hos.close _ _ _⟩

/-- When the data connection is closed, the final reply has been sent. -/
theorem Owes.closed (ht : Owes s st t) (sock : Sock .data) :
    Due s st ((t.transferred P (.shutdown sock)).transferred P (.close sock)) := by
  have hshutdown : Due s st (t.transferred P (.shutdown sock)) := ht.transferred (.shutdown sock)
  exact (Owes.due hshutdown).transferred (.close sock)

variable (hconn : Holds (session P net) conn s)

include hconn

/-- An exception on a data connection: either the connection has ended, or it was a timeout. -/
theorem wp_dataFailed_owes {α : Type} {e : IOErr} (hos : Raisable (.error e : Except IOErr α))
    (htimeout : ∀ msg, e = .timeout msg → ¬ Punctual P net)
    (ht : if !isTimeout e then Due s st t else Owes s st t)
    {R : Outcome PyExc α → State → Session S N → Prop}
    (hR : ∀ o st t, failedPost o st t → R o st t) :
    wp (session P net) (dataFailed Sync.FTPBlob.dialect fuel conn (.ioError e) : FtpProg α)
      (orFailed (Failed P net) R) st t := by
  have hexpect : wp (session P net) (expect Sync.FTPBlob.dialect fuel conn transferDone)
      (orFailed (Failed P net) settledPost) st t := by
    cases e with
    | timeout msg => exact wp_expect_owes hconn _ (htimeout msg rfl) ht
    | runtime msg => exact absurd rfl (hos msg)
    | refused msg => exact wp_expect_due hconn _ ht
    | os msg => exact wp_expect_due hconn _ ht
  apply wp_mono (wp_dataFailed_session (isOSError_of_raisable hos rfl) hexpect)
  exact fun o st t ho => ho.imp_right (hR o st t)

variable (hos : OSErrors P.other)

include hos

/-- After a receive on a data connection: no octets are its end. -/
def arrivedDataPost (s : Sock .control) : Outcome PyExc Bytes → State → Session S N → Prop
  | .ok data => fun st t => if data.isEmpty then Due s st t else Owes s st t
  | .error _ => Quiet
  | .spun => fun _ t => t.toBook.Sound

theorem wp_recvData_owes (sock : Sock .data) (ht : Owes s st t) :
    wp (session P net) ((Sync.FTPBlob.dialect.recv sock).tryCatch
      (dataFailed Sync.FTPBlob.dialect fuel conn))
      (orFailed (Failed P net) (arrivedDataPost s)) st t := by
  have hafter := ht.transferred (P := P) (.recv sock)
  have hraisable := hos.recv t.peer .data sock
  have hpunctual : ∀ e, (P.other t.peer (.recv sock)).1 = .error (.timeout e) → ¬ Punctual P net :=
    fun e he hp => hp.recv t.peer sock e he
  show wp (session P net) ((Program.call (FtpOp.recv sock) raiseOnError).tryCatch _) _ st t
  rw [wp_tryCatch, wp_call, wp_raiseOnError, session_dataOp (o := .recv sock) trivial]
  dsimp only
  generalize (P.other t.peer (.recv sock)).1 = r at hafter hraisable hpunctual ⊢
  cases r with
  | ok data => exact .inr hafter
  | error e =>
      apply wp_dataFailed_owes hconn hraisable (fun msg he => hpunctual msg (he ▸ rfl)) hafter
      rintro (a | e | _) st' t' ho
      · exact ho.elim
      · exact ho
      · exact ho

/-- After a send on a data connection. -/
def sentDataPost (s : Sock .control) : Outcome PyExc Unit → State → Session S N → Prop
  | .ok _ => Owes s
  | .error _ => Quiet
  | .spun => fun _ t => t.toBook.Sound

theorem wp_sendData_owes (sock : Sock .data) (data : Bytes) (ht : Owes s st t) :
    wp (session P net) ((Sync.FTPBlob.dialect.send sock data).tryCatch
      (dataFailed Sync.FTPBlob.dialect fuel conn))
      (orFailed (Failed P net) (sentDataPost s)) st t := by
  have hafter := ht.transferred (P := P) (.sendall sock data)
  have hraisable := hos.sendall t.peer .data sock data
  have hpunctual : ∀ e, (P.other t.peer (.sendall sock data)).1 = .error (.timeout e) →
      ¬ Punctual P net := fun e he hp => hp.sendall t.peer sock data e he
  show wp (session P net) ((Program.call (FtpOp.sendall sock data) raiseOnError).tryCatch _) _ st t
  rw [wp_tryCatch, wp_call, wp_raiseOnError, session_dataOp (o := .sendall sock data) trivial]
  dsimp only
  generalize (P.other t.peer (.sendall sock data)).1 = r at hafter hraisable hpunctual ⊢
  cases r with
  | ok u => exact .inr hafter
  | error e =>
      apply wp_dataFailed_owes hconn hraisable (fun msg he => hpunctual msg (he ▸ rfl)) hafter
      rintro (a | e | _) st' t' ho
      · exact ho.elim
      · exact ho
      · exact ho

/-- After `recv` has returned no octets. -/
def receivedAllPost (s : Sock .control) :
    Outcome PyExc (List Bytes) → State → Session S N → Prop
  | .ok _ => Due s
  | .error _ => Quiet
  | .spun => fun _ t => t.toBook.Sound

theorem wp_recvAll_owes (sock : Sock .data) (n : Nat) (chunks : List Bytes) (ht : Owes s st t) :
    wp (session P net) (recvAll Sync.FTPBlob.dialect fuel conn sock n chunks)
      (orFailed (Failed P net) (receivedAllPost s)) st t := by
  induction n generalizing chunks st t with
  | zero => exact .inr ht.sound
  | succ n ih =>
      apply wp_bind_unless failed_stable (wp_recvData_owes hconn hos sock ht)
      · intro data st' t' ho
        have ho : if data.isEmpty then Due s st' t' else Owes s st' t' := ho
        by_cases hempty : data.isEmpty = true
        · rw [if_pos hempty] at ho ⊢
          exact .inr ho
        · rw [if_neg hempty] at ho ⊢
          exact ih _ ho
      · exact fun _ _ _ hquiet => hquiet
      · exact fun _ _ hspun => hspun

end Connection

/-! ## Operations -/

section Operations

variable {b : FTPBlob} {fuel depth : Nat} {st : State} {t : Session S N}
  (hos : OSErrors P.other) (hb : LoginPlain b)

include hos hb

theorem keepsQuiet_connection :
    KeepsQuiet P net (connection Sync.FTPBlob.dialect b fuel depth) := by
  intro st t ht
  apply wp_mono (wp_connection_quiet hos hb fuel depth ht)
  rintro (c | e | _) st' t' ho
  · exact ho.imp_right And.left
  · exact ho
  · exact ho

/-- After a command: a transfer has started, or nothing is outstanding. -/
def answeredPost (c : Str) : Outcome PyExc (Int × List Bytes) → State → Session S N → Prop
  | .ok a => fun st t =>
      startsTransfer a.1 = false ∧ Quiet st t ∨
        startsTransfer a.1 = true ∧ isTransfer (encode c) = true ∧ ∃ s, Owes s st t
  | .error _ => Quiet
  | .spun => fun _ t => t.toBook.Sound

omit hos hb in
/-- What has been read of the answer to a command. -/
theorem answered_of_cmdPost {s : Sock .control} {k : Book S} {c : Str} (hpending : k.pending = false)
    (hlogin : k.loggingIn = false) {o : Outcome PyExc (Int × List Bytes)}
    (ho : cmdPost P net s k fuel c o st t) : answeredPost c o st t := by
  cases o with
  | ok a =>
      obtain ⟨rfl, ht⟩ := ho
      have hpend : (k.commanded P c).pending = (P.receive k.peer (encode c)).pending := by
        show (k.pending || _) = _
        rw [hpending, Bool.false_or]
      have hlog : (k.commanded P c).loggingIn = false := by
        show (k.loggingIn && _) = false
        rw [hlogin, Bool.false_and]
      rcases receive_cases (P := P) k.peer (encode c) with
        ⟨hcode, hafter, hdone⟩ | ⟨hcode, htransfer, hfinal⟩
      · rw [hafter] at ht
        exact .inl ⟨hcode, ht.quiet (hpend.trans hdone) hlog⟩
      · refine .inr ⟨hcode, htransfer, s, ?_⟩
        have hbook := ht.book
        rw [← hbook] at ht hpend hlog
        rcases hfinal with ⟨hdone, hafter⟩ | ⟨hdone, f, hafter⟩
        · rw [hafter] at ht
          exact .pending ht (hpend.trans hdone) hlog
        · rw [hafter] at ht
          exact .due ⟨⟨f, ht⟩, hpend.trans hdone, hlog⟩
  | error e => exact absurd (hlogin.symm.trans ho.loggingIn) (by simp)
  | spun => exact ho.2

theorem wp_cmd_quiet {c : Str} (hc : ¬ BreaksLine c) (ht : Quiet st t) :
    wp (session P net)
      (cmd Sync.FTPBlob.dialect fuel (connection Sync.FTPBlob.dialect b fuel (depth + 1)) c)
      (orFailed (Failed P net) (answeredPost c)) st t := by
  unfold cmd sendCmd
  rw [bind_eq, wp_bind, wp_tryCatch, bind_eq, wp_bind]
  apply wp_mono (wp_connection_quiet hos hb fuel (depth + 1) ht)
  rintro (held | e | _) st' t' (hfailed | ho)
  · rw [bindPost_ok, ← wp_tryCatch, ← wp_bind]
    exact wp_unless_failed failed_stable hfailed
  · -- from here on, the connection is held
    obtain ⟨hquiet, rfl, hne⟩ := ho
    obtain ⟨s, hs⟩ := Option.ne_none_iff_exists'.mp hne
    have hholds : Holds (session P net) (connection Sync.FTPBlob.dialect b fuel (depth + 1)) s :=
      connection_holds _ _ _ _ _
    have hcmd : wp (session P net)
        (cmd Sync.FTPBlob.dialect fuel (connection Sync.FTPBlob.dialect b fuel (depth + 1)) c)
        (orFailed (Failed P net) (answeredPost c)) st' t' := by
      apply wp_mono (wp_cmd_session hholds .sync hc hquiet.pending (hquiet.reading hs))
      exact fun o st t ho =>
        ho.imp_right (answered_of_cmdPost hquiet.pending (hquiet.loggedIn hne))
    unfold cmd sendCmd at hcmd
    rw [bind_eq, wp_bind, wp_tryCatch, bind_eq, wp_bind, hholds _ _ _ hs] at hcmd
    rw [hs]
    exact hcmd
  · obtain ⟨e', he'⟩ := sendFailed_raises Sync.FTPBlob.dialect e
    rw [bindPost_error, catchPost_error, he']
    exact .inl hfailed
  · obtain ⟨e', he'⟩ := sendFailed_raises Sync.FTPBlob.dialect e
    rw [bindPost_error, catchPost_error, he']
    exact .inr ho
  · exact .inl hfailed
  · exact .inr ho

/-- A command that starts no transfer. -/
theorem keepsQuiet_cmd {c : Str} (hc : ¬ BreaksLine c) (htransfer : isTransfer (encode c) = false) :
    KeepsQuiet P net
      (cmd Sync.FTPBlob.dialect fuel (connection Sync.FTPBlob.dialect b fuel (depth + 1)) c) := by
  intro st t ht
  apply wp_mono (wp_cmd_quiet hos hb hc ht)
  rintro (a | e | _) st' t' (hfailed | ho)
  · exact .inl hfailed
  · rcases ho with ho | ho
    · exact .inr ho.2
    · exact absurd (htransfer.symm.trans ho.2.1) (by simp)
  · exact .inl hfailed
  · exact .inr ho
  · exact .inl hfailed
  · exact .inr ho

omit hos hb in
theorem keepsQuiet_closeData (hos : OSErrors P.other) (sock : Sock .data) :
    KeepsQuiet P net (Sync.FTPBlob.dialect.closeData sock) := by
  intro st t ht
  rw [wp_closeData_session hos]
  exact .inr ((ht.transferred _).transferred _)

theorem keepsQuiet_getPassive :
    KeepsQuiet P net (getPassive Sync.FTPBlob.dialect fuel
      (connection Sync.FTPBlob.dialect b fuel (depth + 1))) := by
  have hP := keepsQuiet_compositional P net
  apply hP.bind (keepsQuiet_cmd hos hb (not_breaksLine_of_notMem (by decide)) rfl)
  intro r
  dsimp only
  split
  · exact hP.raise _
  · apply hP.bind (hP.ofExcept _)
    intro addr
    apply hP.bind
    · intro st t ht
      rw [wp_connect, session_dataOp (o := .connect .data addr.1 addr.2) trivial]
      have hquiet := ht.transferred (P := P) (.connect .data addr.1 addr.2)
      exact .inr hquiet
    · intro r
      cases r with
      | ok sock => exact hP.pure sock
      | error e => cases e <;> exact hP.raise _

theorem keepsQuiet_retrieve (sock : Sock .data) {c : Str} (hc : ¬ BreaksLine c) :
    KeepsQuiet P net (retrieve Sync.FTPBlob.dialect fuel
      (connection Sync.FTPBlob.dialect b fuel (depth + 1)) sock c) := by
  intro st t ht
  apply wp_bind_unless failed_stable (wp_cmd_quiet hos hb hc ht)
  · intro a st₁ t₁ ho
    dsimp only
    rcases ho with ⟨hcode, hquiet⟩ | ⟨hcode, -, s, howes⟩
    · -- the server has answered with its final reply
      split
      · exact .inr hquiet
      · rw [hcode]
        exact .inr hquiet
    · have hne : a.1 ≠ notFound := by
        intro heq
        rw [heq] at hcode
        exact absurd hcode (by decide)
      rw [if_neg hne, hcode]
      apply wp_bind_unless failed_stable
        (wp_recvAll_owes (connection_holds _ _ _ _ s) hos sock fuel [] howes)
      · intro chunks st₂ t₂ hdue
        apply wp_bind_unless failed_stable
          (wp_expect_due (connection_holds _ _ _ _ s) transferDone hdue)
        · exact fun _ _ _ hquiet => .inr hquiet
        · exact fun _ _ _ ho => ho.2
        · exact fun _ _ hspun => hspun
      · exact fun _ _ _ hquiet => hquiet
      · exact fun _ _ hspun => hspun
  · exact fun _ _ _ hquiet => hquiet
  · exact fun _ _ hspun => hspun

theorem keepsQuiet_pasvCmd {c : Str} (hc : ¬ BreaksLine c) :
    KeepsQuiet P net (pasvCmd Sync.FTPBlob.dialect fuel
      (connection Sync.FTPBlob.dialect b fuel (depth + 1)) c) := by
  have hP := keepsQuiet_compositional P net
  apply hP.bind (keepsQuiet_getPassive hos hb)
  intro sock
  apply hP.bind (hP.tryFinally (keepsQuiet_retrieve hos hb sock hc) (keepsQuiet_closeData hos sock))
  exact fun _ => hP.pure _

/-- After `put` has sent the data and closed the data connection. -/
def storedPost : Outcome PyExc Unit → State → Session S N → Prop
  | .ok _ => fun st t => ∃ s, Due s st t
  | .error _ => Quiet
  | .spun => fun _ t => t.toBook.Sound

theorem wp_store_session (sock : Sock .data) {key : Str} (data : Bytes)
    (hc : ¬ BreaksLine (storCmd key)) (ht : Quiet st t) :
    wp (session P net)
      ((store Sync.FTPBlob.dialect fuel (connection Sync.FTPBlob.dialect b fuel (depth + 1)) sock key
        data).tryFinally (Sync.FTPBlob.dialect.closeData sock))
      (orFailed (Failed P net) storedPost) st t := by
  have hstore : wp (session P net)
      (store Sync.FTPBlob.dialect fuel (connection Sync.FTPBlob.dialect b fuel (depth + 1)) sock key
        data)
      (orFailed (Failed P net) fun o st t => match o with
        | .ok _ => ∃ s, Owes s st t
        | .error _ => Quiet st t
        | .spun => t.toBook.Sound) st t := by
    apply wp_bind_unless failed_stable (wp_cmd_quiet hos hb hc ht)
    · intro a st₁ t₁ ho
      dsimp only
      rcases ho with ⟨hcode, hquiet⟩ | ⟨hcode, -, s, howes⟩
      · rw [hcode]
        exact .inr hquiet
      · rw [hcode]
        apply wp_mono (wp_sendData_owes (connection_holds _ _ _ _ s) hos sock data howes)
        rintro (⟨⟩ | e | _) st' t' (hfailed | ho)
        · exact .inl hfailed
        · exact .inr ⟨s, ho⟩
        · exact .inl hfailed
        · exact .inr ho
        · exact .inl hfailed
        · exact .inr ho
    · exact fun _ _ _ hquiet => hquiet
    · exact fun _ _ hspun => hspun
  -- closing the data connection tells the server that it has all of the data
  apply wp_tryFinally_unless failed_stable hstore
  · rintro ⟨⟩ st' t' ⟨s, howes⟩
    rw [wp_bind, wp_closeData_session hos]
    exact .inr ⟨s, howes.closed sock⟩
  · intro e st' t' hquiet
    rw [wp_bind, wp_closeData_session hos]
    have hclosed := (hquiet.transferred (P := P) (.shutdown sock)).transferred (P := P) (.close sock)
    exact .inr hclosed
  · exact fun _ _ hspun => hspun

theorem keepsQuiet_put {key : Str} {data : Bytes}
    (hc : ∀ c, Meant (.put key data) c → ¬ BreaksLine c) :
    KeepsQuiet P net (put Sync.FTPBlob.dialect fuel
      (connection Sync.FTPBlob.dialect b fuel (depth + 1)) key data) := by
  have hP := keepsQuiet_compositional P net
  apply hP.bind
  · apply hP.forEach
    intro dir hdir
    apply hP.bind (keepsQuiet_cmd hos hb (hc _ (.mkd hdir)) rfl)
    intro r
    dsimp only
    split
    · exact hP.raise _
    · exact hP.pure _
  · intro _
    apply hP.bind (keepsQuiet_getPassive hos hb)
    intro sock st t ht
    apply wp_bind_unless failed_stable (wp_store_session hos hb sock data (hc _ .stor) ht)
    · rintro ⟨⟩ st' t' ⟨s, hdue⟩
      apply wp_mono (wp_expect_due (connection_holds _ _ _ _ s) transferDone hdue)
      rintro (⟨⟩ | e | _) st'' t'' ho
      · exact ho
      · exact ho.imp_right And.right
      · exact ho
    · exact fun _ _ _ hquiet => hquiet
    · exact fun _ _ hspun => hspun

theorem keepsQuiet_features :
    KeepsQuiet P net (features Sync.FTPBlob.dialect fuel
      (connection Sync.FTPBlob.dialect b fuel (depth + 1))) := by
  have hfeat : ¬ BreaksLine featCmd := not_breaksLine_of_notMem (by decide)
  apply features_of (keepsQuiet_compositional P net) (fun _ _ ht => .inr ht)
    (keepsQuiet_cmd hos hb hfeat rfl)
  intro f st t ht
  rw [wp_setFeatures]
  exact .inr { ht with }

theorem keepsQuiet_methods :
    Methods (KeepsQuiet P net) Sync.FTPBlob.dialect fuel (Flavour.sync.connection b fuel)
      fun c => ¬ BreaksLine c := by
  cases fuel with
  | zero => exact methods_of_spin (keepsQuiet_compositional P net) fun _ _ ht => .inr ht
  | succ n =>
      exact
        { toCompositional := keepsQuiet_compositional P net
          connection := keepsQuiet_connection hos hb
          features := fun _ => keepsQuiet_features hos hb
          cmd := fun c hone hc => keepsQuiet_cmd hos hb hc (by cases hone <;> rfl)
          pasvCmd := fun c _ hc => keepsQuiet_pasvCmd hos hb hc
          put := fun key data hc => keepsQuiet_put hos hb hc }

end Operations

end GufoBlob.Ftp
