import GufoBlob.Ftp.Script

/-!
# Closing the asynchronous client

`aio.FTPBlob.close` clears `_conn` and then calls `_cmd("QUIT")`, which asks the property
`connection` for a connection; that property finds `_conn` empty and opens a new one. So `QUIT` is
never sent on the connection that was held, and after a successful login the new connection stays
open.

* `accounted_run` — in every state of a run, each control connection that was opened has been closed
  or is the one that is held. This much `close` keeps as well.
* `close_iff` — a `close` that returns does what it is for exactly when no connection was held and
  the server refuses every attempt to open one.
* `not_closedCleanly_open` — `open` and then `close` against a healthy server.
-/

namespace GufoBlob.FTPBlob

open Text Interaction Program Ftp

variable {E : Type} {h : Handler ftp E} {fl : Flavour} {b : FTPBlob} {fuel : Nat}

/-! ## Connections that are open -/

/-- Every control connection that was opened has been closed, is held, or is `extra`. -/
def Accounted (extra : Option (Sock .control)) (st : State) (t : Transcript E) : Prop :=
  ∀ s : Sock .control, .opened .control s.id ∈ t.log →
    .closed .control s.id ∈ t.log ∨ st.conn = some s ∨ extra = some s

variable {extra : Option (Sock .control)}

/-- Events that open no control connection. -/
def OpensNone (evs : List Event) : Prop := ∀ id, .opened .control id ∉ evs

theorem Accounted.append {st : State} {t : Transcript E} (ht : Accounted extra st t)
    {evs : List Event} (hevs : OpensNone evs) (e : E) (next : Nat) :
    Accounted extra st ⟨e, next, t.log ++ evs⟩ := by
  intro s hs
  rcases List.mem_append.mp hs with hs | hs
  · exact (ht s hs).imp_left fun hc => List.mem_append_left evs hc
  · exact absurd hs (hevs s.id)

theorem opensNone_events (o : FtpOp) : OpensNone (events o) := by
  intro id
  cases o <;> simp [events]

/-- The call opens no control connection. -/
def NoControl : FtpOp → Prop
  | .connect .control _ _ => False
  | _ => True

theorem Accounted.recording {st : State} {t : Transcript E} (ht : Accounted extra st t) {o : FtpOp}
    (ho : NoControl o) : Accounted extra st (recording h t o).2 := by
  unfold Ftp.recording
  split
  · next ch host port =>
      obtain rfl : ch = .data := by
        cases ch with
        | control => exact ho.elim
        | data => rfl
      split
      · exact ht.append (by simp [OpensNone]) _ _
      · exact ht.append (by simp [OpensNone]) _ _
  · exact ht.append (opensNone_events o) _ _

/-- The program keeps every connection accounted for. -/
abbrev KeepsAccounted (h : Handler ftp E) (extra : Option (Sock .control)) {α : Type}
    (p : FtpProg α) : Prop := Preserves (recording h) (Accounted extra) p

theorem keepsAccounted_call {α : Type} (o : FtpOp) (ho : NoControl o)
    {k : ftp.Ans o → FtpProg α} (hk : ∀ r, KeepsAccounted h extra (k r)) :
    KeepsAccounted h extra (.call o k) := preserves_call (fun _ _ ht => ht.recording ho) hk

theorem keepsAccounted_sockets : Sockets (KeepsAccounted h extra) where
  toCompositional := preserves_compositional _ _
  call o _ ho hk := by
    apply keepsAccounted_call o _ hk
    cases o with
    | connect ch host port => exact ho.elim
    | _ => trivial

theorem keepsAccounted_transmit (s : Sock .control) (c : Str) :
    KeepsAccounted h extra ((asked s c).bind fun _ => fl.dialect.send s (encode c ++ crlf)) := by
  have hraise : ∀ r : Except IOErr Unit, KeepsAccounted h extra (raiseOnError r) :=
    raiseOnError_of keepsAccounted_sockets
  apply keepsAccounted_call (.asked s c) trivial
  intro _
  cases fl with
  | sync => exact keepsAccounted_call (.sendall s _) trivial hraise
  | aio =>
      apply keepsAccounted_call (.write s _) trivial
      exact fun _ => keepsAccounted_call (.drain s) trivial hraise

theorem keepsAccounted_commands {conn : FtpProg (Option (Sock .control))}
    (hconn : KeepsAccounted h extra conn) :
    Commands (KeepsAccounted h extra) fl.dialect conn fun _ => True where
  toCompositional := preserves_compositional _ _
  connection := hconn
  read := preserves_read
  setBuffer _ := preserves_modify fun _ _ ht => ht
  appendBuffer _ := preserves_modify fun _ _ ht => ht
  recv s := recv_of keepsAccounted_sockets fl s
  transmit s c _ := keepsAccounted_transmit s c
  answered _ _ _ := preserves_perform fun _ _ ht => ht.recording trivial

/-! ## Opening and dropping a connection -/

/-- `s` is the connection that was just opened. -/
def AccountedBut (s : Sock .control) (st : State) (t : Transcript E)
    (extra : Option (Sock .control)) : Prop :=
  ∀ s' : Sock .control, .opened .control s'.id ∈ t.log →
    .closed .control s'.id ∈ t.log ∨ st.conn = some s' ∨ extra = some s' ∨ s' = s

/-- Each attempt opens a connection and returns it, or opens none. -/
theorem wp_attempts_accounted (n : Nat) (lastError : String) {st : State} {t : Transcript E}
    (ht : Accounted extra st t) :
    wp (recording h) (b.attempts n lastError) (fun o st' t' => st' = st ∧
      match o with
      | .ok s => AccountedBut s st t' extra
      | _ => Accounted extra st t') st t := by
  induction n generalizing lastError t with
  | zero => exact ⟨rfl, ht⟩
  | succ n ih =>
      unfold attempts
      rw [bind_eq, wp_bind, wp_connect]
      unfold recording
      dsimp only
      split
      · next x e heq =>
          refine ⟨rfl, fun s' hs' => ?_⟩
          rcases List.mem_append.mp hs' with hs' | hs'
          · exact (ht s' hs').imp (fun hc => List.mem_append_left _ hc) (Or.imp_right Or.inl)
          · have hid : s'.id = t.next := by simpa using hs'
            exact .inr (.inr (.inr (congrArg Sock.mk hid)))
      · next x e heq =>
          have hfailed : Accounted extra st ⟨e, t.next, t.log ++ [.failed .control]⟩ :=
            ht.append (by simp [OpensNone]) _ _
          cases x with
          | timeout m => exact ih _ hfailed
          | refused m => exact ih _ hfailed
          | os m => exact ih _ hfailed
          | runtime m => exact ⟨rfl, hfailed⟩

/-- Closing a connection is on the log, whether it raises or not. -/
theorem wp_dropConn_accounted (s : Sock .control) {st : State} {t : Transcript E}
    (ht : Accounted extra st t) :
    wp (recording h) (fl.dialect.dropConn s) (fun _ st' t' => st' = st ∧
      .closed .control s.id ∈ t'.log ∧ Accounted extra st t') st t := by
  have hclosed : Accounted extra st ⟨(h t.env (.close s)).2, t.next, t.log ++ events (.close s)⟩ :=
    ht.append (opensNone_events _) _ _
  cases fl with
  | sync =>
      show wp _ (suppressOSError _) _ _ _
      unfold suppressOSError
      rw [wp_tryCatch, wp_call, wp_raiseOnError]
      have hlog : .closed .control s.id ∈ (recording h t (.close s)).2.log := by
        simp [recording, events]
      cases (recording h t (.close s)).1 with
      | ok u => exact ⟨rfl, hlog, hclosed⟩
      | error e => cases e <;> exact ⟨rfl, hlog, hclosed⟩
  | aio =>
      have hwriter : Accounted extra st (recording h t (.closeWriter s)).2 := ht.recording trivial
      show wp _ (Program.bind _ _) _ _ _
      rw [wp_bind, wp_call, wp_pure, bindPost_ok, wp_call, wp_raiseOnError]
      have hlog : .closed .control s.id ∈
          (recording h (recording h t (.closeWriter s)).2 (.waitClosed s)).2.log := by
        simp [recording, events]
      exact ⟨rfl, hlog, hwriter.recording trivial⟩

theorem keepsAccounted_loginFailed (e : PyExc) :
    KeepsAccounted h extra (loginFailed fl.dialect e) := by
  intro st t ht
  unfold loginFailed
  split
  · unfold dropHeld
    rw [bind_eq, wp_bind, bind_eq, wp_bind, wp_read, bindPost_ok]
    cases hst : st.conn with
    | none => exact ht
    | some s =>
        apply wp_mono (wp_dropConn_accounted s ht)
        intro o st' t' hdrop
        obtain ⟨hst', hclosed, ht'⟩ := hdrop
        subst hst'
        cases o with
        | ok u =>
            -- the connection that is given up here has just been closed
            intro s' hs'
            rcases ht' s' hs' with hc | hheld | hextra
            · exact .inl hc
            · obtain rfl : s = s' := Option.some.inj (hst.symm.trans hheld)
              exact .inl hclosed
            · exact .inr (.inr hextra)
        | error e => exact ht'
        | spun => exact ht'
  · exact ht

theorem keepsAccounted_connection (depth : Nat) :
    KeepsAccounted h extra (connection fl.dialect b fuel depth) := by
  induction depth with
  | zero => exact preserves_spin
  | succ depth ih =>
      have hlogin : KeepsAccounted h extra ((login fl.dialect fuel
          (connection fl.dialect b fuel depth) b).tryCatch (loginFailed fl.dialect)) :=
        preserves_tryCatch (login_of (keepsAccounted_commands ih) fun _ _ => trivial)
          keepsAccounted_loginFailed
      have hreturn : KeepsAccounted h extra
          (Program.read.bind fun st : State => .pure st.conn) :=
        preserves_bind preserves_read fun st => preserves_pure st.conn
      intro st t ht
      unfold connection
      rw [bind_eq, wp_bind, wp_read, bindPost_ok]
      cases hst : st.conn with
      | some s => exact hreturn st t ht
      | none =>
          show wp _ (Program.bind (Program.bind _ _) _) _ _ _
          rw [wp_bind, wp_bind]
          apply wp_mono (wp_attempts_accounted _ _ ht)
          intro o st' t' hopen
          obtain ⟨hst', ht'⟩ := hopen
          subst hst'
          cases o with
          | ok s =>
              -- the new connection is held from here on, before the login
              have hheld : Accounted extra { st' with conn := some s } t' := by
                intro s' hs'
                rcases ht' s' hs' with hc | hheld | hextra | rfl
                · exact .inl hc
                · rw [hst] at hheld
                  cases hheld
                · exact .inr (.inr hextra)
                · exact .inr (.inl rfl)
              rw [bindPost_ok, bind_eq, wp_bind, wp_setConn, bindPost_ok]
              apply wp_mono (hlogin _ _ hheld)
              intro o st' t' hJ
              cases o with
              | ok u => exact hreturn st' t' hJ
              | error e => exact hJ
              | spun => exact hJ
          | error e => exact ht'
          | spun => exact ht'

/-! ## Every call keeps the connections accounted for -/

theorem keepsAccounted_methods (depth : Nat) :
    Methods (KeepsAccounted h extra) fl.dialect fuel (connection fl.dialect b fuel depth)
      fun _ => True := by
  have hsockets : Sockets (KeepsAccounted h extra) := keepsAccounted_sockets
  have hcommands : Commands (KeepsAccounted h extra) fl.dialect (connection fl.dialect b fuel depth)
      fun _ => True := keepsAccounted_commands (keepsAccounted_connection depth)
  have htransfers : Transfers (KeepsAccounted h extra) fl.dialect fuel
      (connection fl.dialect b fuel depth) fun _ => True :=
    { toCompositional := preserves_compositional _ _
      cmd := fun _ hc => cmd_of hcommands hc
      expect := expect_of hcommands.toReads
      connectData := fun host port _ =>
        keepsAccounted_call (.connect .data host port) trivial preserves_pure
      recvData := recv_of hsockets fl
      sendData := sendData_of hsockets fl
      closeData := closeData_of hsockets fl }
  apply methods_of htransfers (keepsAccounted_connection depth)
  intro hfeat
  apply features_of (preserves_compositional _ _) preserves_read (cmd_of hcommands hfeat)
  exact fun f => preserves_modify fun _ _ ht => ht

/-- The end of `close`: the connection that was held is closed. -/
theorem wp_closeOld_accounted (held : Option (Sock .control)) {st : State} {t : Transcript E}
    (ht : Accounted held st t) :
    wp (recording h) (match held with
      | some s => Aio.FTPBlob.closeConn s
      | none => .pure ()) (fun _ => Accounted none) st t := by
  cases held with
  | none => exact ht
  | some s =>
      have hclose : wp (recording h) (Flavour.aio.dialect.dropConn s) _ st t :=
        wp_dropConn_accounted s ht
      apply wp_mono hclose
      intro o st' t' hdrop
      obtain ⟨rfl, hclosed, hJ⟩ := hdrop
      intro s' hs'
      rcases hJ s' hs' with hc | hheld | hextra
      · exact .inl hc
      · exact .inr (.inl hheld)
      · obtain rfl : s = s' := Option.some.inj hextra
        exact .inl hclosed

/-- `close` clears `_conn` first, so that the connection is accounted for by the local variable
until it is closed. -/
theorem wp_aioClose_accounted (depth : Nat) {st : State} {t : Transcript E}
    (ht : Accounted none st t) :
    wp (recording h) (Aio.FTPBlob.close fuel (connection Aio.FTPBlob.dialect b fuel depth))
      (fun o st' t' => o ≠ .spun → Accounted none st' t') st t := by
  -- the connection is taken out of the object before `QUIT` is sent
  have hcleared : Accounted st.conn { st with conn := none } t := by
    intro s hs
    rcases ht s hs with hc | hheld | hextra
    · exact .inl hc
    · exact .inr (.inr hheld)
    · cases hextra
  have hquit : KeepsAccounted h st.conn (suppressBlobError
      ((cmd Aio.FTPBlob.dialect fuel (connection Aio.FTPBlob.dialect b fuel depth) quitCmd).bind
        fun _ => .pure ())) := by
    apply suppressBlobError_of (preserves_compositional _ _)
    apply preserves_bind _ fun _ => preserves_pure ()
    have hcommands : Commands (KeepsAccounted h st.conn) Flavour.aio.dialect
        (connection Flavour.aio.dialect b fuel depth) fun _ => True :=
      keepsAccounted_commands (keepsAccounted_connection depth)
    exact cmd_of hcommands trivial
  unfold Aio.FTPBlob.close
  rw [bind_eq, wp_bind, wp_read, bindPost_ok, bind_eq, wp_bind, wp_setConn, bindPost_ok,
    wp_tryFinally]
  apply wp_mono (hquit _ t hcleared)
  intro o st' t' ht'
  have hold := wp_closeOld_accounted (h := h) st.conn ht'
  cases o with
  | ok u =>
      rw [finallyPost_ok, wp_bind]
      apply wp_mono hold
      intro o st'' t'' hJ
      cases o <;> exact fun _ => hJ
  | error e =>
      rw [finallyPost_error, wp_bind]
      apply wp_mono hold
      intro o st'' t'' hJ
      cases o <;> exact fun _ => hJ
  | spun => exact fun hne => absurd rfl hne

/-- In every state of a run, each control connection that was opened has been closed or is the one
that is held. -/
theorem accounted_run {st : State} {t : Transcript E} (hr : Run h .aio b fuel st t) :
    Accounted none st t := by
  apply Reachable.invariant _ _ hr
  · rintro _ _ ⟨rfl, e, rfl⟩ s hs
    cases hs
  · intro c st t ht
    by_cases hc : c = .close
    · subst hc
      show wp _ (Program.bind _ _) _ _ _
      rw [wp_bind]
      apply wp_mono (wp_aioClose_accounted fuel ht)
      intro o st' t' hJ
      cases o with
      | ok u => exact fun _ => hJ (by simp)
      | error e => exact fun _ => hJ (by simp)
      | spun => exact fun hne => absurd rfl hne
    · have hkeeps : KeepsAccounted h none ((Flavour.aio.backend b fuel).perform c) :=
        perform_of (keepsAccounted_methods fuel) (fun h => absurd h hc) fun _ _ => trivial
      exact wp_mono (hkeeps st t ht) fun _ _ _ hJ _ => hJ

/-! ## What `close` is for -/

/-- What happened between two transcripts of one run. -/
def during (t t' : Transcript E) : List Event := t'.log.drop t.log.length

/-- A call of `close` that did what it is for. -/
structure ClosedCleanly (st : State) (t : Transcript E) (st' : State) (t' : Transcript E) :
    Prop where
  noneHeld : st'.conn = none
  noneOpened : ∀ id, .opened .control id ∉ during t t'
  allClosed : ∀ id, .opened .control id ∈ t'.log → .closed .control id ∈ t'.log
  quitSent : ∀ s, st.conn = some s →
    .sent .control s.id (encode quitCmd ++ crlf) ∈ during t t'

/-- The server refuses the next `n` attempts to connect. -/
def Refuses (h : Handler ftp E) (b : FTPBlob) : Nat → E → Prop
  | 0, _ => True
  | n + 1, e =>
      match h e (.connect .control b.host b.port) with
      | (.ok _, _) => False
      | (.error (.runtime _), _) => False
      | (.error _, e') => Refuses h b n e'

/-- Only attempts to connect that failed. -/
def OnlyFailed (evs : List Event) : Prop := ∀ ev ∈ evs, ev = .failed .control

/-- Against a server that refuses, connecting raises `BlobError` and opens nothing. -/
theorem wp_attempts_refused (n : Nat) (lastError : String) {st : State} {t : Transcript E}
    (ht : Refuses h b n t.env) :
    wp (recording h) (b.attempts n lastError) (fun o st' t' => st' = st ∧
      (∃ m, o = .error (.blobError m)) ∧
      ∃ evs, OnlyFailed evs ∧ t'.log = t.log ++ evs) st t := by
  induction n generalizing lastError t with
  | zero => exact ⟨rfl, ⟨_, rfl⟩, [], nofun, (List.append_nil _).symm⟩
  | succ n ih =>
      have hnext : ∀ (e : E) (m : String), Refuses h b n e →
          wp (recording h) (b.attempts n m) (fun o st' t' => st' = st ∧
            (∃ m, o = .error (.blobError m)) ∧
            ∃ evs, OnlyFailed evs ∧ t'.log = t.log ++ evs) st
            ⟨e, t.next, t.log ++ [.failed .control]⟩ := by
        intro e m he
        apply wp_mono (ih m he)
        rintro o st' t' ⟨hst', ho, evs, hevs, hlog⟩
        refine ⟨hst', ho, .failed .control :: evs, ?_, by rw [hlog]; simp⟩
        intro ev hev
        rcases List.mem_cons.mp hev with rfl | hev
        · rfl
        · exact hevs ev hev
      unfold attempts
      rw [bind_eq, wp_bind, wp_connect]
      unfold Refuses at ht
      unfold recording
      dsimp only
      split
      · next x e heq =>
          rw [heq] at ht
          exact ht.elim
      · next x e heq =>
          rw [heq] at ht
          cases x with
          | timeout m => exact hnext e _ ht
          | refused m => exact hnext e _ ht
          | os m => exact hnext e _ ht
          | runtime m => exact ht.elim

theorem wp_quit_refused (depth : Nat) {st : State} {t : Transcript E} (hst : st.conn = none)
    (ht : Refuses h b b.retries.toNat t.env) :
    wp (recording h) (suppressBlobError ((cmd fl.dialect fuel
        (connection fl.dialect b fuel (depth + 1)) quitCmd).bind fun _ => .pure ()))
      (fun o st' t' => o = .ok () ∧ st' = st ∧
        ∃ evs, OnlyFailed evs ∧ t'.log = t.log ++ evs) st t := by
  unfold suppressBlobError cmd sendCmd connection connectAndLogin
  simp only [bind_eq, wp_bind, wp_tryCatch, wp_read, bindPost_ok, hst]
  apply wp_mono (wp_attempts_refused _ _ ht)
  rintro o st' t' ⟨rfl, ⟨m, rfl⟩, hlog⟩
  exact ⟨rfl, rfl, hlog⟩

/-- What a `close` leaves behind when the server refuses to be connected again. -/
theorem wp_aioClose_refused (depth : Nat) {st : State} {t : Transcript E}
    (ht : Refuses h b b.retries.toNat t.env) :
    wp (recording h)
      (Aio.FTPBlob.close fuel (connection Aio.FTPBlob.dialect b fuel (depth + 1)))
      (fun _ st' t' => st'.conn = none ∧ ∃ evs,
        (∀ ev ∈ evs, ev = .failed .control ∨ ∃ id, ev = .closed .control id) ∧
        t'.log = t.log ++ evs) st t := by
  unfold Aio.FTPBlob.close
  rw [bind_eq, wp_bind, wp_read, bindPost_ok, bind_eq, wp_bind, wp_setConn, bindPost_ok,
    wp_tryFinally]
  have hquit : wp (recording h) (suppressBlobError ((cmd Flavour.aio.dialect fuel
    (connection Flavour.aio.dialect b fuel (depth + 1)) quitCmd).bind fun _ => .pure ())) _
    { st with conn := none } t := wp_quit_refused depth rfl ht
  apply wp_mono hquit
  rintro o st' t' ⟨rfl, rfl, evs, hevs, hlog⟩
  rw [finallyPost_ok, wp_bind]
  cases st.conn with
  | none => exact ⟨rfl, evs, fun ev hev => .inl (hevs ev hev), hlog⟩
  | some s =>
      show wp _ (Program.bind _ _) _ _ _
      rw [wp_bind, wp_call, wp_pure, bindPost_ok, wp_call, wp_raiseOnError]
      have hclosed : ∃ evs', (∀ ev ∈ evs', ev = .failed .control ∨ ∃ id, ev = .closed .control id) ∧
          (recording h (recording h t' (.closeWriter s)).2 (.waitClosed s)).2.log =
            t.log ++ evs' := by
        refine ⟨evs ++ [.closed .control s.id], ?_, ?_⟩
        · intro ev hev
          rcases List.mem_append.mp hev with hev | hev
          · exact .inl (hevs ev hev)
          · exact .inr ⟨s.id, List.mem_singleton.mp hev⟩
        · simp [recording, events, hlog]
      cases (recording h (recording h t' (.closeWriter s)).2 (.waitClosed s)).1 with
      | ok u => exact ⟨rfl, hclosed⟩
      | error e => exact ⟨rfl, hclosed⟩

/-! ### A server that accepts -/

/-- A control connection was opened after the first `n` events. -/
def OpenedSince (n : Nat) (t : Transcript E) : Prop := ∃ id, .opened .control id ∈ t.log.drop n

theorem openedSince_stable (h : Handler ftp E) (n : Nat) (t : Transcript E) (o : FtpOp)
    (ht : OpenedSince n t) : OpenedSince n (recording h t o).2 := by
  obtain ⟨id, hid⟩ := ht
  exact ⟨id, ((recording_log h t o).drop n).subset hid⟩

/-- Either a connection was opened or the exception that no handler of the code catches is on its
way. -/
def Disturbed (n : Nat) {α : Type} (o : Outcome PyExc α) (t : Transcript E) : Prop :=
  OpenedSince n t ∨ ∃ m, o = .error (.ioError (.runtime m))

theorem wp_bind_disturbed {α β : Type} {n : Nat} {p : FtpProg α} {f : α → FtpProg β} {st : State}
    {t : Transcript E} (hp : wp (recording h) p (fun o _ => Disturbed n o) st t) :
    wp (recording h) (p.bind f) (fun o _ => Disturbed n o) st t := by
  rw [wp_bind]
  apply wp_mono hp
  intro o st' t' ht'
  rcases ht' with ht' | ⟨m, rfl⟩
  · cases o with
    | ok a =>
        rw [bindPost_ok]
        have hrest := preserves_of_stable (openedSince_stable h n) (f a) st' t' ht'
        exact wp_mono hrest fun _ _ _ hopened => .inl hopened
    | error e => exact .inl ht'
    | spun => exact .inl ht'
  · exact .inr ⟨m, rfl⟩

theorem wp_tryCatch_disturbed {α : Type} {n : Nat} {p : FtpProg α} {g : PyExc → FtpProg α}
    {st : State} {t : Transcript E} (hp : wp (recording h) p (fun o _ => Disturbed n o) st t)
    (hg : ∀ m, g (.ioError (.runtime m)) = .raise (.ioError (.runtime m))) :
    wp (recording h) (p.tryCatch g) (fun o _ => Disturbed n o) st t := by
  rw [wp_tryCatch]
  apply wp_mono hp
  intro o st' t' ht'
  rcases ht' with ht' | ⟨m, rfl⟩
  · cases o with
    | ok a => exact .inl ht'
    | error e =>
        rw [catchPost_error]
        have hrest := preserves_of_stable (openedSince_stable h n) (g e) st' t' ht'
        exact wp_mono hrest fun _ _ _ hopened => .inl hopened
    | spun => exact .inl ht'
  · rw [catchPost_error, hg]
    exact .inr ⟨m, rfl⟩

theorem wp_attempts_disturbed (n : Nat) (lastError : String) {k : Nat} {st : State}
    {t : Transcript E} (hk : k ≤ t.log.length) (ht : ¬ Refuses h b n t.env) :
    wp (recording h) (b.attempts n lastError) (fun o _ => Disturbed k o) st t := by
  induction n generalizing lastError t with
  | zero => exact absurd trivial ht
  | succ n ih =>
      have hlater : k ≤ (t.log ++ [Event.failed .control]).length := by
        rw [List.length_append]
        omega
      unfold attempts
      rw [bind_eq, wp_bind, wp_connect]
      unfold Refuses at ht
      unfold recording
      dsimp only
      split
      · left
        show OpenedSince k ⟨_, t.next + 1, t.log ++ [.opened .control t.next]⟩
        refine ⟨t.next, ?_⟩
        rw [List.drop_append_of_le_length hk]
        simp
      · next x e heq =>
          rw [heq] at ht
          cases x with
          | timeout m => exact ih _ hlater ht
          | refused m => exact ih _ hlater ht
          | os m => exact ih _ hlater ht
          | runtime m => exact .inr ⟨m, rfl⟩

/-- A `close` that returns has opened a connection, unless the server refuses all attempts. -/
theorem wp_aioClose_opens (depth : Nat) {st : State} {t : Transcript E}
    (ht : ¬ Refuses h b b.retries.toNat t.env) :
    wp (recording h)
      (Aio.FTPBlob.close fuel (connection Aio.FTPBlob.dialect b fuel (depth + 1)))
      (fun o _ t' => o = .ok () → OpenedSince t.log.length t') st t := by
  have hattempts : wp (recording h) b.tcpConnect (fun o _ => Disturbed t.log.length o)
      { st with conn := none } t := wp_attempts_disturbed _ _ le_rfl ht
  have hconnection : wp (recording h)
      (connection Aio.FTPBlob.dialect b fuel (depth + 1))
      (fun o _ => Disturbed t.log.length o) { st with conn := none } t := by
    unfold connection
    rw [bind_eq, wp_bind, wp_read, bindPost_ok]
    exact wp_bind_disturbed (wp_bind_disturbed hattempts)
  have hquit : wp (recording h) (suppressBlobError ((cmd Aio.FTPBlob.dialect fuel
      (connection Aio.FTPBlob.dialect b fuel (depth + 1)) quitCmd).bind fun _ => .pure ()))
      (fun o _ => Disturbed t.log.length o) { st with conn := none } t := by
    have hsend : wp (recording h) (sendCmd Aio.FTPBlob.dialect
        (connection Aio.FTPBlob.dialect b fuel (depth + 1)) quitCmd)
        (fun o _ => Disturbed t.log.length o) { st with conn := none } t :=
      wp_tryCatch_disturbed (wp_bind_disturbed hconnection) fun _ => rfl
    exact wp_tryCatch_disturbed (wp_bind_disturbed (wp_bind_disturbed hsend)) fun _ => rfl
  have hrest : ∀ p : FtpProg Unit, Preserves (recording h) (fun _ => OpenedSince t.log.length) p :=
    preserves_of_stable (openedSince_stable h t.log.length)
  unfold Aio.FTPBlob.close
  rw [bind_eq, wp_bind, wp_read, bindPost_ok, bind_eq, wp_bind, wp_setConn, bindPost_ok,
    wp_tryFinally]
  apply wp_mono hquit
  intro o st' t' ht'
  rcases ht' with ht' | ⟨m, rfl⟩
  · cases o with
    | ok u => exact wp_mono (hrest _ st' t' ht') fun _ _ _ hopened _ => hopened
    | error e => exact wp_mono (hrest _ st' t' ht') fun _ _ _ hopened _ => hopened
    | spun => exact fun _ => ht'
  · rw [finallyPost_error, wp_bind]
    -- the exception comes back when the connection that was held is closed
    apply wp_mono (Q := fun _ _ _ => True) trivial
    intro o st'' t'' _
    cases o <;> simp

/-! ## After any run -/

/-- **`close` keeps its promise only when there is nothing to close**: after any run, a `close` that
returns has left no connection open, opened none and sent `QUIT` where it should exactly when no
connection was held and the server refuses all attempts to open one. -/
theorem close_iff {st : State} {t : Transcript E} (hr : Run h .aio b fuel st t) {st' : State}
    {t' : Transcript E}
    (hclose : (Flavour.aio.backend b fuel).close.run (recording h) st t = (.ok (), st', t')) :
    ClosedCleanly st t st' t' ↔ st.conn = none ∧ Refuses h b b.retries.toNat t.env := by
  have hpost : ∀ {Q : Outcome PyExc Unit → State → Transcript E → Prop},
      wp (recording h) (Aio.FTPBlob.close fuel (connection Aio.FTPBlob.dialect b fuel fuel)) Q st t →
        Q (.ok ()) st' t' := by
    intro Q hQ
    have hrun : ((Aio.FTPBlob.close fuel (connection Aio.FTPBlob.dialect b fuel fuel)).run
      (recording h) st t) = (.ok (), st', t') := hclose
    unfold wp at hQ
    rwa [hrun] at hQ
  cases fuel with
  | zero =>
      -- without fuel the property `connection` does not return
      exact absurd (congrArg Prod.fst hclose) nofun
  | succ fuel =>
      constructor
      · intro hclean
        have hrefuses : Refuses h b b.retries.toNat t.env := by
          by_contra hnot
          obtain ⟨id, hid⟩ := hpost (wp_aioClose_opens fuel hnot) rfl
          exact hclean.noneOpened id hid
        refine ⟨?_, hrefuses⟩
        obtain ⟨-, evs, hevs, hlog⟩ := hpost (wp_aioClose_refused fuel hrefuses)
        cases hst : st.conn with
        | none => rfl
        | some s =>
            have hquit := hclean.quitSent s hst
            unfold during at hquit
            rw [hlog, List.drop_left] at hquit
            rcases hevs _ hquit with heq | ⟨id, heq⟩
            · cases heq
            · cases heq
      · rintro ⟨hst, hrefuses⟩
        obtain ⟨hnone, evs, hevs, hlog⟩ := hpost (wp_aioClose_refused fuel hrefuses)
        have hnew : ∀ id, .opened .control id ∉ evs := by
          intro id hid
          rcases hevs _ hid with heq | ⟨id', heq⟩
          · cases heq
          · cases heq
        have haccounted : Accounted none st' t' :=
          hpost (wp_aioClose_accounted (fuel + 1) (accounted_run hr)) (by simp)
        refine ⟨hnone, ?_, ?_, ?_⟩
        · intro id hid
          unfold during at hid
          rw [hlog, List.drop_left] at hid
          exact hnew id hid
        · intro id hid
          rcases haccounted ⟨id⟩ hid with hc | hheld | hextra
          · exact hc
          · rw [hnone] at hheld
            cases hheld
          · cases hextra
        · intro s hs
          rw [hst] at hs
          cases hs

/-- A host where nothing listens. -/
def refusing : Handler ftp (List Bytes)
  | l, .connect _ _ _ => (.error (.refused "connection refused"), l)
  | l, o => scripted l o

/-- A new object that is closed at once, with nobody to connect to. -/
theorem close_iff_refusing : ∃ t',
    (Flavour.aio.backend anonymous 2).close.run (recording refusing) anonymous.start (.fresh []) =
      (.ok (), anonymous.start, t') ∧
    ClosedCleanly anonymous.start (.fresh []) anonymous.start t' := by
  have hfresh : Run refusing .aio anonymous 2 anonymous.start (.fresh []) := .init ⟨rfl, [], rfl⟩
  have hclose : (Flavour.aio.backend anonymous 2).close.run (recording refusing) anonymous.start
      (.fresh []) = (.ok (), anonymous.start, ⟨[], 0, List.replicate 3 (.failed .control)⟩) := rfl
  exact ⟨_, hclose, (close_iff hfresh hclose).mpr ⟨rfl, trivial⟩⟩

/-- The replies to a login, to a second login and to `QUIT`. -/
def closingScript : List Bytes :=
  loginScript anonymous ++ loginScript anonymous ++ [line "221 ." ++ crlf]

/-- A new object after `open`. -/
def afterOpen : Outcome PyExc Value × State × Transcript (List Bytes) :=
  ((Flavour.aio.backend anonymous 2).perform .open').run (recording scripted) anonymous.start
    (.fresh closingScript)

/-- The same object after `close`. -/
def afterClose : Outcome PyExc Unit × State × Transcript (List Bytes) :=
  (Flavour.aio.backend anonymous 2).close.run (recording scripted) afterOpen.2.1 afterOpen.2.2

/-- After `open` and `close` a connection is held: `close` has opened it. -/
theorem not_closedCleanly_open :
    Run scripted .aio anonymous 2 afterOpen.2.1 afterOpen.2.2 ∧ afterClose.1 = .ok () ∧
      ¬ ClosedCleanly afterOpen.2.1 afterOpen.2.2 afterClose.2.1 afterClose.2.2 := by
  have hreturns : afterOpen.1 ≠ .spun := by decide
  have hheld : afterClose.2.1.conn ≠ none := by decide
  have hrun : Run scripted .aio anonymous 2 afterOpen.2.1 afterOpen.2.2 :=
    Reachable.step Call.open' (.init ⟨rfl, closingScript, rfl⟩) hreturns
  exact ⟨hrun, by decide, fun hclean => hheld hclean.noneHeld⟩

end GufoBlob.FTPBlob
