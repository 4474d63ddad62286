import GufoBlob.Ftp.Agreement
import GufoBlob.Ftp.Discipline

/-!
# A server without faults

A `Healthy` server answers in time, loses nothing and lets the user in whenever a connection is
opened. On such a server the calls of the async class run like those of the sync class, and so they
leave no reply outstanding (`wp_perform_quiet`); the property `connection` raises nothing
(`wp_connection_admitted`).
-/

namespace GufoBlob.Ftp

open Text Interaction Program FTPBlob

variable {S N : Type}

/-! ## The server -/

theorem faultless_session {P : Peer S} (hf : Faultless P.other) (net : N → Option Nat × N) :
    Faultless (session P net) where
  sendall t ch s b := by
    cases ch with
    | control => rfl
    | data =>
        show ((P.other t.peer (.sendall s b)).1, t.transferred P (.sendall s b)) =
          (.ok (), t.transferred P (.write s b))
        unfold Session.transferred
        rw [hf.sendall]
        rfl
  drain t ch s := by
    cases ch with
    | control => rfl
    | data =>
        show ((P.other t.peer (.drain s)).1, t.transferred P (.drain s)) = (.ok (), t)
        unfold Session.transferred
        rw [hf.drain]
        rfl
  wait t ch s := by
    cases ch with
    | control => rfl
    | data =>
        show ((P.other t.peer (.wait s)).1, t.transferred P (.wait s)) = (.ok (), t)
        unfold Session.transferred
        rw [hf.wait]
        rfl
  close t ch s := by
    cases ch with
    | control =>
        show ((P.other t.peer (.close s)).1, t.hungUp (P.other t.peer (.close s)).2) =
          (.ok (), t.hungUp (P.other t.peer (.closeWriter s)).2)
        rw [hf.close]
    | data =>
        show ((P.other t.peer (.close s)).1, t.transferred P (.close s)) =
          (.ok (), t.transferred P (.closeWriter s))
        unfold Session.transferred
        rw [hf.close]
        rfl
  waitClosed t ch s := by
    show ((P.other t.peer (.waitClosed s)).1, t.transferred P (.waitClosed s)) = (.ok (), t)
    unfold Session.transferred
    rw [hf.waitClosed]
    rfl

/-- The server answers `c` with the code `code`, and is in a state `next` after that. -/
def Accepts (P : Peer S) (c : Str) (code : Int) (next : S → Prop) (p : S) : Prop :=
  (P.receive p (encode c)).reply.code = code ∧ next (P.receive p (encode c)).peer

/-- The server accepts what a login sends when the user is known. -/
def AcceptsUser (P : Peer S) (b : FTPBlob) : S → Prop :=
  if b.root.isEmpty then Accepts P typeCmd ok fun _ => True
  else Accepts P b.cwdCmd actionOk (Accepts P typeCmd ok fun _ => True)

/-- The server greets a connection and lets the user of `b` in, with a password or without one. -/
structure Admits (P : Peer S) (b : FTPBlob) (p : S) : Prop where
  greeting : (P.greet p).1.code = ready
  user : Accepts P b.userCmd loginOk (AcceptsUser P b) (P.greet p).2 ∨
    Accepts P b.userCmd userOk (Accepts P b.passCmd loginOk (AcceptsUser P b)) (P.greet p).2

/-- A server without faults: it answers in time, nothing that is sent gets lost, and it admits the
user of `b` whenever a connection is opened. -/
structure Healthy (P : Peer S) (net : N → Option Nat × N) (b : FTPBlob) : Prop where
  osErrors : OSErrors P.other
  faultless : Faultless P.other
  punctual : Punctual P net
  connects : ∀ p, ∃ s, (P.other p (.connect .control b.host b.port)).1 = .ok s
  admits : ∀ p, Admits P b p

section Healthy

variable {P : Peer S} {net : N → Option Nat × N} {b : FTPBlob} {fuel : Nat} {st : State}
  {t : Session S N} (hp : Healthy P net b)

include hp

theorem Healthy.not_failed (t : Session S N) : ¬ Failed P net t := fun ht => ht.2 hp.punctual

/-- A call of the async class reads the final replies as one of the sync class does. -/
theorem wp_perform_quiet (hb : LoginPlain b) {c : Call} (hc : Ordinary c) (ht : Quiet st t) :
    wp (session P net) ((Flavour.aio.backend b fuel).perform c)
      (afterwards Quiet fun t => t.toBook.Sound) st t := by
  have hsync : wp (session P net) (operation b fuel ⟨c, hc⟩)
      (orFailed (Failed P net) (afterwards Quiet fun t => t.toBook.Sound)) st t :=
    keepsQuiet_operation hp.osErrors hb ⟨c, hc⟩ st t ht
  unfold wp operation at hsync
  unfold wp
  rw [← run_perform_eq (faultless_session hp.faultless net) b fuel hc.ne_close]
  exact hsync.resolve_left (hp.not_failed _)

theorem wp_connection_aio (hb : LoginPlain b) (depth : Nat) (ht : Quiet st t) :
    wp (session P net) (connection Aio.FTPBlob.dialect b fuel depth) connectedPost st t := by
  have hsync : wp (session P net) (connection Sync.FTPBlob.dialect b fuel depth)
      (orFailed (Failed P net) connectedPost) st t :=
    wp_connection_quiet hp.osErrors hb fuel depth ht
  unfold wp at hsync
  unfold wp
  rw [← run_connection_eq (faultless_session hp.faultless net) b fuel depth]
  exact hsync.resolve_left (hp.not_failed _)

end Healthy

/-! ## The login succeeds -/

/-- The program returns as in `R`, or it never ends. -/
def returning {α W : Type} (R : α → State → W → Prop) : Outcome PyExc α → State → W → Prop
  | .ok a => R a
  | .error _ => fun _ _ => False
  | .spun => fun _ _ => True

theorem wp_bind_returning {α β W : Type} {h : Handler ftp W} {p : FtpProg α} {f : α → FtpProg β}
    {R : α → State → W → Prop} {R' : β → State → W → Prop} {st : State} {w : W}
    (hp : wp h p (returning R) st w)
    (hf : ∀ a st w, R a st w → wp h (f a) (returning R') st w) :
    wp h (p.bind f) (returning R') st w := by
  rw [wp_bind]
  apply wp_mono hp
  rintro (a | e | _) st' w' ho
  · exact hf a st' w' ho
  · exact ho
  · exact ho

/-- The connection `s` is at rest, and the server is in the state `p`. -/
structure Rests (s : Sock .control) (p : S) (st : State) (t : Session S N) : Prop where
  reading : Reading s t.toBook [] st t
  pending : t.pending = false
  peer : t.peer = p

section Admitted

variable {P : Peer S} {net : N → Option Nat × N} {b : FTPBlob} {fuel : Nat}
  {conn : FtpProg (Option (Sock .control))} {s : Sock .control} {st : State} {t : Session S N}
  {p : S} (hp : Healthy P net b) (hb : LoginPlain b)

include hp hb

section Login

variable (hconn : Holds (session P net) conn s)

include hconn

theorem wp_cmd_accepted {c : Str} {code : Int} {next : S → Prop} (hc : LoginCmd b c)
    (h : Accepts P c code next p) (ht : Rests s p st t) :
    wp (session P net) (cmd Aio.FTPBlob.dialect fuel conn c)
      (returning fun a st t => a.1 = code ∧ ∃ p, next p ∧ Rests s p st t) st t := by
  obtain ⟨hafter, hpending⟩ :=
    receive_of_not_transfer P t.peer (not_transfer_of_loginCmd hc)
  obtain ⟨hreading, hk, rfl⟩ := ht
  apply wp_mono (wp_cmd_session hconn .aio (hb.cmd hc) hk hreading)
  rintro (a | e | _) st' t' ho
  · obtain ⟨rfl, ht'⟩ := ho.resolve_left (hp.not_failed t')
    rw [hafter] at ht'
    have hbook := ht'.book
    refine ⟨h.1, _, h.2, ⟨hbook ▸ ht', ?_, congrArg Book.peer hbook⟩⟩
    rw [hbook]
    show (t.pending || _) = false
    rw [hk, hpending]
    rfl
  · exact (ho.resolve_left (hp.not_failed t')).notPunctual hp.punctual
  · trivial

theorem wp_cmdExpect_accepted {c : Str} {code : Int} {next : S → Prop} (hc : LoginCmd b c)
    (msg : String) (h : Accepts P c code next p) (ht : Rests s p st t) :
    wp (session P net) (cmdExpect Aio.FTPBlob.dialect fuel conn c code msg)
      (returning fun _ st t => ∃ p, next p ∧ Rests s p st t) st t := by
  apply wp_bind_returning (wp_cmd_accepted hp hb hconn hc h ht)
  rintro a st' t' ⟨hcode, hnext⟩
  dsimp only
  rw [if_neg (not_not.mpr hcode)]
  exact hnext

/-- The commands after the authentication. -/
theorem wp_accepted_user (h : AcceptsUser P b p) (ht : Rests s p st t) :
    wp (session P net) ((enterRoot Aio.FTPBlob.dialect fuel conn b).bind fun _ =>
        cmdExpect Aio.FTPBlob.dialect fuel conn typeCmd ok "Failed to set binary transfer mode: ")
      (returning fun _ _ _ => True) st t := by
  have htype : ∀ p st t, Accepts P typeCmd ok (fun _ => True) p → Rests s p st t →
      wp (session P net) (cmdExpect Aio.FTPBlob.dialect fuel conn typeCmd ok
        "Failed to set binary transfer mode: ") (returning fun _ _ _ => True) st t := by
    intro p st t h ht
    apply wp_mono (wp_cmdExpect_accepted hp hb hconn .type _ h ht)
    rintro (u | e | _) st' t' ho
    · trivial
    · exact ho
    · exact ho
  unfold AcceptsUser at h
  unfold enterRoot
  by_cases hroot : b.root.isEmpty = true
  · rw [if_pos hroot] at h ⊢
    exact htype p st t h ht
  · rw [if_neg hroot] at h ⊢
    have hcwd : LoginCmd b b.cwdCmd := .cwd (by simpa using hroot)
    apply wp_bind_returning (wp_cmdExpect_accepted hp hb hconn hcwd _ h ht)
    rintro u st' t' ⟨p', h', ht'⟩
    exact htype p' st' t' h' ht'

theorem wp_login_admitted (h : Admits P b p)
    (hgreeting : Reading s t.toBook (P.greet p).1.bytes st t) (hpending : t.pending = false)
    (hpeer : t.peer = (P.greet p).2) :
    wp (session P net) (login Aio.FTPBlob.dialect fuel conn b) (returning fun _ _ _ => True) st t := by
  have hexpect : wp (session P net) (expect Aio.FTPBlob.dialect fuel conn ready)
      (returning fun _ st t => Rests s (P.greet p).2 st t) st t := by
    rw [← List.append_nil (P.greet p).1.bytes] at hgreeting
    apply wp_mono (wp_expect_session hconn .aio (P.greet p).1 ready hgreeting)
    rintro (u | e | _) st' t' ho
    · obtain ⟨-, ht'⟩ := ho.resolve_left (hp.not_failed t')
      have hbook := ht'.book
      refine ⟨hbook ▸ ht', ?_, ?_⟩
      · rw [hbook]
        exact hpending
      · rw [hbook]
        exact hpeer
    · rcases ho.resolve_left (hp.not_failed t') with he | ⟨hne, -⟩
      · exact he.notPunctual hp.punctual
      · exact hne h.greeting
    · trivial
  have hcodes : loginOk ≠ userOk := by decide
  have hauth : ∀ st t, Rests s (P.greet p).2 st t →
      wp (session P net) (authenticate Aio.FTPBlob.dialect fuel conn b)
        (returning fun code st t => code = loginOk ∧ ∃ p, AcceptsUser P b p ∧ Rests s p st t) st t := by
    intro st t ht
    rcases h.user with huser | huser
    -- no password is asked for
    · apply wp_bind_returning (wp_cmd_accepted hp hb hconn .user huser ht)
      rintro a st' t' ⟨hcode, hnext⟩
      dsimp only
      rw [if_neg (by rw [hcode]; exact hcodes)]
      exact ⟨hcode, hnext⟩
    · apply wp_bind_returning (wp_cmd_accepted hp hb hconn .user huser ht)
      rintro a st' t' ⟨hcode, p', hpass, ht'⟩
      dsimp only
      rw [if_pos hcode]
      apply wp_bind_returning (wp_cmd_accepted hp hb hconn .pass hpass ht')
      exact fun a st'' t'' ho => ho
  unfold login
  apply wp_bind_returning hexpect
  intro u st₁ t₁ ht₁
  apply wp_bind_returning (hauth st₁ t₁ ht₁)
  rintro code st₂ t₂ ⟨hcode, p₂, h₂, ht₂⟩
  rw [if_neg (not_not.mpr hcode)]
  exact wp_accepted_user hp hb hconn h₂ ht₂

end Login

omit hb in
/-- The first attempt to connect succeeds. -/
theorem wp_tcpConnect_admitted (hretries : 0 < b.retries) (st : State) (t : Session S N) :
    wp (session P net) b.tcpConnect (fun o st' t' => ∃ s, o = .ok s ∧ st' = st ∧
      t' = t.opened P (P.other t.peer (.connect .control b.host b.port)).2) st t := by
  obtain ⟨n, hn⟩ : ∃ n, b.retries.toNat = n + 1 := Nat.exists_eq_succ_of_ne_zero (by omega)
  obtain ⟨s, hs⟩ := hp.connects t.peer
  unfold tcpConnect
  rw [hn, attempts, bind_eq, wp_bind, wp_connect_session, hs]
  exact ⟨s, rfl, rfl, rfl⟩

/-- A task that finds no connection gets one, unless its fuel runs out. -/
theorem wp_connection_admitted (hretries : 0 < b.retries) (depth : Nat) (ht : Quiet st t)
    (hst : st.conn = none) :
    wp (session P net) (connection Aio.FTPBlob.dialect b fuel depth) (returning fun _ _ _ => True)
      st t := by
  cases depth with
  | zero => trivial
  | succ depth =>
      have hlogin : ∀ s, wp (session P net)
          (login Aio.FTPBlob.dialect fuel (connection Aio.FTPBlob.dialect b fuel depth) b)
          (returning fun _ _ _ => True) { st with conn := some s }
          (t.opened P (P.other t.peer (.connect .control b.host b.port)).2) := by
        intro s
        cases depth with
        | zero =>
            apply wp_login_spin
            · exact ht.buffer
            · trivial
        | succ depth =>
            exact wp_login_admitted hp hb (connection_holds _ _ _ _ _) (hp.admits _)
              (ht.opened s _) rfl rfl
      unfold FTPBlob.connection connectAndLogin
      rw [bind_eq, wp_bind, wp_read, bindPost_ok, hst]
      dsimp only
      rw [bind_eq, wp_bind, bind_eq, wp_bind]
      apply wp_mono (wp_tcpConnect_admitted hp hretries st t)
      rintro o st₁ t₁ ⟨s, rfl, rfl, rfl⟩
      rw [bindPost_ok, bind_eq, wp_bind, wp_setConn, bindPost_ok, wp_tryCatch]
      apply wp_mono (hlogin s)
      rintro (u | e | _) st' t' ho
      · trivial
      · exact ho.elim
      · trivial

end Admitted

end GufoBlob.Ftp
