import GufoBlob.Ftp.Errors
import GufoBlob.Interaction.Unless

/-!
# After a lost connection

When a send or a receive on the control connection fails, or the server closes it, `FTPBlob` raises
`BlobError`. Only `connection`, after a failed login, and `close` clear `_sock`; every other method
leaves the dead socket in place, and the next operation is attempted on it.

* `recovered` — in every run of the sync class in which no connection is lost after its login,
  except to `QUIT`, no dead socket is held between two operations, and every command of an operation
  is sent on a connection that is logged in and alive.
* `not_recovered_idle` — a server that closes an idle connection, and two operations after that.
-/

namespace GufoBlob.FTPBlob

open Text Interaction Program Ftp

variable {W : Type}

/-! ## What an observer knows -/

/-- The environment `env`, and what an observer of the calls knows. -/
structure Observed (W : Type) where
  env : W
  /-- The sockets on which a call has failed. -/
  dead : List (Sock .control)
  /-- The last connection has been opened and not been logged in. -/
  loggingIn : Bool
  /-- `QUIT` was sent on the last connection. -/
  quitting : Bool
  /-- A connection was lost that was logged in and had not been sent `QUIT`. -/
  lost : Bool
  /-- A command of an operation was sent on a socket that is dead or not logged in. -/
  astray : Bool

namespace Observed

/-- A new object in the environment `w`. -/
def start (w : W) : Observed W := ⟨w, [], false, false, false, false⟩

/-- A call on the socket `s` has failed. -/
def fail (t : Observed W) (s : Sock .control) : Observed W :=
  { t with dead := s :: t.dead, lost := t.lost || (!t.loggingIn && !t.quitting) }

end Observed

/-- The commands of `_login`. -/
def isLoginCmd (b : FTPBlob) (c : Str) : Bool :=
  c = b.userCmd || c = b.passCmd || c = b.cwdCmd || c = typeCmd

/-- What the answer to a call tells. -/
def Observed.after (b : FTPBlob) (t : Observed W) : (o : FtpOp) → ftp.Ans o → Observed W
  | .connect .control _ _, .ok s =>
      { t with dead := t.dead.filter (· ≠ s), loggingIn := true, quitting := false }
  | @FtpOp.sendall .control s _, .error _ => t.fail s
  | @FtpOp.recv .control s, .error _ => t.fail s
  | @FtpOp.recv .control s, .ok [] => t.fail s
  | .asked s c, _ =>
      { t with
        quitting := t.quitting || c = quitCmd
        astray := t.astray || (!isLoginCmd b c && (t.loggingIn || t.dead.contains s)) }
  | .answered c code _, _ =>
      { t with loggingIn := t.loggingIn && !(c = typeCmd && code = ok) }
  | _, _ => t

/-- The environment, with an observer. -/
def observing (b : FTPBlob) (h : Handler ftp W) : Handler ftp (Observed W) := fun t o =>
  ((h t.env o).1, { t.after b o (h t.env o).1 with env := (h t.env o).2 })

/-- No dead socket is held, the one that is held is logged in, and no command of an operation was
sent on another. -/
structure Recovered (st : State) (t : Observed W) : Prop where
  alive : ∀ s, st.conn = some s → s ∉ t.dead
  ready : st.conn ≠ none → t.loggingIn = false
  sound : t.astray = false

/-- In addition `QUIT` was not sent on it. -/
structure Settled (st : State) (t : Observed W) : Prop extends Recovered st t where
  open' : st.conn ≠ none → t.quitting = false

variable {b : FTPBlob} {h : Handler ftp W} {st : State} {t : Observed W}

/-- A connection that was lost stays lost. -/
theorem lost_stable (t : Observed W) (o : FtpOp) (ht : t.lost = true) :
    (observing b h t o).2.lost = true := by
  show (t.after b o (h t.env o).1).lost = true
  unfold Observed.after
  split <;> simp [Observed.fail, ht]

/-- The program keeps what is known of the object, unless a connection is lost. -/
abbrev KeepsSettled (b : FTPBlob) (h : Handler ftp W) {α : Type} (p : FtpProg α) : Prop :=
  KeepsUnless (observing b h) (fun t => t.lost = true) Settled (fun _ => True) p

theorem keepsSettled_compositional (b : FTPBlob) (h : Handler ftp W) :
    Compositional (KeepsSettled b h) :=
  keepsUnless_compositional lost_stable fun _ _ _ => trivial

/-- Without a connection nothing more is required. -/
theorem settled_of_none (hst : st.conn = none) (hsound : t.astray = false) : Settled st t where
  alive _ hs := by cases hst.symm.trans hs
  ready hne := absurd hst hne
  sound := hsound
  open' hne := absurd hst hne

/-- A failed call on a connection that is logged in loses it. -/
theorem Settled.fail (ht : Settled st t) (s : Sock .control) :
    (t.fail s).lost = true ∨ Settled st (t.fail s) := by
  cases hst : st.conn with
  | none => exact .inr (settled_of_none hst ht.sound)
  | some s' =>
      have hne : st.conn ≠ none := by simp [hst]
      left
      simp [Observed.fail, ht.ready hne, ht.open' hne]

/-- What holds of all that an answer can tell holds after the call. -/
theorem settled_observing {o : FtpOp}
    (ho : ∀ r, (t.after b o r).lost = true ∨ Settled st (t.after b o r)) :
    (observing b h t o).2.lost = true ∨ Settled st (observing b h t o).2 :=
  (ho _).imp_right fun hs => { hs with }

theorem Settled.sent (ht : Settled st t) (s : Sock .control) (x : Bytes) :
    (observing b h t (.sendall s x)).2.lost = true ∨
      Settled st (observing b h t (.sendall s x)).2 := by
  apply settled_observing
  intro r
  cases r with
  | ok u => exact .inr ht
  | error e => exact ht.fail s

theorem Settled.call (ht : Settled st t) {o : FtpOp} (ho : SocketOp o) :
    (observing b h t o).2.lost = true ∨ Settled st (observing b h t o).2 := by
  apply settled_observing
  intro r
  unfold Observed.after
  split
  · exact ho.elim
  · exact ht.fail _
  · exact ht.fail _
  · exact ht.fail _
  · exact ho.elim
  · exact ho.elim
  · exact .inr ht

/-! ## Sockets -/

theorem keepsSettled_call {α : Type} {o : FtpOp} {k : ftp.Ans o → FtpProg α}
    (ho : ∀ st t, Settled st t →
      (observing b h t o).2.lost = true ∨ Settled st (observing b h t o).2)
    (hk : ∀ r, KeepsSettled b h (k r)) : KeepsSettled b h (.call o k) := by
  intro st t ht
  rw [wp_call]
  rcases ho st t ht with hlost | hkept
  · exact wp_unless_failed lost_stable hlost
  · exact hk _ st _ hkept

theorem keepsSettled_sockets (b : FTPBlob) (h : Handler ftp W) : Sockets (KeepsSettled b h) where
  toCompositional := keepsSettled_compositional b h
  call _ _ ho hk := keepsSettled_call (fun _ _ ht => ht.call ho) hk

/-- What keeps the connection, the buffer and the environment as they are, or only the buffer. -/
theorem keepsSettled_modify {f : State → State} (hf : ∀ st, (f st).conn = st.conn) :
    KeepsSettled b h (Program.modify f : FtpProg Unit) := by
  intro st t ht
  rw [wp_modify]
  right
  show Settled (f st) t
  exact
    { alive := by rw [hf]; exact ht.alive
      ready := by rw [hf]; exact ht.ready
      sound := ht.sound
      open' := by rw [hf]; exact ht.open' }

theorem keepsSettled_read : KeepsSettled b h (Program.read : FtpProg State) :=
  fun _ _ ht => .inr ht

/-- A receive tells the observer whether the connection is alive. -/
theorem wp_recv_observed (s : Sock .control) (Q : Outcome PyExc Bytes → State → Observed W → Prop) :
    wp (observing b h) (Sync.FTPBlob.dialect.recv s) Q st t ↔
      match (h t.env (.recv s)).1 with
      | .ok [] => Q (.ok []) st { t.fail s with env := (h t.env (.recv s)).2 }
      | .ok data => Q (.ok data) st { t with env := (h t.env (.recv s)).2 }
      | .error e => Q (.error (.ioError e)) st { t.fail s with env := (h t.env (.recv s)).2 } := by
  show wp (observing b h) (.call (.recv s) raiseOnError) Q st t ↔ _
  rw [wp_call, wp_raiseOnError]
  unfold observing
  dsimp only
  generalize (h t.env (.recv s)).1 = r
  cases r with
  | ok data => cases data <;> rfl
  | error e => rfl

/-- So does a send. -/
theorem wp_send_observed (s : Sock .control) (x : Bytes)
    (Q : Outcome PyExc Unit → State → Observed W → Prop) :
    wp (observing b h) (Sync.FTPBlob.dialect.send s x) Q st t ↔
      match (h t.env (.sendall s x)).1 with
      | .ok _ => Q (.ok ()) st { t with env := (h t.env (.sendall s x)).2 }
      | .error e =>
          Q (.error (.ioError e)) st { t.fail s with env := (h t.env (.sendall s x)).2 } := by
  show wp (observing b h) (.call (.sendall s x) raiseOnError) Q st t ↔ _
  rw [wp_call, wp_raiseOnError]
  unfold observing
  dsimp only
  generalize (h t.env (.sendall s x)).1 = r
  cases r <;> rfl

/-- A connection that is opened is alive. -/
theorem wp_connect_observed (host : Str) (port : Nat)
    (Q : Outcome PyExc (Except IOErr (Sock .control)) → State → Observed W → Prop) :
    wp (observing b h) (connect .control host port) Q st t ↔
      match (h t.env (.connect .control host port)).1 with
      | .ok s => Q (.ok (.ok s)) st
          { t with
            env := (h t.env (.connect .control host port)).2
            dead := t.dead.filter (· ≠ s), loggingIn := true, quitting := false }
      | .error e =>
          Q (.ok (.error e)) st { t with env := (h t.env (.connect .control host port)).2 } := by
  rw [wp_connect]
  unfold observing
  dsimp only
  generalize (h t.env (.connect .control host port)).1 = r
  cases r <;> rfl

/-- Closing a socket raises nothing, and tells nothing. -/
theorem wp_closeSock_observed (hos : OSErrors h) (s : Sock .control)
    (Q : Outcome PyExc Unit → State → Observed W → Prop) :
    wp (observing b h) (Sync.FTPBlob.closeSock s) Q st t ↔
      Q (.ok ()) st { t with env := (h t.env (.close s)).2 } := by
  unfold Sync.FTPBlob.closeSock suppressOSError
  rw [wp_tryCatch, wp_call, wp_raiseOnError]
  unfold observing
  dsimp only
  have hraisable := hos.close t.env .control s
  generalize (h t.env (.close s)).1 = r at hraisable ⊢
  cases r with
  | ok u => rfl
  | error e =>
      cases e with
      | runtime e => exact absurd rfl (hraisable e)
      | _ => rfl

/-! ## Logging in -/

section Login

/-- While the connection `s` is logged in: it is held, and nothing has failed on it. -/
structure Joining (s : Sock .control) (st : State) (t : Observed W) : Prop where
  held : st.conn = some s
  alive : s ∉ t.dead
  open' : t.quitting = false
  sound : t.astray = false

/-- The login on `s` has raised `BlobError`. -/
structure Refused (s : Sock .control) (e : PyExc) (st : State) (t : Observed W) : Prop where
  error : IsBlobError e
  held : st.conn = some s
  sound : t.astray = false

variable {s : Sock .control}

theorem Joining.refused (ht : Joining s st t) (msg : String) :
    Refused s (.blobError msg) st t := ⟨trivial, ht.held, ht.sound⟩

/-- A step of the login. -/
abbrev Joins (b : FTPBlob) (h : Handler ftp W) (s : Sock .control) {α : Type} (p : FtpProg α) :
    Prop :=
  Ends True (observing b h) (Joining s) (Refused s) (fun _ => True) p

theorem joins_raise {α : Type} (msg : String) : Joins b h s (.raise (.blobError msg) : FtpProg α) :=
  fun _ _ ht => ht.refused msg

/-- The property `connection` while `s` is held, at any depth. -/
theorem joins_connection (fuel depth : Nat) :
    Ends True (observing b h) (Joining s) (Refused s) (· = some s)
      (connection Sync.FTPBlob.dialect b fuel depth) := by
  cases depth with
  | zero => exact ends_spin trivial
  | succ depth =>
      intro st t ht
      rw [connection_holds _ _ _ _ s _ st t ht.held]
      exact ⟨rfl, ht⟩

variable (hos : OSErrors h) {fuel : Nat} {conn : FtpProg (Option (Sock .control))}
  (hconn : Ends True (observing b h) (Joining s) (Refused s) (· = some s) conn)

include hos hconn

/-- No octets are the end of the file; then nothing more is called. -/
def octetsPost (s : Sock .control) : Outcome PyExc Bytes → State → Observed W → Prop
  | .ok [] => fun st t => st.conn = some s ∧ t.astray = false
  | .ok data => fun st t => Joining s { st with responseBuffer := st.responseBuffer ++ data } t
  | .error e => Refused s e
  | .spun => fun _ _ => True

theorem wp_receive_joining (ht : Joining s st t) :
    wp (observing b h) (receive Sync.FTPBlob.dialect conn) (octetsPost s) st t := by
  unfold receive
  rw [wp_tryCatch, bind_eq, wp_bind]
  apply wp_mono (hconn st t ht)
  rintro (c | e | _) st' t' ho
  · obtain ⟨rfl, ht'⟩ := ho
    rw [bindPost_ok]
    dsimp only
    rw [wp_recv_observed]
    have hraisable := hos.recv t'.env .control s
    split
    · exact ⟨ht'.held, ht'.sound⟩
    · next data hne _ =>
        cases data with
        | nil => exact absurd rfl hne
        | cons x data => exact ⟨ht'.held, ht'.alive, ht'.open', ht'.sound⟩
    · next e he =>
        obtain ⟨msg, hmsg⟩ := readError_of_lost (.inl (isOSError_of_raisable hraisable he))
        rw [catchPost_error, hmsg]
        exact ⟨trivial, ht'.held, ht'.sound⟩
  · obtain ⟨msg, hmsg⟩ := readError_of_lost (.inr ho.error)
    rw [bindPost_error, catchPost_error, hmsg]
    exact ⟨trivial, ho.held, ho.sound⟩
  · trivial

theorem joins_readLine : Joins b h s (readLine Sync.FTPBlob.dialect fuel conn) := by
  show Joins b h s (readLineLoop Sync.FTPBlob.dialect conn fuel)
  generalize fuel = n
  induction n with
  | zero => exact ends_spin trivial
  | succ n ih =>
      intro st t ht
      unfold readLineLoop
      rw [bind_eq, wp_bind, wp_read, bindPost_ok]
      split
      · exact ⟨trivial, ht.held, ht.alive, ht.open', ht.sound⟩
      · rw [bind_eq, wp_bind]
        apply wp_mono (wp_receive_joining hos hconn ht)
        rintro (data | e | _) st' t' ho
        · cases data with
          | nil => exact ⟨trivial, ho.1, ho.2⟩
          | cons x data =>
              rw [bindPost_ok, if_neg (by simp), bind_eq, wp_bind, wp_appendBuffer, bindPost_ok]
              exact ih _ _ ho
        · exact ho
        · trivial

theorem joins_readResponse : Joins b h s (readResponse Sync.FTPBlob.dialect fuel conn) := by
  have hline : Joins b h s (readLine Sync.FTPBlob.dialect fuel conn) := joins_readLine hos hconn
  have hmore : ∀ first n lines,
      Joins b h s (moreLines Sync.FTPBlob.dialect fuel conn first n lines) := by
    intro first n
    induction n with
    | zero => exact fun _ => ends_spin trivial
    | succ n ih =>
        intro lines
        refine ends_bind hline fun line _ => ?_
        split
        · exact ends_pure trivial
        · exact ih _
  refine ends_bind hline fun first _ => ?_
  split
  · exact joins_raise _
  · refine ends_bind (R := fun _ => True) ?_ fun code _ => ?_
    · cases hcode : bytesToIntRange (first.take 3) 0 999 with
      | ok code => exact ends_pure trivial
      | error e => exact fun _ _ ht => ⟨bytesToIntRange_error hcode, ht.held, ht.sound⟩
    · split
      · exact ends_bind (hmore _ _ _) fun _ _ => ends_pure trivial
      · exact ends_pure trivial

theorem joins_expect (code : Int) :
    Joins b h s (expect Sync.FTPBlob.dialect fuel conn code) := by
  refine ends_bind (joins_readResponse hos hconn) fun r _ => ?_
  dsimp only
  split
  · exact joins_raise _
  · exact ends_pure trivial

/-- A command of the login, on `s`. -/
theorem joins_sendCmd {c : Str} (hlogin : isLoginCmd b c = true) (hquit : c ≠ quitCmd) :
    Joins b h s (sendCmd Sync.FTPBlob.dialect conn c) := by
  intro st t ht
  unfold sendCmd
  rw [wp_tryCatch, bind_eq, wp_bind]
  apply wp_mono (hconn st t ht)
  rintro (held | e | _) st' t' ho
  · obtain ⟨rfl, ht'⟩ := ho
    rw [bindPost_ok]
    dsimp only
    rw [bind_eq, wp_bind, wp_asked, bindPost_ok]
    have hasked : Joining s st' (observing b h t' (.asked s c)).2 := by
      refine ⟨ht'.held, ht'.alive, ?_, ?_⟩
      · show (t'.quitting || decide (c = quitCmd)) = false
        simp [ht'.open', hquit]
      · show (t'.astray || (!isLoginCmd b c && _)) = false
        simp [ht'.sound, hlogin]
    generalize (observing b h t' (.asked s c)).2 = t'' at hasked ⊢
    rw [wp_send_observed]
    have hraisable := hos.sendall t''.env .control s (encode c ++ crlf)
    split
    · exact ⟨trivial, hasked.held, hasked.alive, hasked.open', hasked.sound⟩
    · next e he =>
        obtain ⟨msg, hmsg⟩ := sendFailed_of_lost (.inl (isOSError_of_raisable hraisable he))
        rw [catchPost_error, hmsg]
        exact ⟨trivial, hasked.held, hasked.sound⟩
  · obtain ⟨msg, hmsg⟩ := sendFailed_of_lost (.inr ho.error)
    rw [bindPost_error, catchPost_error, hmsg]
    exact ⟨trivial, ho.held, ho.sound⟩
  · trivial

theorem joins_cmd {c : Str} (hlogin : isLoginCmd b c = true) (hquit : c ≠ quitCmd) :
    Joins b h s (cmd Sync.FTPBlob.dialect fuel conn c) := by
  refine ends_bind (joins_sendCmd hos hconn hlogin hquit) fun _ _ => ?_
  refine ends_bind (joins_readResponse hos hconn) fun r _ => ?_
  refine ends_bind (R := fun _ => True) ?_ fun _ _ => ends_pure trivial
  intro st t ht
  rw [wp_answered]
  exact ⟨trivial, ht.held, ht.alive, ht.open', ht.sound⟩

theorem joins_cmdExpect {c : Str} (hlogin : isLoginCmd b c = true) (hquit : c ≠ quitCmd)
    (want : Int) (msg : String) :
    Joins b h s (cmdExpect Sync.FTPBlob.dialect fuel conn c want msg) := by
  refine ends_bind (joins_cmd hos hconn hlogin hquit) fun r _ => ?_
  dsimp only
  split
  · exact joins_raise _
  · exact ends_pure trivial

/-- The connection is logged in, or `BlobError` was raised. -/
def joinedPost (s : Sock .control) : Outcome PyExc Unit → State → Observed W → Prop :=
  endsPost True (fun st t => Joining s st t ∧ t.loggingIn = false) (Refused s) fun _ => True

/-- The last command of a login. -/
theorem wp_typeCmd_joining (msg : String) (ht : Joining s st t) :
    wp (observing b h) (cmdExpect Sync.FTPBlob.dialect fuel conn typeCmd ok msg) (joinedPost s)
      st t := by
  unfold cmdExpect cmd
  simp only [bind_eq, bind_assoc', pure_eq, pure_bind']
  rw [wp_bind]
  apply wp_mono (joins_sendCmd hos hconn (by simp [isLoginCmd]) (by decide) st t ht)
  rintro (⟨⟩ | e | _) st' t' ho
  · rw [bindPost_ok, wp_bind]
    apply wp_mono (joins_readResponse hos hconn st' t' ho.2)
    rintro (r | e | _) st'' t'' ho
    · rw [bindPost_ok, wp_bind, wp_answered, bindPost_ok]
      split
      · exact ⟨trivial, ho.2.held, ho.2.sound⟩
      · next hcode =>
          refine ⟨trivial, ⟨ho.2.held, ho.2.alive, ho.2.open', ho.2.sound⟩, ?_⟩
          show (t''.loggingIn && !(decide (typeCmd = typeCmd) && decide (r.1 = ok))) = false
          simp [not_not.mp hcode]
    · exact ho
    · trivial
  · exact ho
  · trivial

theorem wp_login_joining (ht : Joining s st t) :
    wp (observing b h) (login Sync.FTPBlob.dialect fuel conn b) (joinedPost s) st t := by
  have hauth : Joins b h s (authenticate Sync.FTPBlob.dialect fuel conn b) := by
    refine ends_bind (joins_cmd hos hconn (by simp [isLoginCmd]) (append_ne_of_head (by decide) _))
      fun r _ => ?_
    dsimp only
    split
    · refine ends_bind (joins_cmd hos hconn (by simp [isLoginCmd]) (append_ne_of_head (by decide) _))
        fun _ _ => ends_pure trivial
    · exact ends_pure trivial
  have hroot : Joins b h s (enterRoot Sync.FTPBlob.dialect fuel conn b) := by
    unfold enterRoot
    split
    · exact ends_pure trivial
    · exact joins_cmdExpect hos hconn (c := b.cwdCmd) (by simp [isLoginCmd])
        (append_ne_of_head (by decide) _) _ _
  unfold login
  rw [bind_eq, wp_bind]
  apply wp_mono (joins_expect hos hconn _ st t ht)
  rintro (⟨⟩ | e | _) st₁ t₁ ho
  · rw [bindPost_ok, bind_eq, wp_bind]
    apply wp_mono (hauth st₁ t₁ ho.2)
    rintro (code | e | _) st₂ t₂ ho
    · rw [bindPost_ok]
      split
      · exact ⟨trivial, ho.2.held, ho.2.sound⟩
      · rw [bind_eq, wp_bind]
        apply wp_mono (hroot st₂ t₂ ho.2)
        rintro (⟨⟩ | e | _) st₃ t₃ ho
        · exact wp_typeCmd_joining hos hconn _ ho.2
        · exact ho
        · trivial
    · exact ho
    · trivial
  · exact ho
  · trivial

end Login

/-! ## Connecting -/

section Connecting

/-- After `_connect`: a connection that was opened is alive. -/
def openedPost (o : Outcome PyExc (Sock .control)) (st : State) (t : Observed W) : Prop :=
  st.conn = none ∧ t.astray = false ∧ ∀ s, o = .ok s → s ∉ t.dead ∧ t.quitting = false

theorem wp_attempts_observed (n : Nat) (lastError : String) (hst : st.conn = none)
    (hsound : t.astray = false) :
    wp (observing b h) (b.attempts n lastError) openedPost st t := by
  induction n generalizing lastError t with
  | zero => exact ⟨hst, hsound, fun _ hs => by cases hs⟩
  | succ n ih =>
      unfold attempts
      rw [bind_eq, wp_bind, wp_connect_observed]
      split
      · refine ⟨hst, hsound, fun s hs => ?_⟩
        obtain rfl := Outcome.ok.inj hs
        exact ⟨fun hmem => of_decide_eq_true (List.mem_filter.mp hmem).2 rfl, rfl⟩
      · next e _ =>
          rw [bindPost_ok]
          cases e with
          | runtime e => exact ⟨hst, hsound, fun _ hs => by cases hs⟩
          | _ => exact ih _ hsound

/-- After `connection`: the socket that it returns is held. -/
def connectedPost : Outcome PyExc (Option (Sock .control)) → State → Observed W → Prop
  | .ok c => fun st t => Settled st t ∧ c = st.conn ∧ c ≠ none
  | .error _ => Settled
  | .spun => fun _ _ => True

variable (hos : OSErrors h) {fuel : Nat}

include hos

/-- A failed login leaves no connection behind. -/
theorem wp_loginFailed_observed {s : Sock .control} {e : PyExc} (ht : Refused s e st t) :
    wp (observing b h) (loginFailed Sync.FTPBlob.dialect e)
      (fun o st t => (∀ u, o ≠ .ok u) ∧ Settled st t) st t := by
  cases e with
  | blobError msg =>
      unfold loginFailed dropHeld
      dsimp only
      rw [bind_eq, wp_bind, bind_eq, wp_bind, wp_read, bindPost_ok, ht.held]
      show wp (observing b h) (Sync.FTPBlob.closeSock s) _ st t
      rw [wp_closeSock_observed hos, bindPost_ok, bind_eq, wp_bind, wp_setConn]
      exact ⟨nofun, settled_of_none rfl ht.sound⟩
  | _ => exact ht.error.elim

theorem wp_connection_settled (depth : Nat) (ht : Settled st t) :
    wp (observing b h) (connection Sync.FTPBlob.dialect b fuel depth) connectedPost st t := by
  cases depth with
  | zero => trivial
  | succ depth =>
      unfold connection
      rw [bind_eq, wp_bind, wp_read, bindPost_ok, bind_eq, wp_bind]
      unfold connectAndLogin
      split
      · next s hst =>
          have hne : st.conn ≠ none := by simp [hst]
          exact ⟨ht, rfl, hne⟩
      · next hst =>
          rw [bind_eq, wp_bind]
          apply wp_mono (wp_attempts_observed _ _ hst ht.sound)
          rintro (s | e | _) st' t' ⟨hst', hsound, hs⟩
          -- the connection is held during the login, and dropped when that fails
          · rw [bindPost_ok, bind_eq, wp_bind, wp_setConn, bindPost_ok, wp_tryCatch]
            have hjoin : Joining s { st' with conn := some s } t' :=
              ⟨rfl, (hs s rfl).1, (hs s rfl).2, hsound⟩
            apply wp_mono (wp_login_joining hos (joins_connection fuel depth) hjoin)
            rintro (⟨⟩ | e | _) st'' t'' ho
            · obtain ⟨-, hjoined, hready⟩ := ho
              refine ⟨?_, rfl, ?_⟩
              · exact
                  { alive := fun s' hs' => by
                      obtain rfl := Option.some.inj (hjoined.held.symm.trans hs')
                      exact hjoined.alive
                    ready := fun _ => hready
                    sound := hjoined.sound
                    open' := fun _ => hjoined.open' }
              · rw [hjoined.held]
                simp
            · rw [catchPost_error]
              apply wp_mono (wp_loginFailed_observed hos ho)
              rintro (⟨⟩ | e | _) st₃ t₃ ⟨hne, hsettled⟩
              · exact absurd rfl (hne ())
              · exact hsettled
              · trivial
            · trivial
          · exact settled_of_none hst' hsound
          · trivial

end Connecting

/-! ## Operations -/

section Operations

variable (hos : OSErrors h) {fuel depth : Nat}

include hos

theorem keepsSettled_connection :
    KeepsSettled b h (connection Sync.FTPBlob.dialect b fuel depth) := by
  intro st t ht
  apply wp_mono (wp_connection_settled hos depth ht)
  rintro (c | e | _) st' t' ho
  · exact .inr ho.1
  · exact .inr ho
  · exact .inr trivial

omit hos in
/-- A command that is asked on the socket that is held is not astray. -/
theorem Settled.asked (ht : Settled st t) {s : Sock .control} (hs : st.conn = some s) (c : Str) :
    Recovered st (observing b h t (.asked s c)).2 where
  alive := ht.alive
  ready := ht.ready
  sound := by
    have hdead : t.dead.contains s = false := by simpa using ht.alive s hs
    have hready : t.loggingIn = false := ht.ready (by simp [hs])
    show (t.astray || (!isLoginCmd b c && (t.loggingIn || t.dead.contains s))) = false
    rw [ht.sound, hready, hdead]
    simp

/-- A command is sent on the socket that `connection` returned. -/
theorem keepsSettled_sendCmd {c : Str} (hc : c ≠ quitCmd) :
    KeepsSettled b h
      (sendCmd Sync.FTPBlob.dialect (connection Sync.FTPBlob.dialect b fuel depth) c) := by
  have hP := keepsSettled_compositional b h
  apply hP.tryCatch
  · intro st t ht
    rw [bind_eq, wp_bind]
    apply wp_mono (wp_connection_settled hos depth ht)
    rintro (s | e | _) st' t' ho
    · obtain ⟨ht', hs, hne⟩ := ho
      cases s with
      | none => exact absurd rfl hne
      | some s =>
          rw [bindPost_ok]
          dsimp only
          rw [bind_eq, wp_bind, wp_asked, bindPost_ok]
          have hasked : Settled st' (observing b h t' (.asked s c)).2 :=
            { ht'.asked hs.symm c with
              open' := fun hne => by
                show (t'.quitting || decide (c = quitCmd)) = false
                simp [ht'.open' hne, hc] }
          exact keepsSettled_call (fun _ _ ht => ht.sent _ _)
            (raiseOnError_of (keepsSettled_sockets b h)) st' _ hasked
    · exact .inr ho
    · exact .inr trivial
  · intro e
    unfold sendFailed
    split
    · split <;> exact hP.raise _
    · exact hP.raise _

theorem keepsSettled_reads :
    Reads (KeepsSettled b h) Sync.FTPBlob.dialect
      (connection Sync.FTPBlob.dialect b fuel depth) where
  toCompositional := keepsSettled_compositional b h
  connection := keepsSettled_connection hos
  read := keepsSettled_read
  setBuffer _ := keepsSettled_modify fun _ => rfl
  appendBuffer _ := keepsSettled_modify fun _ => rfl
  recv s := recv_of (keepsSettled_sockets b h) .sync s

theorem keepsSettled_cmd {c : Str} (hc : c ≠ quitCmd) :
    KeepsSettled b h
      (cmd Sync.FTPBlob.dialect fuel (connection Sync.FTPBlob.dialect b fuel depth) c) := by
  have hP := keepsSettled_compositional b h
  apply hP.bind (keepsSettled_sendCmd hos hc)
  intro _
  apply hP.bind (readResponse_of (keepsSettled_reads hos))
  intro r
  refine hP.bind (keepsSettled_call (fun st t ht => ?_) hP.pure) fun _ => hP.pure r
  apply settled_observing
  intro _
  right
  exact
    { ht with
      ready := fun hne => by
        show (t.loggingIn && !(decide (c = typeCmd) && decide (r.1 = ok))) = false
        rw [ht.ready hne]
        rfl }

theorem keepsSettled_methods :
    Methods (KeepsSettled b h) Sync.FTPBlob.dialect fuel
      (connection Sync.FTPBlob.dialect b fuel depth) (· ≠ quitCmd) := by
  have hsockets := keepsSettled_sockets b h
  have htransfers : Transfers (KeepsSettled b h) Sync.FTPBlob.dialect fuel
      (connection Sync.FTPBlob.dialect b fuel depth) (· ≠ quitCmd) :=
    { toCompositional := keepsSettled_compositional b h
      cmd := fun _ hc => keepsSettled_cmd hos hc
      expect := fun code => expect_of (keepsSettled_reads hos) code
      connectData := fun _ _ _ =>
        keepsSettled_call (fun _ _ ht => settled_observing fun _ => .inr ht)
          (keepsSettled_compositional b h).pure
      recvData := fun s => recv_of hsockets .sync s
      sendData := fun s x => sendData_of hsockets .sync s x
      closeData := fun s => closeData_of hsockets .sync s }
  apply methods_of htransfers (keepsSettled_connection hos)
  intro hfeat
  apply features_of (keepsSettled_compositional b h) keepsSettled_read (keepsSettled_cmd hos hfeat)
  exact fun f => keepsSettled_modify fun _ => rfl

omit hos in
/-- Only `close` sends `QUIT`. -/
theorem Meant.ne_quitCmd {c : Call} {x : Str} (hx : Meant c x) (hc : c ≠ .close) :
    x ≠ quitCmd := by
  have hpasv : pasvCmdText ≠ quitCmd := by decide
  have hscan : ∀ {pre : Str}, ScanCmd pre x → x ≠ quitCmd := by
    intro pre hx
    cases hx with
    | feat => decide
    | pasv => exact hpasv
    | mlsd _ => exact listCmd_ne_of_head (by decide) _
    | list _ => exact listCmd_ne_of_head (by decide) _
  cases hx with
  | mkd _ => exact append_ne_of_head (by decide) _
  | storPasv => exact hpasv
  | stor => exact append_ne_of_head (by decide) _
  | retrPasv => exact hpasv
  | retr => exact append_ne_of_head (by decide) _
  | dele => exact append_ne_of_head (by decide) _
  | feat => decide
  | size => exact append_ne_of_head (by decide) _
  | mlst => exact append_ne_of_head (by decide) _
  | fallback hx => exact hscan hx
  | scan hx => exact hscan hx
  | quit => exact absurd rfl hc

end Operations

/-! ## Closing -/

/-- No command went astray. -/
def Sound (_ : State) (t : Observed W) : Prop := t.astray = false

abbrev KeepsSound (b : FTPBlob) (h : Handler ftp W) {α : Type} (p : FtpProg α) : Prop :=
  Preserves (observing b h) Sound p

section Closing

variable {fuel depth : Nat}

/-- Only a command can go astray, and those of a login do not. -/
theorem sound_of_call {o : FtpOp} (ho : ∀ s c, o = .asked s c → isLoginCmd b c = true)
    (ht : t.astray = false) : (observing b h t o).2.astray = false := by
  show (t.after b o (h t.env o).1).astray = false
  unfold Observed.after
  split
  · exact ht
  · exact ht
  · exact ht
  · exact ht
  · next s c =>
      show (t.astray || (!isLoginCmd b c && _)) = false
      rw [ht, ho s c rfl]
      rfl
  · exact ht
  · exact ht

theorem keepsSound_sockets (b : FTPBlob) (h : Handler ftp W) : Sockets (KeepsSound b h) where
  toCompositional := preserves_compositional _ _
  call _ _ ho hk := by
    apply preserves_call _ hk
    refine fun _ _ ht => sound_of_call (fun s c hasked => ?_) ht
    subst hasked
    exact ho.elim

theorem keepsSound_send (s : Sock .control) (x : Bytes) :
    KeepsSound b h (Sync.FTPBlob.dialect.send s x) :=
  preserves_call (fun _ _ ht => sound_of_call nofun ht) (raiseOnError_of (keepsSound_sockets b h))

/-- The commands of a login never go astray. -/
theorem keepsSound_commands {conn : FtpProg (Option (Sock .control))}
    (hconn : KeepsSound b h conn) :
    Commands (KeepsSound b h) Sync.FTPBlob.dialect conn (LoginCmd b) where
  toCompositional := preserves_compositional _ _
  connection := hconn
  read := preserves_read
  setBuffer _ := preserves_modify fun _ _ ht => ht
  appendBuffer _ := preserves_modify fun _ _ ht => ht
  recv s := recv_of (keepsSound_sockets b h) .sync s
  transmit := by
    intro s c hc
    have hlogin : isLoginCmd b c = true := by
      cases hc <;> simp [isLoginCmd]
    apply preserves_bind
    · refine preserves_perform fun _ _ ht => sound_of_call (fun s' c' heq => ?_) ht
      obtain ⟨-, rfl⟩ := FtpOp.asked.inj heq
      exact hlogin
    · exact fun _ => keepsSound_send s _
  answered _ _ _ := preserves_perform fun _ _ ht => sound_of_call (by simp) ht

theorem keepsSound_connection :
    KeepsSound b h (connection Sync.FTPBlob.dialect b fuel depth) :=
  connection_of (preserves_compositional _ _) (fun _ hconn => keepsSound_commands hconn)
    (fun _ hc => hc) (preserves_perform fun _ _ ht => sound_of_call (by simp) ht)
    (fun _ => preserves_modify fun _ _ ht => ht)
    (dropConn_of (keepsSound_sockets b h) .sync) depth

variable (hos : OSErrors h)

include hos

/-- `QUIT` is sent on the socket that is held. -/
theorem wp_quit_settled (ht : Settled st t) :
    wp (observing b h)
      (cmd Sync.FTPBlob.dialect fuel (connection Sync.FTPBlob.dialect b fuel depth) quitCmd)
      (fun _ => Sound) st t := by
  have hsockets := keepsSound_sockets b h
  have hcommands : Commands (KeepsSound b h) Sync.FTPBlob.dialect
      (connection Sync.FTPBlob.dialect b fuel depth) (LoginCmd b) :=
    keepsSound_commands keepsSound_connection
  have hsent : wp (observing b h)
      (sendCmd Sync.FTPBlob.dialect (connection Sync.FTPBlob.dialect b fuel depth) quitCmd)
      (fun _ => Sound) st t := by
    apply wp_tryCatch_keeps
    · rw [bind_eq, wp_bind]
      apply wp_mono (wp_and (wp_connection_settled hos depth ht)
        (keepsSound_connection st t ht.sound))
      rintro (s | e | _) st' t' ⟨ho, hsound⟩
      · obtain ⟨ht', hs, hne⟩ := ho
        cases s with
        | none => exact absurd rfl hne
        | some s =>
            rw [bindPost_ok]
            dsimp only
            rw [bind_eq, wp_bind, wp_asked, bindPost_ok]
            exact keepsSound_send s _ st' _ (ht'.asked hs.symm quitCmd).sound
      · exact hsound
      · exact hsound
    · intro e
      unfold sendFailed
      split
      · split <;> exact preserves_raise _
      · exact preserves_raise _
  apply wp_bind_keeps hsent
  intro _
  apply preserves_bind (readResponse_of hcommands.toReads)
  exact fun r => preserves_bind (hcommands.answered _ _ _) fun _ => preserves_pure r

/-- `close` leaves no connection behind. -/
theorem wp_close_settled (ht : Settled st t) :
    wp (observing b h) (Flavour.sync.close fuel (connection Sync.FTPBlob.dialect b fuel depth))
      (orFailed (fun t => t.lost = true) (afterwards Settled fun _ => True)) st t := by
  have hsockets := keepsSound_sockets b h
  have hheld : wp (observing b h)
      (Sync.FTPBlob.closeHeld fuel (connection Sync.FTPBlob.dialect b fuel depth))
      (fun _ => Sound) st t := by
    unfold Sync.FTPBlob.closeHeld
    rw [bind_eq, wp_bind, wp_read, bindPost_ok]
    split
    · exact ht.sound
    · apply wp_bind_keeps
      · apply wp_tryCatch_keeps
        · apply wp_bind_keeps (wp_quit_settled hos ht)
          exact fun _ => preserves_pure ()
        · intro e
          split
          · exact preserves_pure ()
          · exact preserves_raise _
      · intro _
        apply preserves_bind preserves_read
        intro st
        split
        · exact closeSock_of hsockets _
        · exact preserves_raise _
  show wp _ ((Sync.FTPBlob.closeHeld _ _).tryFinally (setConn none)) _ _ _
  rw [wp_tryFinally]
  apply wp_mono hheld
  rintro (⟨⟩ | e | _) st' t' ho
  · rw [finallyPost_ok, wp_bind, wp_setConn]
    exact .inr (settled_of_none rfl ho)
  · rw [finallyPost_error, wp_bind, wp_setConn]
    exact .inr (settled_of_none rfl ho)
  · exact .inr trivial

end Closing

/-! ## Runs -/

theorem keepsSettled_perform (hos : OSErrors h) {fuel : Nat} (c : Call) :
    KeepsSettled b h ((Flavour.sync.backend b fuel).perform c) := by
  by_cases hc : c = .close
  · subst hc
    intro st t ht
    exact (keepsSettled_compositional b h).bind (fun st t ht => wp_close_settled hos ht)
      (fun _ => (keepsSettled_compositional b h).pure Value.none) st t ht
  · exact perform_of (keepsSettled_methods hos) (fun heq => absurd heq hc)
      fun x hx => hx.ne_quitCmd hc

/-- In a run of the sync class in which no connection is lost after its login, except to `QUIT`, no
dead connection is held between two operations, and no operation uses one. -/
theorem recovered (hos : OSErrors h) (b : FTPBlob) (fuel : Nat) {st : State} {t : Observed W}
    (hrun : Reachable (observing b h) (Flavour.sync.backend b fuel).perform
      (fun st t => st = b.start ∧ ∃ w, t = .start w) st t)
    (hlost : t.lost = false) : Recovered st t := by
  have hsettled : t.lost = true ∨ Settled st t := by
    apply hrun.invariant
    · rintro st t ⟨rfl, w, rfl⟩
      exact .inr (settled_of_none rfl rfl)
    · rintro c st t (hl | ht)
      · exact wp_mono (preserves_of_stable (J := fun t => t.lost = true) lost_stable _ st t hl)
          fun _ _ _ hl _ => .inl hl
      · apply wp_mono (keepsSettled_perform hos c st t ht)
        rintro (a | e | _) st' t' ho hne
        · exact ho
        · exact ho
        · exact absurd rfl hne
  rcases hsettled with hl | hs
  · exact absurd hl (by simp [hlost])
  · exact hs.toRecovered

/-- The sync object of the default user, with a scripted server. -/
abbrev ScriptedRun (st : State) (t : Observed (List Bytes)) : Prop :=
  Reachable (observing anonymous scripted) (Flavour.sync.backend anonymous 2).perform
    (fun st t => st = anonymous.start ∧ ∃ w, t = .start w) st t

/-- A server that refuses the user: no connection is held after `open`. -/
theorem recovered_refused :
    Recovered (((Flavour.sync.backend anonymous 2).perform .open').run
        (observing anonymous scripted) anonymous.start
        (.start [line "220 ." ++ crlf, line "530 ." ++ crlf])).2.1
      (((Flavour.sync.backend anonymous 2).perform .open').run
        (observing anonymous scripted) anonymous.start
        (.start [line "220 ." ++ crlf, line "530 ." ++ crlf])).2.2 := by
  have hstart : ScriptedRun anonymous.start (.start [line "220 ." ++ crlf, line "530 ." ++ crlf]) :=
    .init ⟨rfl, _, rfl⟩
  exact recovered osErrors_scripted anonymous 2 (hstart.step Call.open' (by decide)) (by decide)

/-- After a call that ended with the outcome `o`. -/
theorem ScriptedRun.call {st st' : State} {t t' : Observed (List Bytes)} {o : Outcome PyExc Value}
    (hr : ScriptedRun st t) (c : Call)
    (hrun : ((Flavour.sync.backend anonymous 2).perform c).run (observing anonymous scripted) st t =
      (o, st', t')) (ho : o ≠ .spun) : ScriptedRun st' t' := by
  have hstep := hr.step c (by rw [hrun]; exact ho)
  rwa [hrun] at hstep

/-- A server that closes the connection after the login: the dead socket is held after the first
operation, and the second one is attempted on it. -/
theorem not_recovered_idle :
    (∃ st t, ScriptedRun st t ∧ st.conn = some ⟨0⟩ ∧ ⟨0⟩ ∈ t.dead ∧ t.astray = false) ∧
      ∃ st t, ScriptedRun st t ∧ st.conn = some ⟨0⟩ ∧ t.astray = true := by
  have hstart : ScriptedRun anonymous.start (.start (loginScript anonymous)) := .init ⟨rfl, _, rfl⟩
  have hopened : ScriptedRun loggedIn (.start []) := hstart.call Call.open' rfl (by simp)
  have hfirst : ScriptedRun loggedIn ⟨[], [⟨0⟩], false, false, true, false⟩ :=
    hopened.call (.delete ['a']) rfl (by simp)
  have hsecond : ScriptedRun loggedIn ⟨[], [⟨0⟩, ⟨0⟩], false, false, true, true⟩ :=
    hfirst.call (.delete ['a']) rfl (by simp)
  exact ⟨⟨_, _, hfirst, rfl, List.mem_cons_self, rfl⟩, ⟨_, _, hsecond, rfl, rfl⟩⟩

end GufoBlob.FTPBlob
