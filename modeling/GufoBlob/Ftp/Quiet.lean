import GufoBlob.Ftp.Pairing

/-!
# Between two commands

`Quiet` holds when no reply is outstanding and the buffer is empty. Every method of the sync class
keeps it, whether it returns or raises, unless a receive times out: `keepsQuiet_methods`.

Inside a transfer the final reply is owed (`Owes`), and once the data connection has ended it is
there (`Due`).
-/

namespace GufoBlob.Ftp

open Text Interaction Program FTPBlob

variable {S N : Type} {P : Peer S} {net : N → Option Nat × N}

/-- No reply is outstanding, the buffer is empty, and a connection that is held is logged in. -/
structure Quiet (st : State) (t : Session S N) : Prop where
  buffer : st.responseBuffer = []
  wire : t.wire = []
  pending : t.pending = false
  lines : ∃ ls : List Bytes, (∀ l ∈ ls, ¬ HasCrlf l) ∧ t.delivered = ls.flatMap frame
  loggedIn : st.conn ≠ none → t.loggingIn = false
  sound : t.toBook.Sound

section Quiet

variable {s : Sock .control} {k : Book S} {st : State} {t : Session S N}

theorem Quiet.reading (ht : Quiet st t) (hst : st.conn = some s) : Reading s t.toBook [] st t where
  held := hst
  book := rfl
  unread := by rw [ht.buffer, ht.wire]; rfl
  lines := by
    obtain ⟨ls, hls, hdelivered⟩ := ht.lines
    exact ⟨ls, hls, by rw [hdelivered, ht.buffer, List.append_nil]⟩
  sound := ht.sound

theorem Reading.lines_nil {rest : Bytes} (ht : Reading s k rest st t)
    (hbuf : st.responseBuffer = []) :
    ∃ ls : List Bytes, (∀ l ∈ ls, ¬ HasCrlf l) ∧ t.delivered = ls.flatMap frame := by
  obtain ⟨ls, hls, hdelivered⟩ := ht.lines
  exact ⟨ls, hls, by rw [hdelivered, hbuf, List.append_nil]⟩

theorem Reading.quiet (ht : Reading s k [] st t) (hpending : k.pending = false)
    (hlogin : k.loggingIn = false) : Quiet st t where
  buffer := (List.append_eq_nil_iff.mp ht.unread).1
  wire := (List.append_eq_nil_iff.mp ht.unread).2
  pending := by rw [← hpending, ← ht.book]
  lines := ht.lines_nil (List.append_eq_nil_iff.mp ht.unread).1
  loggedIn _ := by rw [← hlogin, ← ht.book]
  sound := ht.book ▸ ht.sound

end Quiet

/-! ## Logging in -/

/-- The connection `s` is being logged in, and no reply is outstanding. -/
structure Entering (s : Sock .control) (st : State) (t : Session S N) : Prop where
  reading : Reading s t.toBook [] st t
  pending : t.pending = false
  loggingIn : t.loggingIn = true

/-- The login on `s` has raised `BlobError`, and the buffer is empty. -/
structure Rejected (s : Sock .control) (e : PyExc) (st : State) (t : Session S N) : Prop where
  error : IsBlobError e
  held : st.conn = some s
  buffer : st.responseBuffer = []
  sound : t.toBook.Sound

section Login

variable {s : Sock .control} {k : Book S} {st : State} {t : Session S N}

theorem Reading.entering (ht : Reading s k [] st t) (hpending : k.pending = false)
    (hlogin : k.loggingIn = true) : Entering s st t where
  reading := ht.book ▸ ht
  pending := by rw [← hpending, ← ht.book]
  loggingIn := by rw [← hlogin, ← ht.book]

theorem Interrupted.rejected {e : PyExc} (he : Interrupted P net s k e st t) : Rejected s e st t :=
  ⟨he.error, he.held, he.buffer, he.sound⟩

theorem Reading.rejected {e : PyExc} (ht : Reading s k [] st t) (he : IsBlobError e) :
    Rejected s e st t :=
  ⟨he, ht.held, (List.append_eq_nil_iff.mp ht.unread).1, ht.book ▸ ht.sound⟩

/-- What a step of the login leaves. -/
def enteringPost {α : Type} (s : Sock .control) : Outcome PyExc α → State → Session S N → Prop
  | .ok _ => Entering s
  | .error e => Rejected s e
  | .spun => fun _ t => t.toBook.Sound

/-- A step of the login. -/
def Enters (P : Peer S) (net : N → Option Nat × N) (s : Sock .control) {α : Type}
    (p : FtpProg α) : Prop :=
  ∀ st t, Entering s st t → wp (session P net) p (orFailed (Failed P net) (enteringPost s)) st t

variable {b : FTPBlob}

theorem enters_pure {α : Type} (a : α) : Enters P net s (.pure a) := fun _ _ ht => .inr ht

theorem enters_raise {α : Type} (msg : String) :
    Enters P net s (.raise (.blobError msg) : FtpProg α) :=
  fun _ _ ht => .inr (ht.reading.rejected trivial)

theorem enters_bind {α β : Type} {p : FtpProg α} {f : α → FtpProg β} (hp : Enters P net s p)
    (hf : ∀ a, Enters P net s (f a)) : Enters P net s (p.bind f) := by
  intro st t ht
  apply wp_bind_unless failed_stable (hp st t ht)
  · exact fun a st' t' ht' => hf a st' t' ht'
  · exact fun _ _ _ he => he
  · exact fun _ _ hspun => hspun

/-- The commands of a login start no transfer. -/
theorem not_transfer_of_loginCmd {c : Str} (hc : LoginCmd b c) : isTransfer (encode c) = false := by
  cases hc <;> rfl

variable {fuel : Nat} {conn : FtpProg (Option (Sock .control))}
  (hconn : Holds (session P net) conn s) (hb : LoginPlain b)

include hconn hb

theorem enters_cmd {c : Str} (hc : LoginCmd b c) (hne : c ≠ typeCmd) :
    Enters P net s (cmd Sync.FTPBlob.dialect fuel conn c) := by
  intro st t ht
  obtain ⟨hafter, hpending⟩ :=
    receive_of_not_transfer P t.peer (not_transfer_of_loginCmd hc)
  apply wp_mono (wp_cmd_session hconn .sync (hb.cmd hc) ht.pending ht.reading)
  rintro (a | e | _) st' t' (hfailed | ho)
  · exact .inl hfailed
  · right
    obtain ⟨-, ht'⟩ := ho
    rw [hafter] at ht'
    apply ht'.entering
    · show (t.pending || _) = false
      rw [ht.pending, hpending]
      rfl
    · show (t.loggingIn && !(decide (c = typeCmd) && _)) = true
      simp [ht.loggingIn, hne]
  · exact .inl hfailed
  · exact .inr ho.rejected
  · exact .inl hfailed
  · exact .inr ho.2

theorem enters_authenticate : Enters P net s (authenticate Sync.FTPBlob.dialect fuel conn b) := by
  apply enters_bind (enters_cmd hconn hb .user (append_ne_of_head (by decide) _))
  intro r
  dsimp only
  split
  · apply enters_bind (enters_cmd hconn hb .pass (append_ne_of_head (by decide) _))
    exact fun _ => enters_pure _
  · exact enters_pure _

theorem enters_enterRoot : Enters P net s (enterRoot Sync.FTPBlob.dialect fuel conn b) := by
  unfold enterRoot
  split
  · exact enters_pure _
  · next hroot =>
      have hcwd : LoginCmd b b.cwdCmd := .cwd (by simpa using hroot)
      apply enters_bind (enters_cmd hconn hb hcwd (append_ne_of_head (by decide) _))
      intro r
      dsimp only
      split
      · exact enters_raise _
      · exact enters_pure _

/-- The connection `s` is logged in, or `BlobError` was raised. -/
def enteredPost (s : Sock .control) : Outcome PyExc Unit → State → Session S N → Prop
  | .ok _ => fun st t => st.conn = some s ∧ Quiet st t
  | .error e => Rejected s e
  | .spun => fun _ t => t.toBook.Sound

/-- The last command of a login. -/
theorem wp_typeCmd_session (msg : String) (ht : Entering s st t) :
    wp (session P net) (cmdExpect Sync.FTPBlob.dialect fuel conn typeCmd ok msg)
      (orFailed (Failed P net) (enteredPost s)) st t := by
  have hcmd : wp (session P net) (cmd Sync.FTPBlob.dialect fuel conn typeCmd)
      (orFailed (Failed P net) (cmdPost P net s t.toBook fuel typeCmd)) st t :=
    wp_cmd_session hconn .sync (hb.cmd .type) ht.pending ht.reading
  obtain ⟨hafter, hpending⟩ :=
    receive_of_not_transfer P t.peer (not_transfer_of_loginCmd (.type (b := b)))
  unfold cmdExpect
  apply wp_bind_unless failed_stable hcmd
  · rintro r st' t' ⟨rfl, ht'⟩
    rw [hafter] at ht'
    dsimp only
    split
    · exact .inr (ht'.rejected trivial)
    · next hcode =>
        right
        refine ⟨ht'.held, ht'.quiet ?_ ?_⟩
        · show (t.pending || _) = false
          rw [ht.pending, hpending]
          rfl
        · show (t.loggingIn && !(decide (typeCmd = typeCmd) && decide (_ = ok))) = false
          rw [not_not.mp hcode]
          simp
  · exact fun _ _ _ he => he.rejected
  · exact fun _ _ hspun => hspun.2

/-- A login, from the greeting on. -/
theorem wp_login_session (r : Reply) (hk : k.pending = false) (hlogin : k.loggingIn = true)
    (ht : Reading s k r.bytes st t) :
    wp (session P net) (login Sync.FTPBlob.dialect fuel conn b)
      (orFailed (Failed P net) (enteredPost s)) st t := by
  rw [← List.append_nil r.bytes] at ht
  unfold login
  apply wp_bind_unless failed_stable (wp_expect_session hconn .sync r ready ht)
  · rintro ⟨⟩ st₁ t₁ ⟨-, ht₁⟩
    apply wp_bind_unless failed_stable
      (enters_authenticate hconn hb st₁ t₁ (ht₁.entering hk hlogin))
    · intro code st₂ t₂ ht₂
      split
      · exact .inr (ht₂.reading.rejected trivial)
      · apply wp_bind_unless failed_stable (enters_enterRoot hconn hb st₂ t₂ ht₂)
        · exact fun _ st₃ t₃ ht₃ => wp_typeCmd_session hconn hb _ ht₃
        · exact fun _ _ _ he => he
        · exact fun _ _ hspun => hspun
    · exact fun _ _ _ he => he
    · exact fun _ _ hspun => hspun
  · rintro e st' t' (he | ⟨-, he, ht'⟩)
    · exact he.rejected
    · exact ht'.rejected he
  · exact fun _ _ hspun => hspun.2

end Login

/-! ## Connecting -/

section Connecting

variable {s : Sock .control} {st : State} {t : Session S N} {b : FTPBlob} (hos : OSErrors P.other)

/-- After `_connect`: a connection that was opened begins with a greeting. -/
def openedPost : Outcome PyExc (Sock .control) → State → Session S N → Prop
  | .ok s => fun st t => st.responseBuffer = [] ∧ t.pending = false ∧ t.loggingIn = true ∧
      ∃ r : Reply, Reading s t.toBook r.bytes { st with conn := some s } t
  | .error _ => Quiet
  | .spun => fun _ _ => False

theorem Quiet.opened (ht : Quiet st t) (s : Sock .control) (p : S) :
    Reading s (t.opened P p).toBook (P.greet p).1.bytes { st with conn := some s }
      (t.opened P p) where
  held := rfl
  book := rfl
  unread := by
    show st.responseBuffer ++ _ = _
    rw [ht.buffer]
    rfl
  lines := by
    refine ⟨[], by simp, ?_⟩
    show [] = [] ++ st.responseBuffer
    rw [ht.buffer]
    rfl
  sound := ⟨ht.sound.matched, ht.sound.clear⟩

theorem wp_attempts_session (n : Nat) (lastError : String) (ht : Quiet st t) :
    wp (session P net) (b.attempts n lastError) openedPost st t := by
  induction n generalizing lastError t with
  | zero => exact ht
  | succ n ih =>
      unfold attempts
      rw [bind_eq, wp_bind, wp_connect_session]
      split
      · exact ⟨ht.buffer, rfl, rfl, _, ht.opened _ _⟩
      · next e _ =>
          have hquiet : Quiet st
              { t with peer := (P.other t.peer (.connect .control b.host b.port)).2 } :=
            { ht with sound := ⟨ht.sound.matched, ht.sound.clear⟩ }
          rw [bindPost_ok]
          cases e with
          | runtime e => exact hquiet
          | _ => exact ih _ hquiet

/-- A program that keeps `Quiet`, unless a receive times out, and reads the right replies even when
it never ends. -/
abbrev KeepsQuiet (P : Peer S) (net : N → Option Nat × N) {α : Type} (p : FtpProg α) : Prop :=
  KeepsUnless (session P net) (Failed P net) Quiet (fun t => t.toBook.Sound) p

theorem keepsQuiet_compositional (P : Peer S) (net : N → Option Nat × N) :
    Compositional (KeepsQuiet P net) :=
  keepsUnless_compositional failed_stable fun _ _ ht => ht.sound

/-- After `connection`: the socket that it returns is held. -/
def connectedPost : Outcome PyExc (Option (Sock .control)) → State → Session S N → Prop
  | .ok c => fun st t => Quiet st t ∧ c = st.conn ∧ c ≠ none
  | .error _ => Quiet
  | .spun => fun _ t => t.toBook.Sound

/-- A login that asks for a connection endlessly. -/
theorem wp_login_spin {d : Dialect} {fuel : Nat} (hbuf : st.responseBuffer = [])
    {Q : Outcome PyExc Unit → State → Session S N → Prop} (hQ : Q .spun st t) :
    wp (session P net) (login d fuel .spin b) Q st t := by
  have hcut : cutLine st.responseBuffer = none := by rw [hbuf]; rfl
  unfold login expect readResponse readLine
  cases fuel with
  | zero => exact hQ
  | succ n =>
      unfold readLineLoop
      simp only [bind_eq, bind_assoc']
      rw [wp_bind, wp_read, bindPost_ok, hcut]
      exact hQ

/-- The login in `connection`, at every depth. -/
theorem wp_login_nested (hb : LoginPlain b) (fuel depth : Nat) {k : Book S} {r : Reply}
    (hbuf : st.responseBuffer = []) (hpending : k.pending = false) (hlogin : k.loggingIn = true)
    (ht : Reading s k r.bytes { st with conn := some s } t) :
    wp (session P net)
      (login Sync.FTPBlob.dialect fuel (connection Sync.FTPBlob.dialect b fuel depth) b)
      (orFailed (Failed P net) (enteredPost s)) { st with conn := some s } t := by
  cases depth with
  | zero =>
      have hsound : t.toBook.Sound := ht.book ▸ ht.sound
      show wp (session P net) (login Sync.FTPBlob.dialect fuel .spin b)
        (orFailed (Failed P net) (enteredPost s)) { st with conn := some s } t
      apply wp_login_spin
      · exact hbuf
      · exact .inr hsound
  | succ depth =>
      exact wp_login_session (connection_holds _ _ _ _ _) hb r hpending hlogin ht

include hos

/-- Closing the control connection loses what is on the wire. -/
theorem wp_dropConn_session (Q : Outcome PyExc Unit → State → Session S N → Prop) :
    wp (session P net) (Sync.FTPBlob.dialect.dropConn s) Q st t ↔
      Q (.ok ()) st (t.hungUp (P.other t.peer (.close s)).2) := by
  show wp (session P net) (suppressOSError (.call (.close s) raiseOnError)) Q st t ↔ _
  unfold suppressOSError
  rw [wp_tryCatch, wp_call, wp_raiseOnError]
  unfold session
  dsimp only
  have hraisable := hos.close t.peer .control s
  generalize (P.other t.peer (.close s)).1 = r at hraisable ⊢
  cases r with
  | ok u => rfl
  | error e =>
      cases e with
      | runtime e => exact absurd rfl (hraisable e)
      | _ => rfl

/-- A failed login leaves no connection behind. -/
theorem wp_loginFailed_session {e : PyExc} (ht : Rejected s e st t) :
    wp (session P net) (loginFailed Sync.FTPBlob.dialect e)
      (fun o st t => (∀ u, o ≠ .ok u) ∧ Quiet st t) st t := by
  cases e with
  | blobError msg =>
      unfold loginFailed dropHeld
      dsimp only
      rw [bind_eq, wp_bind, bind_eq, wp_bind, wp_read, bindPost_ok, ht.held]
      dsimp only
      rw [wp_dropConn_session hos, bindPost_ok, bind_eq, wp_bind, wp_setConn]
      refine ⟨nofun, ht.buffer, rfl, rfl, ⟨[], nofun, rfl⟩, nofun, ?_⟩
      exact ⟨ht.sound.matched, ht.sound.clear⟩
  | _ => exact ht.error.elim

theorem wp_connection_quiet (hb : LoginPlain b) (fuel depth : Nat) (ht : Quiet st t) :
    wp (session P net) (connection Sync.FTPBlob.dialect b fuel depth)
      (orFailed (Failed P net) connectedPost) st t := by
  cases depth with
  | zero => exact .inr ht.sound
  | succ depth =>
      unfold connection
      rw [bind_eq, wp_bind, wp_read, bindPost_ok, bind_eq, wp_bind]
      unfold connectAndLogin
      split
      · next s hst =>
          have hne : st.conn ≠ none := by simp [hst]
          exact .inr ⟨ht, rfl, hne⟩
      · next hst =>
          rw [bind_eq, wp_bind]
          apply wp_mono (wp_attempts_session _ _ ht)
          rintro (s | e | _) st₁ t₁ ho
          · obtain ⟨hbuf, hpending, hlogin, r, ht₁⟩ := ho
            rw [bindPost_ok, bind_eq, wp_bind, wp_setConn, bindPost_ok, wp_tryCatch]
            apply wp_mono (wp_login_nested hb fuel depth hbuf hpending hlogin ht₁)
            rintro (⟨⟩ | e | _) st₂ t₂ (hfailed | ho)
            · exact .inl hfailed
            · refine .inr ⟨ho.2, rfl, ?_⟩
              rw [ho.1]
              simp
            -- a server that failed stays one that failed
            · rw [catchPost_error]
              exact wp_mono (wp_unless_failed failed_stable hfailed (Q := fun _ _ _ => False))
                fun o _ _ h => by cases o <;> exact .inl (h.resolve_right id)
            · rw [catchPost_error]
              apply wp_mono (wp_loginFailed_session hos ho)
              rintro (⟨⟩ | e | _) st₃ t₃ ⟨hne, hquiet⟩
              · exact absurd rfl (hne ())
              · exact .inr hquiet
              · exact .inr hquiet.sound
            · exact .inl hfailed
            · exact .inr ho
          · exact .inr ho
          · exact ho.elim

end Connecting

end GufoBlob.Ftp
