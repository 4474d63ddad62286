import GufoBlob.Data.Transport
import GufoBlob.Ftp.Script

/-!
# Uploads of the asynchronous client

`aio.FTPBlob.put` writes the data, awaits `drain` and then shuts the raw socket down. `drain` returns
while octets are still waiting in the buffer of the transport, and these never get to the server.

* `put_complete_iff` — after a `put` that returned, the server has the data exactly when the buffer
  was empty at the time `drain` returned.
* `not_complete_put` — three octets and a socket that takes one of them.
-/

namespace GufoBlob.FTPBlob

open Text Interaction Program Ftp Data

/-! ## The data connection -/

/-- An environment with the transport of the data connection that was opened last. -/
structure Upload (E : Type) where
  env : E
  data : Transport UInt8

/-- The answers of `h`, but for what is done with the writer of a data connection. -/
def uploading {E : Type} (h : Handler ftp E) (mark : Nat) : Handler ftp (Upload E)
  | w, @FtpOp.write .data s x => ((), ⟨(h w.env (.write s x)).2, w.data.write x⟩)
  | w, @FtpOp.drain .data s =>
      (if (w.data.drain mark).1 then .ok () else .error (.timeout ""),
        ⟨(h w.env (.drain s)).2, (w.data.drain mark).2⟩)
  | w, @FtpOp.shutdown .data s => (.ok (), ⟨(h w.env (.shutdown s)).2, w.data.shutdown⟩)
  | w, @FtpOp.closeWriter .data s => ((), ⟨(h w.env (.closeWriter s)).2, w.data.close⟩)
  | w, .connect .data host port =>
      ((h w.env (.connect .data host port)).1,
        ⟨(h w.env (.connect .data host port)).2, .opened w.data.accepts⟩)
  | w, o => ((h w.env o).1, ⟨(h w.env o).2, w.data⟩)

/-- The call does nothing with the writer of a data connection. -/
def OffData : FtpOp → Prop
  | .connect .data _ _ => False
  | @FtpOp.write .data _ _ => False
  | @FtpOp.drain .data _ => False
  | @FtpOp.shutdown .data _ => False
  | @FtpOp.closeWriter .data _ => False
  | _ => True

variable {E : Type} {h : Handler ftp E} {mark : Nat} {τ : Transport UInt8} {b : FTPBlob} {fuel : Nat}

theorem uploading_offData {o : FtpOp} (ho : OffData o) (w : Upload E) :
    (uploading h mark w o).2.data = w.data := by
  unfold uploading
  split
  · exact ho.elim
  · exact ho.elim
  · exact ho.elim
  · exact ho.elim
  · exact ho.elim
  · rfl

/-- The program leaves the data connection as it is. -/
abbrev KeepsData (h : Handler ftp E) (mark : Nat) (τ : Transport UInt8) {α : Type} (p : FtpProg α) :
    Prop := Preserves (uploading h mark) (fun _ w => w.data = τ) p

theorem keepsData_call {α : Type} (o : FtpOp) (ho : OffData o) {k : ftp.Ans o → FtpProg α}
    (hk : ∀ r, KeepsData h mark τ (k r)) : KeepsData h mark τ (.call o k) :=
  preserves_call (fun _ w hw => (uploading_offData ho w).trans hw) hk

theorem keepsData_raiseOnError {α : Type} (r : Except IOErr α) : KeepsData h mark τ (raiseOnError r) := by
  cases r with
  | ok a => exact preserves_pure a
  | error e => exact preserves_raise _

/-! ## The control connection leaves it alone -/

theorem keepsData_commands {conn : FtpProg (Option (Sock .control))}
    (hconn : KeepsData h mark τ conn) :
    Commands (KeepsData h mark τ) Aio.FTPBlob.dialect conn fun _ => True where
  toCompositional := preserves_compositional _ _
  connection := hconn
  read := preserves_read
  setBuffer _ := preserves_modify fun _ _ hw => hw
  appendBuffer _ := preserves_modify fun _ _ hw => hw
  recv s := by
    apply preserves_bind (keepsData_call (.wait s) trivial keepsData_raiseOnError)
    exact fun _ => keepsData_call (.recv s) trivial keepsData_raiseOnError
  transmit s c _ := by
    apply keepsData_call (.asked s c) trivial
    intro _
    apply keepsData_call (.write s _) trivial
    exact fun _ => keepsData_call (.drain s) trivial keepsData_raiseOnError
  answered c code lines := keepsData_call (.answered c code lines) trivial preserves_pure

theorem keepsData_connection (depth : Nat) :
    KeepsData h mark τ (connection Aio.FTPBlob.dialect b fuel depth) := by
  apply connection_of (preserves_compositional _ _) (fun _ hconn => keepsData_commands hconn)
    fun _ _ => trivial
  · exact keepsData_call (.connect .control _ _) trivial preserves_pure
  · exact fun _ => preserves_modify fun _ _ hw => hw
  · intro s
    apply keepsData_call (.closeWriter s) trivial
    exact fun _ => keepsData_call (.waitClosed s) trivial keepsData_raiseOnError

/-- The end of the file is sent before the buffer is flushed. -/
theorem wp_closeData_stored (s : Sock .data) {st : State} {w : Upload E}
    (hw : w.data.stored = none) :
    wp (uploading h mark) (Aio.FTPBlob.dialect.closeData s)
      (fun _ _ w' => w'.data.stored = w.data.shutdown.stored) st w := by
  have hdone : w.data.shutdown.close.stored = w.data.shutdown.stored := by
    rw [Transport.close, Transport.shutdown, hw]
    rfl
  have hclose : ∀ w' : Upload E, w'.data = w.data.shutdown →
      wp (uploading h mark) (suppressOSError (Aio.FTPBlob.closeConn s))
        (fun _ _ w' => w'.data.stored = w.data.shutdown.stored) st w' := by
    intro w' hw'
    unfold suppressOSError Aio.FTPBlob.closeConn
    rw [wp_tryCatch, bind_eq, wp_bind, wp_call, wp_pure, bindPost_ok, wp_call, wp_raiseOnError]
    have hstored : w'.data.close.stored = w.data.shutdown.stored := by rw [hw', hdone]
    unfold raised
    split
    · exact hstored
    · next e _ => cases e <;> exact hstored
  show wp _ (Program.bind (suppressOSError _) fun _ => suppressOSError _) _ _ _
  rw [wp_bind]
  unfold suppressOSError
  rw [wp_tryCatch, wp_call, wp_raiseOnError]
  exact hclose _ rfl

section Put

variable {conn : FtpProg (Option (Sock .control))} {st : State} {w : Upload E}
  (hconn : ∀ τ, KeepsData h mark τ conn)

include hconn

theorem keepsData_cmd (τ : Transport UInt8) (c : Str) :
    KeepsData h mark τ (cmd Aio.FTPBlob.dialect fuel conn c) :=
  cmd_of (keepsData_commands (hconn τ)) trivial

theorem keepsData_expect (τ : Transport UInt8) (code : Int) :
    KeepsData h mark τ (expect Aio.FTPBlob.dialect fuel conn code) :=
  expect_of (keepsData_commands (hconn τ)).toReads code

theorem keepsData_ensureParentDirs (τ : Transport UInt8) (key : Str) :
    KeepsData h mark τ (ensureParentDirs Aio.FTPBlob.dialect fuel conn key) := by
  apply preserves_forEach
  intro dir _
  apply preserves_bind (keepsData_cmd hconn τ _)
  intro r
  dsimp only
  split
  · exact preserves_raise _
  · exact preserves_pure _

/-! ## One upload -/

/-- The data connection is new when it is returned. -/
theorem wp_getPassive_opened :
    wp (uploading h mark) (getPassive Aio.FTPBlob.dialect fuel conn)
      (fun o _ w' => ∀ s, o = .ok s → w'.data = .opened w.data.accepts) st w := by
  unfold getPassive
  rw [bind_eq, wp_bind]
  apply wp_mono (keepsData_cmd hconn w.data pasvCmdText st w rfl)
  intro o st' w' hw
  cases o with
  | error e => simp
  | spun => simp
  | ok r =>
      rw [bindPost_ok]
      dsimp only
      split
      · simp
      · rw [bind_eq, wp_bind, wp_ofExcept]
        cases parsePasv (r.2.getLastD []) with
        | error e => simp
        | ok addr =>
            rw [bindPost_ok, bind_eq, wp_bind, wp_connect, bindPost_ok]
            have hopened : (uploading h mark w' (.connect .data addr.1 addr.2)).2.data =
                .opened w.data.accepts := by
              rw [← hw]
              rfl
            cases (uploading h mark w' (.connect .data addr.1 addr.2)).1 with
            | ok s => exact fun _ _ => hopened
            | error e =>
                unfold dataConnectFailed
                cases e <;> simp

/-- The data is written and drained. -/
theorem wp_store_drained (s : Sock .data) (key : Str) (data : Bytes) :
    wp (uploading h mark) (store Aio.FTPBlob.dialect fuel conn s key data)
      (fun o _ w' => o = .ok () → (w.data.write data).drain mark = (true, w'.data)) st w := by
  have hfailed : ∀ (e : PyExc) (st : State) (w : Upload E),
      wp (uploading h mark) (dataFailed Aio.FTPBlob.dialect fuel conn e : FtpProg Unit)
        (fun o _ _ => ∀ u, o ≠ .ok u) st w := by
    intro e st w
    unfold dataFailed
    split
    · exact wp_bind_ne_ok fun _ _ _ => by simp
    · exact wp_bind_ne_ok fun _ _ _ => by simp
    · exact wp_bind_ne_ok fun _ _ _ => by simp
    · simp
  unfold store
  rw [bind_eq, wp_bind]
  apply wp_mono (keepsData_cmd hconn w.data (storCmd key) st w rfl)
  intro o st' w' hw
  cases o with
  | error e => simp
  | spun => simp
  | ok r =>
      rw [bindPost_ok]
      dsimp only
      split
      · simp
      · rw [wp_tryCatch]
        show wp _ (Program.bind _ _) _ _ _
        rw [wp_bind, wp_call, wp_pure, bindPost_ok, wp_call, wp_raiseOnError]
        show catchPost _ _ _ (raised (if ((w'.data.write data).drain mark).1 then .ok () else
          .error (.timeout ""))) _ _
        split
        · next htrue => exact fun _ => hw ▸ Prod.ext htrue rfl
        · rw [raised, catchPost_error]
          exact wp_mono (hfailed _ _ _) fun o _ _ hne heq => absurd heq (hne ())

theorem wp_put_stored (key : Str) (data : Bytes) :
    wp (uploading h mark) (put Aio.FTPBlob.dialect fuel conn key data)
      (fun o _ w' => o = .ok () → ∃ r, Transport.leftOf mark w.data.accepts data.length = some r ∧
        r ≤ data.length ∧ w'.data.stored = some (data.take (data.length - r))) st w := by
  unfold put
  rw [bind_eq, wp_bind]
  apply wp_mono (keepsData_ensureParentDirs hconn w.data key st w rfl)
  intro o st₁ w₁ hw₁
  cases o with
  | error e => simp
  | spun => simp
  | ok u =>
      rw [bindPost_ok, bind_eq, wp_bind]
      apply wp_mono (wp_getPassive_opened hconn)
      intro o st₂ w₂ hw₂
      cases o with
      | error e => simp
      | spun => simp
      | ok s =>
          have hopened : w₂.data = .opened w.data.accepts := hw₁ ▸ hw₂ s rfl
          rw [bindPost_ok, bind_eq, wp_bind, wp_tryFinally]
          apply wp_mono (wp_store_drained hconn s key data)
          intro o st₃ w₃ hw₃
          cases o with
          -- the `finally` of a store that failed never turns it into a return
          | error e =>
              have hraises : wp (uploading h mark) ((Aio.FTPBlob.dialect.closeData s).bind
                  fun _ => (.raise e : FtpProg Unit)) (fun o _ _ => ∀ u, o ≠ .ok u) st₃ w₃ :=
                wp_bind_ne_ok fun _ _ _ => by simp
              rw [finallyPost_error]
              apply wp_mono hraises
              intro o st₄ w₄ hne
              cases o with
              | ok u => exact absurd rfl (hne u)
              | error e => simp
              | spun => simp
          | spun => simp
          | ok u =>
              have hdrained := hw₃ rfl
              rw [hopened] at hdrained
              obtain ⟨r, hr, hle, hstored⟩ := Transport.stored_upload hdrained
              have hnone : w₃.data.stored = none := (Transport.drainWith_spec hdrained).2.1
              -- what is stored is there once the data connection is closed
              rw [finallyPost_ok, wp_bind]
              apply wp_mono (wp_closeData_stored s hnone)
              intro o st₄ w₄ hw₄
              cases o with
              | error e => simp
              | spun => simp
              | ok u =>
                  rw [bindPost_ok, wp_pure, bindPost_ok]
                  apply wp_mono (keepsData_expect hconn w₄.data transferDone st₄ w₄ rfl)
                  intro o st₅ w₅ hw₅ _
                  exact ⟨r, hr, hle, by rw [hw₅, hw₄, hstored]⟩

end Put

/-! ## Complete uploads -/

/-- **An upload is complete exactly when nothing was left behind**: after a `put` that returned, in
any state and whatever the server answers, the server has stored the data exactly when the buffer
was empty at the moment `drain` returned. -/
theorem put_complete_iff {st : State} {w : Upload E} {key : Str} {data : Bytes} {st' : State}
    {w' : Upload E}
    (hput : ((Flavour.aio.backend b fuel).put key data).run (uploading h mark) st w =
      (.ok (), st', w')) :
    w'.data.stored = some data ↔ Transport.leftOf mark w.data.accepts data.length = some 0 := by
  have hconn : ∀ τ, KeepsData h mark τ (connection Aio.FTPBlob.dialect b fuel fuel) :=
    fun τ => keepsData_connection fuel
  have hspec : wp (uploading h mark) (put Aio.FTPBlob.dialect fuel
    (connection Aio.FTPBlob.dialect b fuel fuel) key data) _ st w := wp_put_stored hconn key data
  have hrun : (put Aio.FTPBlob.dialect fuel (connection Aio.FTPBlob.dialect b fuel fuel) key data).run
    (uploading h mark) st w = (.ok (), st', w') := hput
  unfold wp at hspec
  rw [hrun] at hspec
  obtain ⟨r, hr, hle, hstored⟩ := hspec rfl
  rw [hstored, hr, Option.some.injEq, Option.some.injEq]
  constructor
  · intro htake
    have hlen := congrArg List.length htake
    rw [List.length_take] at hlen
    omega
  · rintro rfl
    rw [Nat.sub_zero, List.take_length]

/-- The replies to a login and to an upload. -/
def uploadScript : List Bytes :=
  loginScript anonymous ++ [line "227 (1,1,1,1,1,1)" ++ crlf, line "150 ." ++ crlf,
    line "226 ." ++ crlf]

/-- A new object puts three octets under the key `k`; the socket takes what `accepts` says, and
`drain` is content with 16384 waiting octets. -/
def uploadOf (accepts : List Nat) : Outcome PyExc Unit × State × Upload (List Bytes) :=
  ((Flavour.aio.backend anonymous 2).put ['k'] [1, 2, 3]).run (uploading scripted 16384)
    anonymous.start ⟨uploadScript, .opened accepts⟩

/-- A socket that takes everything at once. -/
theorem put_complete_iff_all :
    (uploadOf [3]).1 = .ok () ∧ (uploadOf [3]).2.2.data.stored = some [1, 2, 3] := by
  have hok : (uploadOf [3]).1 = .ok () := by decide
  have hput : uploadOf [3] = (.ok (), (uploadOf [3]).2.1, (uploadOf [3]).2.2) := Prod.ext hok rfl
  exact ⟨hok, (put_complete_iff hput).mpr (by decide)⟩

/-- The socket takes one octet, `put` returns, and the server has stored that one. -/
theorem not_complete_put : (uploadOf [1]).1 = .ok () ∧
    (uploadOf [1]).2.2.data.stored = some [1] ∧
    (uploadOf [1]).2.2.data.stored ≠ some [1, 2, 3] := by decide

end GufoBlob.FTPBlob
