import GufoBlob.Ftp.Outstanding
import GufoBlob.Interaction.Simulation
import GufoBlob.Interaction.Threads

/-!
# Tasks that share an object

Several tasks of an event loop use one `FTPBlob` of the async package. Every step of a method may be
followed by a step of another task, as it may at an `await`.

* `eventLoop` — how the calls of a task are answered: as in a session, but two tasks cannot wait for
  octets of one stream.
* `follows_perform` — a task that is alone does what it does in a session.
-/

namespace GufoBlob.Ftp

open Text Interaction Program FTPBlob

variable {ι S N : Type}

/-! ## The event loop -/

/-- The session that the tasks share, and what an observer of the tasks knows. -/
structure EventLoop (ι S N : Type) where
  session : Session S N
  /-- The task that waits for octets on the control connection. -/
  waiting : Option ι := none
  /-- The task that has sent the last command. -/
  asker : Option ι := none
  /-- Every reply was returned to the task that had sent the last command. -/
  own : Bool := true
  /-- How many control connections were opened. Each of them is logged in at once. -/
  logins : Nat := 0

/-- What `read` raises when another task waits for octets of the same stream. -/
def secondRead : IOErr :=
  .runtime "read() called while another coroutine is already waiting for incoming data"

namespace EventLoop

/-- What the observer sees of a call of the task `i` and its answer. -/
def seen (i : ι) [DecidableEq ι] (w : EventLoop ι S N) : (o : FtpOp) → ftp.Ans o → EventLoop ι S N
  | @FtpOp.recv .control _, _ => { w with waiting := none }
  | .connect .control _ _, .ok _ => { w with logins := w.logins + 1 }
  | .asked _ _, _ => { w with asker := some i }
  | .answered _ _ _, _ => { w with own := w.own && w.asker = some i }
  | _, _ => w

end EventLoop

variable [DecidableEq ι]

/-- The calls of the task `i`. A stream has one reader at a time. -/
def eventLoop (P : Peer S) (net : N → Option Nat × N) (i : ι) : Handler ftp (EventLoop ι S N)
  | w, @FtpOp.wait .control _ =>
      match w.waiting with
      | some _ => (.error secondRead, w)
      | none => (.ok (), { w with waiting := some i })
  | w, o =>
      ((session P net w.session o).1,
        { w.seen i o (session P net w.session o).1 with session := (session P net w.session o).2 })

/-- What the tasks do with the object: any calls, one after the other in each task. -/
abbrev Tasks (ι S N : Type) := Config ftp State PyExc Value Call ι (EventLoop ι S N)

/-- The event loop may run any task next. A `read` that it goes on with before anything has arrived
is one that has timed out. -/
def anyTask (P : Peer S) (net : N → Option Nat × N) : Shared ftp ι (EventLoop ι S N) :=
  fun i w o => some (eventLoop P net i w o)

/-! ## The session of one task -/

/-- Nobody waits for octets, every reply so far went to the task that had asked, and the task `a`, if
there is one, has asked last. -/
structure Projects (a : Option ι) (w : EventLoop ι S N) (t : Session S N) : Prop where
  idle : w.waiting = none
  own : w.own = true
  asker : ∀ i ∈ a, w.asker = some i
  same : w.session = t

/-- The program does in the event loop what it does when its task is alone. -/
abbrev Follows (P : Peer S) (net : N → Option Nat × N) (i : ι) {α : Type} (p : FtpProg α) : Prop :=
  ∀ a : { a : Option ι // ∀ j ∈ a, j = i }, Simulates (eventLoop P net i) (session P net)
    (Projects a.1) p

/-- The calls that the event loop leaves to the session. -/
def Relayed : FtpOp → Prop
  | @FtpOp.wait .control _ => False
  | .answered _ _ _ => False
  | _ => True

section Follows

variable {P : Peer S} {net : N → Option Nat × N} {i : ι}

theorem follows_compositional (P : Peer S) (net : N → Option Nat × N) (i : ι) :
    Compositional (Follows P net i) :=
  compositional_forall fun _ => simulates_compositional _ _ _

theorem Projects.relayed {a : Option ι} (ha : ∀ j ∈ a, j = i) {w : EventLoop ι S N} {t : Session S N}
    (hw : Projects a w t) {o : FtpOp} (ho : Relayed o) :
    (eventLoop P net i w o).1 = (session P net t o).1 ∧
      Projects a (eventLoop P net i w o).2 (session P net t o).2 := by
  obtain ⟨hidle, hown, hasker, rfl⟩ := hw
  unfold eventLoop
  split
  · exact ho.elim
  · refine ⟨rfl, ?_⟩
    unfold EventLoop.seen
    split
    · exact ⟨rfl, hown, hasker, rfl⟩
    · exact ⟨hidle, hown, hasker, rfl⟩
    · exact ⟨hidle, hown, fun j hj => congrArg some (ha j hj).symm, rfl⟩
    · exact ho.elim
    · exact ⟨hidle, hown, hasker, rfl⟩

theorem follows_call {α : Type} {o : FtpOp} {k : ftp.Ans o → FtpProg α} (ho : Relayed o)
    (hk : ∀ r, Follows P net i (k r)) : Follows P net i (.call o k) :=
  fun a => simulates_call (fun _ _ hw => hw.relayed a.2 ho) fun r => hk r a

theorem follows_raiseOnError {α : Type} (r : Except IOErr α) :
    Follows P net i (raiseOnError r) := by
  have hP := follows_compositional P net i
  cases r with
  | ok a => exact hP.pure a
  | error e => exact hP.raise _

theorem follows_suppressOSError {p : FtpProg Unit} (hp : Follows P net i p) :
    Follows P net i (suppressOSError p) := by
  have hP := follows_compositional P net i
  apply hP.tryCatch hp
  intro e
  split
  · exact hP.raise _
  · exact hP.pure ()
  · exact hP.raise _

/-- A read of the control connection: nobody else waits, and afterwards nobody does. -/
theorem follows_recv (s : Sock .control) : Follows P net i (Aio.FTPBlob.dialect.recv s) := by
  rintro ⟨a, ha⟩ st w t ⟨hidle, hown, hasker, rfl⟩
  show wp (eventLoop P net i) (.call (.wait s) fun r => (raiseOnError r).bind fun _ =>
    .call (.recv s) raiseOnError) _ st w
  have hwait : eventLoop P net i w (.wait s) = (.ok (), { w with waiting := some i }) := by
    unfold eventLoop
    dsimp only
    rw [hidle]
  rw [wp_call, hwait]
  show wp (eventLoop P net i) (.call (.recv s) raiseOnError) _ st { w with waiting := some i }
  rw [wp_call, wp_raiseOnError]
  refine ⟨(w.session.deliver net).2, ?_, rfl, hown, hasker, rfl⟩
  have hrun : wp (session P net) (Flavour.aio.dialect.recv s)
      (fun o st' t' => (o, st', t') = (raised (w.session.deliver net).1, st,
        (w.session.deliver net).2)) st w.session :=
    (wp_recv_session _).mpr rfl
  exact hrun

/-- The task that has asked last is the one that makes calls. -/
theorem asker_stable (w : EventLoop ι S N) (o : FtpOp) (hw : w.asker = some i) :
    (eventLoop P net i w o).2.asker = some i := by
  unfold eventLoop
  split
  · split <;> exact hw
  · dsimp only
    unfold EventLoop.seen
    split
    · exact hw
    · exact hw
    · rfl
    · exact hw
    · exact hw

theorem follows_closeConn {ch : Chan} (s : Sock ch) : Follows P net i (Aio.FTPBlob.closeConn s) := by
  apply follows_call (o := .closeWriter s) (by cases ch <;> trivial)
  exact fun _ => follows_call (by cases ch <;> trivial) follows_raiseOnError

theorem follows_send {ch : Chan} (s : Sock ch) (b : Bytes) :
    Follows P net i (Aio.FTPBlob.dialect.send s b) := by
  apply follows_call (o := .write s b) (by cases ch <;> trivial)
  exact fun _ => follows_call (by cases ch <;> trivial) follows_raiseOnError

variable {fuel : Nat} {conn : FtpProg (Option (Sock .control))} (hconn : Follows P net i conn)

include hconn

theorem follows_reads : Reads (Follows P net i) Aio.FTPBlob.dialect conn where
  toCompositional := follows_compositional P net i
  connection := hconn
  read _ := simulates_read
  setBuffer _ _ := simulates_modify _
  appendBuffer _ _ := simulates_modify _
  recv := follows_recv

/-- A task gets the reply to its own command. -/
theorem follows_cmd (c : Str) : Follows P net i (cmd Aio.FTPBlob.dialect fuel conn c) := by
  have hP := follows_compositional P net i
  have hsend : Follows P net i (sendCmd Aio.FTPBlob.dialect conn c) := by
    apply hP.tryCatch
    · apply hP.bind hconn
      intro held
      cases held with
      | none => exact hP.raise _
      | some s => exact follows_call (o := .asked s c) trivial fun _ => follows_send s _
    · intro e
      obtain ⟨e', he⟩ := sendFailed_raises Aio.FTPBlob.dialect e
      rw [he]
      exact hP.raise _
  -- from here on the task has asked, and nobody else has
  let asking : { a : Option ι // ∀ j ∈ a, j = i } := ⟨some i, fun j hj => (Option.some.inj hj).symm⟩
  rintro ⟨a, ha⟩ st w t hw
  have hasked : wp (eventLoop P net i) (sendCmd Aio.FTPBlob.dialect conn c)
      (fun o st' w' => ∃ t', (sendCmd Aio.FTPBlob.dialect conn c).run (session P net) st t =
        (o, st', t') ∧ Projects a w' t' ∧ ∀ u, o = .ok u → Projects (some i) w' t') st w := by
    have hsent : wp (eventLoop P net i) (sendCmd Aio.FTPBlob.dialect conn c)
        (fun o _ w => ∀ u, o = .ok u → w.asker = some i) st w :=
      wp_sendCmd_of_asked asker_stable (fun _ _ => rfl) st w
    apply wp_mono (wp_and (hsend ⟨a, ha⟩ st w t hw) hsent)
    rintro o st' w' ⟨⟨t', hrun, hw'⟩, hasker⟩
    refine ⟨t', hrun, hw', fun u hu => { hw' with asker := fun j hj => ?_ }⟩
    rw [hasker u hu]
    exact hj
  refine simulates_bind_of hasked (fun _ => ?_) fun w t hw => { hw with asker := fun j hj => ?_ }
  · apply simulates_bind (readResponse_of (follows_reads hconn) asking)
    intro r
    refine simulates_call ?_ fun _ => simulates_pure r
    rintro w t ⟨hidle, hown, hasker, rfl⟩
    have hi : w.asker = some i := hasker i rfl
    refine ⟨rfl, hidle, ?_, hasker, rfl⟩
    show (w.own && decide (w.asker = some i)) = true
    simp [hown, hi]
  · rw [hw.asker i rfl, ha j hj]

omit hconn in
theorem follows_closeData (s : Sock .data) : Follows P net i (Aio.FTPBlob.dialect.closeData s) := by
  apply (follows_compositional P net i).bind
  · exact follows_suppressOSError (follows_call (o := .shutdown s) trivial follows_raiseOnError)
  · exact fun _ => follows_suppressOSError (follows_closeConn s)

omit hconn in
theorem follows_connection (b : FTPBlob) (depth : Nat) :
    Follows P net i (connection Aio.FTPBlob.dialect b fuel depth) := by
  have hP := follows_compositional P net i
  apply connection_of_login hP (fun _ => simulates_read)
  · intro conn hconn
    apply login_of_exchanges hP (expect_of (follows_reads hconn) _)
    exact fun c _ => follows_cmd hconn c
  · exact follows_call (o := .connect .control b.host b.port) trivial hP.pure
  · exact fun _ _ => simulates_modify _
  · exact follows_closeConn

theorem follows_methods : Methods (Follows P net i) Aio.FTPBlob.dialect fuel conn fun _ => True := by
  have hP := follows_compositional P net i
  have htransfers : Transfers (Follows P net i) Aio.FTPBlob.dialect fuel conn fun _ => True :=
    { toCompositional := hP
      cmd := fun c _ => follows_cmd hconn c
      expect := expect_of (follows_reads hconn)
      connectData := fun host port _ => follows_call (o := .connect .data host port) trivial hP.pure
      recvData := fun s => by
        apply follows_call (o := .wait s) trivial
        intro r
        apply hP.bind (follows_raiseOnError r)
        exact fun _ => follows_call (o := .recv s) trivial follows_raiseOnError
      sendData := follows_send
      closeData := follows_closeData }
  apply methods_of htransfers hconn
  intro _
  apply features_of hP (fun _ => simulates_read) (follows_cmd hconn featCmd)
  exact fun _ _ => simulates_modify _

omit hconn in
/-- What a task does when it is alone is what a session does. -/
theorem follows_perform (b : FTPBlob) (fuel : Nat) {c : Call} (hc : c ≠ .close) :
    Follows P net i ((Flavour.aio.backend b fuel).perform c) :=
  perform_of (follows_methods (follows_connection b fuel)) (fun heq => absurd heq hc)
    fun _ _ => trivial

end Follows

end GufoBlob.Ftp
