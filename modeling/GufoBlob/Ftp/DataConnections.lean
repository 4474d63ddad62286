import GufoBlob.Ftp.Rules
import GufoBlob.Ftp.Structure
import GufoBlob.Interaction.Traces
import GufoBlob.Interaction.Unless

/-!
# The data connections of a run

What a run does with its data connections, whatever the network answers. `DataStep` says what a call
of the network may do while a data connection is held, and `DataRun` is a log of such calls: one data
connection after the other, each of them opened, used and closed.

* `sparesData_control` and what follows — a command and its reply leave the data connection alone.
* `wp_transfer` — a transfer ends with its data connection closed, however it ends.
* `data_connections_closed` — so does every run of calls. The exception is a `RuntimeError` of
  `shutdown`, which no clause suppresses and which `socket` does not raise.
-/

namespace GufoBlob.Ftp

open Text Interaction Program FTPBlob

/-- The channel that a call is about. -/
def chanOf : FtpOp → Chan
  | .connect ch _ _ => ch
  | @FtpOp.sendall ch _ _ => ch
  | @FtpOp.write ch _ _ => ch
  | @FtpOp.drain ch _ => ch
  | @FtpOp.wait ch _ => ch
  | @FtpOp.recv ch _ => ch
  | @FtpOp.shutdown ch _ => ch
  | @FtpOp.close ch _ => ch
  | @FtpOp.closeWriter ch _ => ch
  | @FtpOp.waitClosed ch _ => ch
  | .asked _ _ => .control
  | .answered _ _ _ => .control

/-- A use of a data connection that leaves it open. -/
inductive DataUse (s : Sock .data) : FtpOp → Prop where
  | sendall (x : Bytes) : DataUse s (.sendall s x)
  | write (x : Bytes) : DataUse s (.write s x)
  | drain : DataUse s (.drain s)
  | wait : DataUse s (.wait s)
  | recv : DataUse s (.recv s)
  | shutdown : DataUse s (.shutdown s)

/-- What a call with its answer may do, with the data connection that is held before and after it. -/
inductive DataStep : Option (Sock .data) → Entry ftp → Option (Sock .data) → Prop where
  | control {held : Option (Sock .data)} {o : FtpOp} (r : ftp.Ans o) :
      chanOf o = .control → DataStep held ⟨o, r⟩ held
  | refused (host : Str) (port : Nat) (e : IOErr) :
      DataStep none ⟨.connect .data host port, .error e⟩ none
  | opened (host : Str) (port : Nat) (s : Sock .data) :
      DataStep none ⟨.connect .data host port, .ok s⟩ (some s)
  | used {s : Sock .data} {o : FtpOp} (r : ftp.Ans o) : DataUse s o → DataStep (some s) ⟨o, r⟩ (some s)
  | closed (s : Sock .data) (r : Except IOErr Unit) : DataStep (some s) ⟨.close s, r⟩ none
  | closing (s : Sock .data) (r : Unit) : DataStep (some s) ⟨.closeWriter s, r⟩ none
  | waited (s : Sock .data) (r : Except IOErr Unit) : DataStep none ⟨.waitClosed s, r⟩ none

/-- A log in which one data connection follows the other, and the one that is held after it. -/
inductive DataRun : List (Entry ftp) → Option (Sock .data) → Prop where
  | nil : DataRun [] none
  | snoc {l : List (Entry ftp)} {x : Entry ftp} {held held' : Option (Sock .data)} :
      DataRun l held → DataStep held x held' → DataRun (l ++ [x]) held'

/-- A log of such calls, wherever it has got to. -/
def Tracked (l : List (Entry ftp)) : Prop := ∃ held, DataRun l held

/-- A `shutdown` has raised a `RuntimeError`. -/
def ShutdownRaised (l : List (Entry ftp)) : Prop :=
  ∃ (s : Sock .data) (e : String), ⟨.shutdown s, .error (.runtime e)⟩ ∈ l

section Keeps

variable {W : Type} {h : Handler ftp W} {held : Option (Sock .data)}

theorem shutdownRaised_stable (w : W × List (Entry ftp)) (o : FtpOp) (hw : ShutdownRaised w.2) :
    ShutdownRaised (logging h w o).2.2 := by
  obtain ⟨s, e, hmem⟩ := hw
  exact ⟨s, e, List.mem_append_left _ hmem⟩

/-- The program leaves the data connection that is held alone. -/
abbrev SparesData (h : Handler ftp W) (held : Option (Sock .data)) {α : Type} (p : FtpProg α) : Prop :=
  KeepsUnless (logging h) (fun w => ShutdownRaised w.2) (fun _ w => DataRun w.2 held)
    (fun w => Tracked w.2) p

theorem sparesData_compositional (h : Handler ftp W) (held : Option (Sock .data)) :
    Compositional (SparesData h held) :=
  keepsUnless_compositional shutdownRaised_stable fun _ _ hw => ⟨held, hw⟩

theorem sparesData_call {α : Type} {o : FtpOp} {k : ftp.Ans o → FtpProg α}
    (ho : ∀ r, DataStep held ⟨o, r⟩ held) (hk : ∀ r, SparesData h held (k r)) :
    SparesData h held (.call o k) := fun s _ hw => hk _ s _ (hw.snoc (ho _))

theorem sparesData_raiseOnError {α : Type} (r : Except IOErr α) : SparesData h held (raiseOnError r) := by
  cases r with
  | ok a => exact (sparesData_compositional h held).pure a
  | error e => exact (sparesData_compositional h held).raise _

theorem sparesData_suppressOSError {p : FtpProg Unit} (hp : SparesData h held p) :
    SparesData h held (suppressOSError p) := by
  apply (sparesData_compositional h held).tryCatch hp
  intro e
  split
  · exact (sparesData_compositional h held).raise _
  · exact (sparesData_compositional h held).pure ()
  · exact (sparesData_compositional h held).raise _

/-- A call on the control connection. -/
theorem sparesData_control {α : Type} {o : FtpOp} (ho : chanOf o = .control)
    {k : ftp.Ans o → FtpProg α} (hk : ∀ r, SparesData h held (k r)) : SparesData h held (.call o k) :=
  sparesData_call (fun r => .control r ho) hk

theorem sparesData_read : SparesData h held Program.read := fun _ _ hw => .inr hw

theorem sparesData_modify (f : State → State) : SparesData h held (Program.modify f) :=
  fun _ _ hw => .inr hw

/-! ## Commands -/

variable {fl : Flavour} {fuel : Nat} {conn : FtpProg (Option (Sock .control))} {b : FTPBlob}

theorem sparesData_recvControl (s : Sock .control) : SparesData h held (fl.dialect.recv s) := by
  cases fl with
  | sync => exact sparesData_control rfl sparesData_raiseOnError
  | aio =>
      apply (sparesData_compositional h held).bind (sparesData_control rfl sparesData_raiseOnError)
      exact fun _ => sparesData_control rfl sparesData_raiseOnError

theorem sparesData_sendControl (s : Sock .control) (x : Bytes) :
    SparesData h held (fl.dialect.send s x) := by
  cases fl with
  | sync => exact sparesData_control rfl sparesData_raiseOnError
  | aio =>
      apply (sparesData_compositional h held).bind
        (sparesData_control rfl (sparesData_compositional h held).pure)
      exact fun _ => sparesData_control rfl sparesData_raiseOnError

theorem sparesData_dropConn (s : Sock .control) : SparesData h held (fl.dialect.dropConn s) := by
  cases fl with
  | sync => exact sparesData_suppressOSError (sparesData_control rfl sparesData_raiseOnError)
  | aio =>
      apply (sparesData_compositional h held).bind
        (sparesData_control rfl (sparesData_compositional h held).pure)
      exact fun _ => sparesData_control rfl sparesData_raiseOnError

theorem sparesData_commands (hconn : SparesData h held conn) :
    Commands (SparesData h held) fl.dialect conn fun _ => True where
  toCompositional := sparesData_compositional h held
  connection := hconn
  read := sparesData_read
  setBuffer _ := sparesData_modify _
  appendBuffer _ := sparesData_modify _
  recv s := sparesData_recvControl s
  transmit s c _ := by
    apply (sparesData_compositional h held).bind
      (sparesData_control rfl (sparesData_compositional h held).pure)
    exact fun _ => sparesData_sendControl s _
  answered _ _ _ := sparesData_control rfl (sparesData_compositional h held).pure

theorem sparesData_connection (depth : Nat) :
    SparesData h held (connection fl.dialect b fuel depth) :=
  connection_of (sparesData_compositional h held) (fun _ hconn => sparesData_commands hconn)
    (fun _ _ => trivial) (sparesData_control rfl (sparesData_compositional h held).pure)
    (fun _ => sparesData_modify _) sparesData_dropConn depth

/-! ## Transfers -/

section Transfer

variable {s : Sock .data}

theorem sparesData_use {α : Type} {o : FtpOp} (ho : DataUse s o) {k : ftp.Ans o → FtpProg α}
    (hk : ∀ r, SparesData h (some s) (k r)) : SparesData h (some s) (.call o k) :=
  sparesData_call (fun r => .used r ho) hk

theorem sparesData_recvData : SparesData h (some s) (fl.dialect.recv s) := by
  cases fl with
  | sync => exact sparesData_use .recv sparesData_raiseOnError
  | aio =>
      apply (sparesData_compositional h (some s)).bind (sparesData_use .wait sparesData_raiseOnError)
      exact fun _ => sparesData_use .recv sparesData_raiseOnError

theorem sparesData_sendData (x : Bytes) : SparesData h (some s) (fl.dialect.send s x) := by
  cases fl with
  | sync => exact sparesData_use (.sendall x) sparesData_raiseOnError
  | aio =>
      apply (sparesData_compositional h (some s)).bind
        (sparesData_use (.write x) (sparesData_compositional h (some s)).pure)
      exact fun _ => sparesData_use .drain sparesData_raiseOnError

variable (hconn : ∀ held, SparesData h held conn)

include hconn

theorem sparesData_cmd (c : Str) : SparesData h held (cmd fl.dialect fuel conn c) :=
  cmd_of (sparesData_commands (hconn held)) trivial

theorem sparesData_expect (code : Int) : SparesData h held (expect fl.dialect fuel conn code) :=
  expect_of (sparesData_commands (hconn held)).toReads code

theorem sparesData_dataFailed {α : Type} (e : PyExc) :
    SparesData h held (dataFailed fl.dialect fuel conn e : FtpProg α) := by
  have hP := sparesData_compositional h held
  have hexpect : SparesData h held (suppressBlobError (expect fl.dialect fuel conn transferDone)) :=
    suppressBlobError_of hP (sparesData_expect hconn _)
  unfold dataFailed
  split
  · exact hP.bind hexpect fun _ => hP.raise _
  · exact hP.bind hexpect fun _ => hP.raise _
  · exact hP.bind hexpect fun _ => hP.raise _
  · exact hP.raise _

theorem sparesData_recvAll (n : Nat) (chunks : List Bytes) :
    SparesData h (some s) (recvAll fl.dialect fuel conn s n chunks) := by
  have hP := sparesData_compositional h (some s)
  induction n generalizing chunks with
  | zero => exact hP.spin
  | succ n ih =>
      apply hP.bind (hP.tryCatch sparesData_recvData fun e => sparesData_dataFailed hconn e)
      intro data
      split
      · exact hP.pure _
      · exact ih _

theorem sparesData_retrieve (c : Str) :
    SparesData h (some s) (retrieve fl.dialect fuel conn s c) := by
  have hP := sparesData_compositional h (some s)
  apply hP.bind (sparesData_cmd hconn c)
  intro r
  dsimp only
  split
  · exact hP.raise _
  · split
    · exact hP.raise _
    · apply hP.bind (sparesData_recvAll hconn fuel [])
      exact fun chunks => hP.bind (sparesData_expect hconn _) fun _ => hP.pure _

theorem sparesData_store (key : Str) (data : Bytes) :
    SparesData h (some s) (store fl.dialect fuel conn s key data) := by
  have hP := sparesData_compositional h (some s)
  apply hP.bind (sparesData_cmd hconn _)
  intro r
  dsimp only
  split
  · exact hP.raise _
  · exact hP.tryCatch (sparesData_sendData data) fun e => sparesData_dataFailed hconn e

omit hconn in
/-- `shutdown`, with its `OSError` suppressed. -/
theorem wp_shutdown {st : State} {w : W × List (Entry ftp)} (hw : DataRun w.2 (some s)) :
    wp (logging h) (suppressOSError (.call (.shutdown s) raiseOnError))
      (orFailed (fun w => ShutdownRaised w.2) fun o _ w => o = .ok () ∧ DataRun w.2 (some s)) st w := by
  show wp (logging h) (suppressOSError (raiseOnError (h w.1 (.shutdown s)).1)) _ st
    ((h w.1 (.shutdown s)).2, w.2 ++ [⟨.shutdown s, (h w.1 (.shutdown s)).1⟩])
  have hrun : ∀ r, DataRun (w.2 ++ [⟨.shutdown s, r⟩]) (some s) := fun r => hw.snoc (.used r .shutdown)
  rcases h w.1 (.shutdown s) with ⟨r, w'⟩
  cases r with
  | ok a => exact .inr ⟨rfl, hrun _⟩
  | error e =>
      cases e with
      | runtime text => exact .inl ⟨s, text, List.mem_append_right _ (List.mem_singleton_self _)⟩
      | timeout text => exact .inr ⟨rfl, hrun _⟩
      | refused text => exact .inr ⟨rfl, hrun _⟩
      | os text => exact .inr ⟨rfl, hrun _⟩

/-- Where a program ends with no data connection held. -/
def released {α : Type} : Outcome PyExc α → State → W × List (Entry ftp) → Prop :=
  afterwards (fun _ w => DataRun w.2 none) fun w => Tracked w.2

omit hconn in
/-- Closing a data connection, unless the `shutdown` before it raises a `RuntimeError`. -/
theorem wp_closeData {st : State} {w : W × List (Entry ftp)} (hw : DataRun w.2 (some s)) :
    wp (logging h) (fl.dialect.closeData s) (orFailed (fun w => ShutdownRaised w.2) released) st w := by
  have hB : ∀ (w : W × List (Entry ftp)) o, ShutdownRaised w.2 → ShutdownRaised (logging h w o).2.2 :=
    shutdownRaised_stable
  have hP := sparesData_compositional h none
  -- after the call that closes it nothing is held, whatever the answers are
  have hwaited : SparesData h none (.call (.waitClosed s) raiseOnError) :=
    sparesData_call (.waited s) sparesData_raiseOnError
  have hclosed : ∀ r, DataStep (some s) ⟨.close s, r⟩ none := .closed s
  have hclosing : ∀ r, DataStep (some s) ⟨.closeWriter s, r⟩ none := .closing s
  cases fl with
  | sync =>
      refine wp_bind_unless hB (wp_shutdown hw) ?_ (by simp) (by simp)
      rintro a st' w' ⟨-, hw'⟩
      exact sparesData_suppressOSError (sparesData_raiseOnError _) st' _ (hw'.snoc (hclosed _))
  | aio =>
      refine wp_bind_unless hB (wp_shutdown hw) ?_ (by simp) (by simp)
      rintro a st' w' ⟨-, hw'⟩
      exact sparesData_suppressOSError hwaited st' _ (hw'.snoc (hclosing _))

omit hconn in
/-- However the use of a data connection ends, it is closed. -/
theorem wp_transfer {α : Type} {p : FtpProg α} (hp : SparesData h (some s) p) {st : State}
    {w : W × List (Entry ftp)} (hw : DataRun w.2 (some s)) :
    wp (logging h) (p.tryFinally (fl.dialect.closeData s))
      (orFailed (fun w => ShutdownRaised w.2) released) st w := by
  have hB : ∀ (w : W × List (Entry ftp)) o, ShutdownRaised w.2 → ShutdownRaised (logging h w o).2.2 :=
    shutdownRaised_stable
  have hclose : ∀ (q : FtpProg α), SparesData h none q → ∀ st (w : W × List (Entry ftp)),
      DataRun w.2 (some s) → wp (logging h) ((fl.dialect.closeData s).bind fun _ => q)
        (orFailed (fun w => ShutdownRaised w.2) released) st w := by
    intro q hq st w hw
    apply wp_bind_unless hB (wp_closeData hw)
    · exact fun a st w hw => hq st w hw
    · exact fun e st w hw => hw
    · exact fun st w hw => hw
  have hP := sparesData_compositional h none
  apply wp_tryFinally_unless hB (hp st w hw)
  · exact fun a => hclose (.pure a) (hP.pure a)
  · exact fun e => hclose (.raise e) (hP.raise e)
  · exact fun st w hw => hw

/-- A data connection is open now, or none was opened. -/
def Passive (o : Outcome PyExc (Sock .data)) (w : W × List (Entry ftp)) : Prop :=
  (∃ s, o = .ok s ∧ DataRun w.2 (some s)) ∨ ((∃ e, o = .error e) ∧ DataRun w.2 none) ∨
    (o = .spun ∧ Tracked w.2)

theorem wp_getPassive {st : State} {w : W × List (Entry ftp)} (hw : DataRun w.2 none) :
    wp (logging h) (getPassive fl.dialect fuel conn)
      (orFailed (fun w => ShutdownRaised w.2) fun o _ w => Passive o w) st w := by
  have hB : ∀ (w : W × List (Entry ftp)) o, ShutdownRaised w.2 → ShutdownRaised (logging h w o).2.2 :=
    shutdownRaised_stable
  have hraise : ∀ {e : PyExc} {st : State} {w : W × List (Entry ftp)}, DataRun w.2 none →
      wp (logging h) (.raise e : FtpProg (Sock .data))
        (orFailed (fun w => ShutdownRaised w.2) fun o _ w => Passive o w) st w :=
    fun hw => .inr (.inr (.inl ⟨⟨_, rfl⟩, hw⟩))
  apply wp_bind_unless hB (sparesData_cmd hconn pasvCmdText st w hw)
  · rintro ⟨code, lines⟩ st w hw
    dsimp only
    split
    · exact hraise hw
    · cases parsePasv (lines.getLastD []) with
      | error e => exact hraise hw
      | ok addr =>
          obtain ⟨host, port⟩ := addr
          show wp (logging h) ((connect .data host port).bind _) _ st w
          rw [wp_bind, wp_connect, bindPost_ok]
          have hlog : (logging h w (.connect .data host port)).2.2 =
              w.2 ++ [⟨_, (logging h w (.connect .data host port)).1⟩] := rfl
          split
          · next s heq =>
              rw [heq] at hlog
              refine .inr (.inl ⟨s, rfl, ?_⟩)
              show DataRun (logging h w (.connect .data host port)).2.2 (some s)
              rw [hlog]
              exact hw.snoc (.opened host port s)
          · next e heq =>
              rw [heq] at hlog
              have hnone : DataRun (logging h w (.connect .data host port)).2.2 none := by
                rw [hlog]
                exact hw.snoc (.refused host port e)
              cases e <;> exact hraise hnone
  · exact fun e st w hw => .inr (.inl ⟨⟨e, rfl⟩, hw⟩)
  · exact fun st w hw => .inr (.inr ⟨rfl, hw⟩)

/-- What follows a data connection that was opened, and closes it. -/
theorem sparesData_getPassive_bind {α : Type} {k : Sock .data → FtpProg α}
    (hk : ∀ s st (w : W × List (Entry ftp)), DataRun w.2 (some s) →
      wp (logging h) (k s) (orFailed (fun w => ShutdownRaised w.2) released) st w) :
    SparesData h none ((getPassive fl.dialect fuel conn).bind k) := by
  intro st w hw
  apply wp_bind_unless shutdownRaised_stable (wp_getPassive hconn hw)
  · rintro s st w (⟨s', hs, hrun⟩ | ⟨⟨e, he⟩, -⟩ | ⟨he, -⟩)
    · obtain rfl := Outcome.ok.inj hs
      exact hk s st w hrun
    · cases he
    · cases he
  · rintro e st w (⟨s', hs, -⟩ | ⟨-, hrun⟩ | ⟨he, -⟩)
    · cases hs
    · exact hrun
    · cases he
  · rintro st w (⟨s', hs, -⟩ | ⟨⟨e, he⟩, -⟩ | ⟨-, htracked⟩)
    · cases hs
    · cases he
    · exact htracked

theorem sparesData_pasvCmd (c : Str) : SparesData h none (pasvCmd fl.dialect fuel conn c) := by
  apply sparesData_getPassive_bind hconn
  intro s st w hw
  apply wp_bind_unless shutdownRaised_stable (wp_transfer (sparesData_retrieve hconn c) hw)
  · exact fun chunks st w hw => .inr hw
  · exact fun e st w hw => hw
  · exact fun st w hw => hw

theorem sparesData_put (key : Str) (data : Bytes) :
    SparesData h none (put fl.dialect fuel conn key data) := by
  have hP := sparesData_compositional h none
  have hdirs : SparesData h none (ensureParentDirs fl.dialect fuel conn key) := by
    apply hP.forEach
    intro dir _
    apply hP.bind (sparesData_cmd hconn _)
    intro r
    dsimp only
    split
    · exact hP.raise _
    · exact hP.pure _
  apply hP.bind hdirs
  intro _
  apply sparesData_getPassive_bind hconn
  intro s st w hw
  apply wp_bind_unless shutdownRaised_stable (wp_transfer (sparesData_store hconn key data) hw)
  · exact fun _ st w hw => sparesData_expect hconn _ st w hw
  · exact fun e st w hw => hw
  · exact fun st w hw => hw

theorem sparesData_methods : Methods (SparesData h none) fl.dialect fuel conn fun _ => True where
  toCompositional := sparesData_compositional h none
  connection := hconn none
  features _ := features_of (sparesData_compositional h none) sparesData_read (sparesData_cmd hconn _)
    fun _ => sparesData_modify _
  cmd c _ _ := sparesData_cmd hconn c
  pasvCmd c _ _ := sparesData_pasvCmd hconn c
  put key data _ := sparesData_put hconn key data

theorem sparesData_close : SparesData h none (fl.close fuel conn) := by
  have hP := sparesData_compositional h none
  have hquit : SparesData h none (suppressBlobError
      ((cmd fl.dialect fuel conn quitCmd).bind fun _ => .pure ())) :=
    suppressBlobError_of hP (hP.bind (sparesData_cmd hconn quitCmd) fun _ => hP.pure ())
  have hdrop : ∀ s, SparesData h none (fl.dialect.dropConn s) := sparesData_dropConn
  cases fl with
  | sync =>
      have hheld : SparesData h none (Sync.FTPBlob.closeHeld fuel conn) := by
        apply hP.bind sparesData_read
        intro st
        split
        · exact hP.pure ()
        · apply hP.bind hquit
          intro _
          apply hP.bind sparesData_read
          intro st
          split
          · exact hdrop _
          · exact hP.raise _
      exact hP.tryFinally hheld (sparesData_modify _)
  | aio =>
      apply hP.bind sparesData_read
      intro st
      apply hP.bind (sparesData_modify _)
      intro _
      apply hP.tryFinally hquit
      split
      · exact hdrop _
      · exact hP.pure ()

end Transfer

/-! ## Runs -/

theorem sparesData_perform (c : Call) : SparesData h none ((fl.backend b fuel).perform c) := by
  have hconn : ∀ held, SparesData h held (fl.connection b fuel) := fun held => sparesData_connection fuel
  exact perform_of (sparesData_methods hconn) (fun _ => sparesData_close hconn) fun _ _ => trivial

end Keeps

/-- **Every data connection is closed again.** Whatever the network answers, in the log of every run of
calls of either class one data connection follows the other: each is opened when none is held, used and
closed, however the transfer ends, and none is held when the calls have ended. -/
theorem data_connections_closed {W : Type} (h : Handler ftp W) (fl : Flavour) (b : FTPBlob)
    (fuel : Nat) (cs : List Call) (st : State) (w : W) :
    let r := Program.runCalls (logging h) (fl.backend b fuel).perform cs st (w, [])
    ShutdownRaised r.2.2.2 ∨ ∃ held, DataRun r.2.2.2 held ∧ (.spun ∉ r.1 → held = none) := by
  -- from any log in which nothing is held, or in which `shutdown` has raised
  suffices hruns : ∀ (cs : List Call) (st : State) (w : W × List (Entry ftp)),
      ShutdownRaised w.2 ∨ DataRun w.2 none →
      let r := Program.runCalls (logging h) (fl.backend b fuel).perform cs st w
      ShutdownRaised r.2.2.2 ∨ ∃ held, DataRun r.2.2.2 held ∧ (.spun ∉ r.1 → held = none) from
    hruns cs st (w, []) (.inr .nil)
  intro cs
  induction cs with
  | nil => exact fun st w hw => hw.imp_right fun hrun => ⟨none, hrun, fun _ => rfl⟩
  | cons c cs ih =>
      intro st w hw
      have hcall : wp (logging h) ((fl.backend b fuel).perform c)
          (orFailed (fun w => ShutdownRaised w.2) released) st w := by
        rcases hw with hw | hw
        · exact wp_unless_failed shutdownRaised_stable hw
        · exact sparesData_perform c st w hw
      by_cases hspun : (((fl.backend b fuel).perform c).run (logging h) st w).1 = .spun
      · rw [wp, orFailed, hspun] at hcall
        rw [Program.runCalls_cons_of_spun cs hspun]
        refine hcall.imp_right ?_
        rintro ⟨held, hrun⟩
        exact ⟨held, hrun, fun hno => absurd (List.mem_singleton_self _) hno⟩
      · have hnext : ShutdownRaised (((fl.backend b fuel).perform c).run (logging h) st w).2.2.2 ∨
            DataRun (((fl.backend b fuel).perform c).run (logging h) st w).2.2.2 none := by
          rw [wp, orFailed] at hcall
          refine hcall.imp_right fun hend => ?_
          cases ho : (((fl.backend b fuel).perform c).run (logging h) st w).1 with
          | ok v =>
              rw [ho] at hend
              exact hend
          | error e =>
              rw [ho] at hend
              exact hend
          | spun => exact absurd ho hspun
        rw [Program.runCalls_cons_of_ne hspun]
        refine (ih _ _ hnext).imp_right ?_
        rintro ⟨held, hrun, hheld⟩
        exact ⟨held, hrun, fun hno => hheld fun hmem => hno (List.mem_cons_of_mem _ hmem)⟩

end GufoBlob.Ftp
