import GufoBlob.Ftp.Recovery
import GufoBlob.Interaction.Denotation

/-!
# The two classes agree

The sync and the async `FTPBlob` are two texts of one protocol. Where they differ other than in what
they do with a socket, each has its own definitions here: the order of the branches in `list_dir`,
and how often `exists` reads the property `features`.

* `Server` — a deterministic machine that reacts to what it receives; `serving` runs it under the
  socket calls of either class, and logs what is sent.
* `run_backend_eq` — every call but `close` runs alike in the two classes, in every environment that
  answers their socket calls alike.
-/

namespace GufoBlob

open Text Interaction Program Ftp FTPBlob

/-! ## The texts of the two classes -/

/-- What `list_dir` does with an entry of a directory. -/
inductive FTPBlob.Entry where
  | descend
  | emit
  | skip

namespace FTPBlob

/-- `list_dir` with the branches `entry`; the recursion is on `rest`. -/
def listDirBy (entry : List Str → Str → Bool → Entry) (d : Dialect) (fuel : Nat)
    (conn : FtpProg (Option (Sock .control))) (verb : Str)
    (parser : Bytes → Except PyExc (Str × Bool)) : List Str → Str → FtpGen Unit
  | rest, path => do
      let path := rstrip isSlash path
      match ← (listData d fuel conn verb path).embed with
      | none => return ()
      | some data =>
          Program.forEach (splitlines data) fun line => do
            let (name, isDir) ← Program.ofExcept (parser line)
            let fullPath := fullPath path name
            match rest with
            | [] =>
                match entry [] name isDir with
                | .emit => Program.yield fullPath
                | _ => return ()
            | part :: rest =>
                match entry (part :: rest) name isDir with
                | .descend => listDirBy entry d fuel conn verb parser rest fullPath
                | .emit => Program.yield fullPath
                | .skip => return ()

/-- `scan` with the branches `entry`. -/
def scanBy (entry : List Str → Str → Bool → Entry) (d : Dialect) (fuel : Nat)
    (conn : FtpProg (Option (Sock .control))) (pre : Str) : FtpGen Unit := do
  let f ← (features d fuel conn).embed
  if f.supportsMlsd then
    listDirBy entry d fuel conn mlsdVerb parseMlsdLine (parts pre) []
  else
    listDirBy entry d fuel conn listVerb parseListLine (parts pre) []

end FTPBlob

namespace Sync.FTPBlob

/-- The branches of `list_dir`. -/
def entry (rest : List Str) (name : Str) (isDir : Bool) : Entry :=
  if rest ≠ [] ∧ rest.head? = some name ∧ isDir then .descend
  else if rest ≠ [] ∧ rest.head? = some name ∧ !isDir then .emit
  else if rest = [] ∧ !isDir then .emit
  else .skip

variable (fuel : Nat) (conn : FtpProg (Option (Sock .control)))

/-- `exists`; the property `features` is read twice. -/
def exists' (key : Str) : FtpProg Bool := do
  let f ← features dialect fuel conn
  match ← sizeAnswer dialect fuel conn f key with
  | some found => return found
  | none =>
      let f ← features dialect fuel conn
      match ← mlstAnswer dialect fuel conn f key with
      | some found => return found
      | none => (scanBy entry dialect fuel conn key).anyYield (· = key)

/-- `gufo.blob.sync.ftp.FTPBlob`. -/
def backend (b : GufoBlob.FTPBlob) (fuel : Nat) : BlobBase ftp FTPBlob.State :=
  let conn := Flavour.sync.connection b fuel
  { Flavour.sync.backend b fuel with
    exists' := exists' fuel conn
    scan := scanBy entry dialect fuel conn }

end Sync.FTPBlob

namespace Aio.FTPBlob

/-- The branches of `list_dir`. -/
def entry (rest : List Str) (name : Str) (isDir : Bool) : Entry :=
  if rest ≠ [] ∧ rest.head? = some name ∧ isDir then .descend
  else if rest = [] ∧ !isDir then .emit
  else if rest ≠ [] ∧ rest.head? = some name ∧ !isDir then .emit
  else .skip

variable (fuel : Nat) (conn : FtpProg (Option (Sock .control)))

/-- `exists`; the property `features` is read once. -/
def exists' (key : Str) : FtpProg Bool := do
  let f ← features dialect fuel conn
  match ← sizeAnswer dialect fuel conn f key with
  | some found => return found
  | none =>
      match ← mlstAnswer dialect fuel conn f key with
      | some found => return found
      | none => (scanBy entry dialect fuel conn key).anyYield (· = key)

/-- `gufo.blob.aio.ftp.FTPBlob`. -/
def backend (b : GufoBlob.FTPBlob) (fuel : Nat) : BlobBase ftp FTPBlob.State :=
  let conn := Flavour.aio.connection b fuel
  { Flavour.aio.backend b fuel with
    exists' := exists' fuel conn
    scan := scanBy entry dialect fuel conn }

end Aio.FTPBlob

namespace FTPBlob

/-- The order of the branches makes no difference. -/
theorem entry_eq : Sync.FTPBlob.entry = Aio.FTPBlob.entry := by
  funext rest name isDir
  unfold Sync.FTPBlob.entry Aio.FTPBlob.entry
  grind

/-! ## A deterministic server -/

/-- A machine that reacts to connections, to what it receives on them, to the end of what it
receives and to their close. Each segment that it sends is a step; no octets are the end. -/
structure Server (S : Type) where
  connect : S → (ch : Chan) → Str → Nat → Except IOErr (Sock ch) × S
  receive : S → {ch : Chan} → Sock ch → Bytes → S
  send : S → {ch : Chan} → Sock ch → Bytes × S
  shutdown : S → {ch : Chan} → Sock ch → S
  close : S → {ch : Chan} → Sock ch → S

/-- What was sent on a connection. -/
structure Sent where
  ch : Chan
  sock : Nat
  data : Bytes
  deriving DecidableEq

/-- The network without faults around the machine `m`: everything that is written is delivered. -/
def serving {S : Type} (m : Server S) : Handler ftp (S × List Sent)
  | (x, log), .connect ch host port =>
      ((m.connect x ch host port).1, (m.connect x ch host port).2, log)
  | (x, log), @FtpOp.sendall ch s b => (.ok (), m.receive x s b, log ++ [⟨ch, s.id, b⟩])
  | (x, log), @FtpOp.write ch s b => ((), m.receive x s b, log ++ [⟨ch, s.id, b⟩])
  | w, .drain _ => (.ok (), w)
  | w, .wait _ => (.ok (), w)
  | (x, log), .recv s => (.ok (m.send x s).1, (m.send x s).2, log)
  | (x, log), .shutdown s => (.ok (), m.shutdown x s, log)
  | (x, log), .close s => (.ok (), m.close x s, log)
  | (x, log), .closeWriter s => ((), m.close x s, log)
  | w, .waitClosed _ => (.ok (), w)
  | w, .asked _ _ => ((), w)
  | w, .answered _ _ _ => ((), w)

variable {S : Type} (m : Server S)

/-! ## What a command may fail with -/

/-- The classes report every exception of a send alike, but for a timeout. -/
def NoTimeout : PyExc → Prop
  | .ioError (.timeout _) => False
  | _ => True

section Prompt

variable {W : Type} {h : Handler ftp W}

/-- The program raises no timeout. -/
abbrev Prompt (h : Handler ftp W) {α : Type} (p : FtpProg α) : Prop :=
  Ends True h (fun _ _ => True) (fun e _ _ => NoTimeout e) (fun _ => True) p

theorem prompt_raise {α : Type} {e : PyExc} (he : NoTimeout e) :
    Prompt h (.raise e : FtpProg α) := fun _ _ _ => he

theorem prompt_bind {α β : Type} {p : FtpProg α} {f : α → FtpProg β} (hp : Prompt h p)
    (hf : ∀ a, Prompt h (f a)) : Prompt h (p.bind f) := ends_bind hp fun a _ => hf a

theorem noTimeout_of_isBlobError {e : PyExc} (he : IsBlobError e) : NoTimeout e := by
  cases e <;> trivial

/-- A `try` raises what its `except` clauses raise. -/
theorem prompt_tryCatch {α : Type} (p : FtpProg α) {g : PyExc → FtpProg α}
    (hg : ∀ e, Prompt h (g e)) : Prompt h (p.tryCatch g) := by
  intro st w _
  rw [wp_tryCatch]
  unfold wp
  generalize p.run h st w = r
  obtain ⟨o, st', w'⟩ := r
  cases o with
  | ok a => exact ⟨trivial, trivial⟩
  | error e => exact hg e st' w' trivial
  | spun => trivial

variable {d : Dialect} {fuel : Nat} {conn : FtpProg (Option (Sock .control))}

theorem prompt_receive : Prompt h (receive d conn) := by
  refine prompt_tryCatch _ fun e => ?_
  unfold readError
  split
  · exact prompt_raise trivial
  · exact prompt_raise trivial
  · exact prompt_raise trivial
  · next hne _ _ =>
      apply prompt_raise
      cases e with
      | ioError e => cases e <;> first | trivial | exact absurd rfl (hne _)
      | _ => trivial

theorem prompt_readLine : Prompt h (readLine d fuel conn) := by
  show Prompt h (readLineLoop d conn fuel)
  generalize fuel = n
  induction n with
  | zero => exact ends_spin trivial
  | succ n ih =>
      refine prompt_bind (ends_read fun _ _ _ => trivial) fun st => ?_
      split
      · exact prompt_bind (ends_modify fun _ _ _ => trivial) fun _ => ends_pure trivial
      · refine prompt_bind prompt_receive fun data => ?_
        split
        · exact prompt_raise trivial
        · exact prompt_bind (ends_modify fun _ _ _ => trivial) fun _ => ih

theorem prompt_readResponse : Prompt h (readResponse d fuel conn) := by
  have hmore : ∀ first n lines, Prompt h (moreLines d fuel conn first n lines) := by
    intro first n
    induction n with
    | zero => exact fun _ => ends_spin trivial
    | succ n ih =>
        intro lines
        refine prompt_bind prompt_readLine fun line => ?_
        split
        · exact ends_pure trivial
        · exact ih _
  refine prompt_bind prompt_readLine fun first => ?_
  split
  · exact prompt_raise trivial
  · refine prompt_bind ?_ fun code => ?_
    · cases hcode : bytesToIntRange (first.take 3) 0 999 with
      | ok code => exact ends_pure trivial
      | error e => exact prompt_raise (noTimeout_of_isBlobError (bytesToIntRange_error hcode))
    · split
      · exact prompt_bind (hmore _ _ _) fun _ => ends_pure trivial
      · exact ends_pure trivial

/-- Whatever sending raises, `_cmd` reports it. -/
theorem prompt_cmd (hd : ∀ e, d.sendError (.timeout e) ≠ none) (c : Str) :
    Prompt h (cmd d fuel conn c) := by
  refine prompt_bind ?_ fun _ => ?_
  · refine prompt_tryCatch _ fun e => ?_
    unfold sendFailed
    split
    · next e =>
        split
        · exact prompt_raise trivial
        · next hnone =>
            apply prompt_raise
            cases e with
            | timeout e => exact absurd hnone (hd e)
            | _ => trivial
    · next hne =>
        apply prompt_raise
        cases e with
        | ioError e => exact absurd rfl (hne _)
        | _ => trivial
  · refine prompt_bind prompt_readResponse fun r => ?_
    exact prompt_bind (fun _ _ _ => ⟨trivial, trivial⟩) fun _ => ends_pure trivial

theorem prompt_cmdExpect (hd : ∀ e, d.sendError (.timeout e) ≠ none) (c : Str) (want : Int)
    (msg : String) : Prompt h (cmdExpect d fuel conn c want msg) := by
  refine prompt_bind (prompt_cmd hd c) fun r => ?_
  dsimp only
  split
  · exact prompt_raise trivial
  · exact ends_pure trivial

theorem prompt_login (hd : ∀ e, d.sendError (.timeout e) ≠ none) (b : FTPBlob) :
    Prompt h (login d fuel conn b) := by
  have hauth : Prompt h (authenticate d fuel conn b) := by
    refine prompt_bind (prompt_cmd hd _) fun r => ?_
    dsimp only
    split
    · exact prompt_bind (prompt_cmd hd _) fun _ => ends_pure trivial
    · exact ends_pure trivial
  have hroot : Prompt h (enterRoot d fuel conn b) := by
    unfold enterRoot
    split
    · exact ends_pure trivial
    · exact prompt_cmdExpect hd _ _ _
  have hgreeting : Prompt h (expect d fuel conn ready) := by
    refine prompt_bind prompt_readResponse fun r => ?_
    dsimp only
    split
    · exact prompt_raise trivial
    · exact ends_pure trivial
  refine prompt_bind hgreeting fun _ => prompt_bind hauth fun code => ?_
  split
  · exact prompt_raise trivial
  · exact prompt_bind hroot fun _ => prompt_cmdExpect hd _ _ _

theorem prompt_attempts (b : FTPBlob) (n : Nat) (lastError : String) :
    Prompt h (b.attempts n lastError) := by
  induction n generalizing lastError with
  | zero => exact prompt_raise trivial
  | succ n ih =>
      refine prompt_bind (fun _ _ _ => ⟨trivial, trivial⟩) fun r => ?_
      cases r with
      | ok s => exact ends_pure trivial
      | error e =>
          cases e with
          | runtime e => exact prompt_raise trivial
          | _ => exact ih _

/-- The property `connection` raises no timeout when dropping a connection raises none. -/
theorem prompt_connection (hd : ∀ e, d.sendError (.timeout e) ≠ none)
    (hdrop : ∀ s, Prompt h (d.dropConn s)) (b : FTPBlob) (depth : Nat) :
    Prompt h (connection d b fuel depth) := by
  cases depth with
  | zero => exact ends_spin trivial
  | succ depth =>
      have hread : Prompt h (Program.read : FtpProg State) := ends_read fun _ _ _ => trivial
      have hset : ∀ c, Prompt h (setConn c) := fun c => ends_modify fun _ _ _ => trivial
      have hheld : Prompt h (dropHeld d) := by
        refine prompt_bind hread fun st => ?_
        split
        · exact hdrop _
        · exact prompt_raise trivial
      refine prompt_bind hread fun st => prompt_bind ?_ fun _ => ?_
      · unfold connectAndLogin
        split
        · exact ends_pure trivial
        · refine prompt_bind (prompt_attempts b _ _) fun s => prompt_bind (hset _) fun _ => ?_
          intro st w _
          rw [wp_tryCatch]
          apply wp_mono (prompt_login hd b st w trivial)
          rintro (⟨⟩ | e | _) st' w' ho
          · exact ho
          · cases e with
            | blobError msg =>
                have hfailed : Prompt h (loginFailed d (.blobError msg)) := by
                  refine prompt_bind hheld fun _ => ?_
                  refine prompt_bind (hset none) fun _ => ?_
                  exact prompt_raise trivial
                exact hfailed st' w' trivial
            | _ => exact ho
          · trivial
      · exact prompt_bind hread fun st => ends_pure trivial

end Prompt

/-! ## Lockstep -/

/-- An environment in which sending, waiting and closing never fail, and in which it makes no
difference whether a socket or a stream is written to and closed. -/
structure Faultless {W : Type} (h : Handler ftp W) : Prop where
  sendall : ∀ w {ch} (s : Sock ch) b, h w (.sendall s b) = (.ok (), (h w (.write s b)).2)
  drain : ∀ w {ch} (s : Sock ch), h w (.drain s) = (.ok (), w)
  wait : ∀ w {ch} (s : Sock ch), h w (.wait s) = (.ok (), w)
  close : ∀ w {ch} (s : Sock ch), h w (.close s) = (.ok (), (h w (.closeWriter s)).2)
  waitClosed : ∀ w {ch} (s : Sock ch), h w (.waitClosed s) = (.ok (), w)

theorem faultless_serving {S : Type} (m : Server S) : Faultless (serving m) where
  sendall _ _ _ _ := rfl
  drain _ _ _ := rfl
  wait _ _ _ := rfl
  close _ _ _ := rfl
  waitClosed _ _ _ := rfl

section Sockets

variable {W : Type} {h : Handler ftp W} (hf : Faultless h)

include hf

theorem run_send_eq {ch : Chan} (s : Sock ch) (b : Bytes) :
    (Sync.FTPBlob.dialect.send s b).run h = (Aio.FTPBlob.dialect.send s b).run h := by
  funext st w
  show (Program.call (.sendall s b) raiseOnError : FtpProg Unit).run h st w =
    (Program.call (.write s b) fun _ => .call (.drain s) raiseOnError : FtpProg Unit).run h st w
  simp only [Program.run, hf.sendall, hf.drain]

theorem run_recv_eq {ch : Chan} (s : Sock ch) :
    (Sync.FTPBlob.dialect.recv s).run h = (Aio.FTPBlob.dialect.recv s).run h := by
  funext st w
  show _ = (Program.call (.wait s) fun r => (raiseOnError r).bind fun _ =>
    .call (.recv s) raiseOnError : FtpProg Bytes).run h st w
  rw [Program.run, hf.wait]
  rfl

theorem run_closeSock_eq {ch : Chan} (s : Sock ch) :
    (Sync.FTPBlob.closeSock s).run h = (Aio.FTPBlob.closeConn s).run h := by
  funext st w
  show (suppressOSError (.call (.close s) raiseOnError)).run h st w =
    (Program.call (.closeWriter s) fun _ => .call (.waitClosed s) raiseOnError : FtpProg Unit).run h
      st w
  unfold suppressOSError
  simp only [Program.tryCatch, Program.run, hf.close, hf.waitClosed, raiseOnError]

/-- There is nothing to suppress. -/
theorem run_closeData_eq (s : Sock .data) :
    (Sync.FTPBlob.dialect.closeData s).run h = (Aio.FTPBlob.dialect.closeData s).run h := by
  refine run_bind_congr rfl fun _ => (run_closeSock_eq hf s).trans ?_
  funext st w
  show (Program.call (.closeWriter s) fun _ => .call (.waitClosed s) raiseOnError : FtpProg Unit).run h
    st w = (suppressOSError (.call (.closeWriter s) fun _ => .call (.waitClosed s) raiseOnError)).run h
      st w
  unfold suppressOSError
  simp only [Program.tryCatch, Program.run, hf.waitClosed, raiseOnError]

theorem prompt_send (s : Sock .control) (b : Bytes) : Prompt h (Sync.FTPBlob.dialect.send s b) := by
  intro st w _
  show wp h (.call (.sendall s b) raiseOnError : FtpProg Unit) _ st w
  rw [wp_call, hf.sendall]
  exact ⟨trivial, trivial⟩

theorem prompt_dropConn (s : Sock .control) : Prompt h (Sync.FTPBlob.dialect.dropConn s) := by
  intro st w _
  show wp h (suppressOSError (.call (.close s) raiseOnError)) _ st w
  unfold suppressOSError
  rw [wp_tryCatch, wp_call, hf.close]
  exact ⟨trivial, trivial⟩

end Sockets

section Lockstep

variable {W : Type} {h : Handler ftp W} {fuel : Nat}
  {conn conn' : FtpProg (Option (Sock .control))} (hf : Faultless h)
  (hconn : conn.run h = conn'.run h)

include hf hconn

theorem run_readResponse_eq :
    (readResponse Sync.FTPBlob.dialect fuel conn).run h =
      (readResponse Aio.FTPBlob.dialect fuel conn').run h := by
  have hreceive : (receive Sync.FTPBlob.dialect conn).run h =
      (receive Aio.FTPBlob.dialect conn').run h := by
    refine run_tryCatch_congr (run_bind_congr hconn fun s => ?_) fun _ => rfl
    cases s with
    | none => rfl
    | some s => exact run_recv_eq hf s
  have hloop : ∀ n, (readLineLoop Sync.FTPBlob.dialect conn n).run h =
      (readLineLoop Aio.FTPBlob.dialect conn' n).run h := by
    intro n
    induction n with
    | zero => rfl
    | succ n ih =>
        refine run_bind_congr rfl fun st => ?_
        cases cutLine st.responseBuffer with
        | some cut => rfl
        | none =>
            refine run_bind_congr hreceive fun data => run_ite_congr (fun _ => rfl) fun _ => ?_
            exact run_bind_congr rfl fun _ => ih
  have hline : (readLine Sync.FTPBlob.dialect fuel conn).run h =
      (readLine Aio.FTPBlob.dialect fuel conn').run h := hloop fuel
  have hmore : ∀ first n lines,
      (moreLines Sync.FTPBlob.dialect fuel conn first n lines).run h =
        (moreLines Aio.FTPBlob.dialect fuel conn' first n lines).run h := by
    intro first n
    induction n with
    | zero => exact fun _ => rfl
    | succ n ih =>
        intro lines
        refine run_bind_congr hline fun line => run_ite_congr (fun _ => rfl) fun _ => ih _
  refine run_bind_congr hline fun first => run_ite_congr (fun _ => rfl) fun _ => ?_
  refine run_bind_congr rfl fun code => run_ite_congr (fun _ => ?_) fun _ => rfl
  exact run_bind_congr (hmore _ _ _) fun _ => rfl

theorem run_expect_eq (code : Int) :
    (expect Sync.FTPBlob.dialect fuel conn code).run h =
      (expect Aio.FTPBlob.dialect fuel conn' code).run h :=
  run_bind_congr (run_readResponse_eq hf hconn) fun _ => rfl

variable (hprompt : Prompt h conn)

include hprompt

theorem run_cmd_eq (c : Str) :
    (cmd Sync.FTPBlob.dialect fuel conn c).run h =
      (cmd Aio.FTPBlob.dialect fuel conn' c).run h := by
  refine run_bind_congr ?_ fun _ => run_bind_congr (run_readResponse_eq hf hconn) fun _ => rfl
  refine run_tryCatch_congr_of (φ := NoTimeout) (run_bind_congr hconn fun s => ?_) ?_ ?_
  · cases s with
    | none => rfl
    | some s => exact run_bind_congr rfl fun _ => run_send_eq hf s _
  · intro st w
    refine wp_mono (prompt_bind hprompt (fun s => ?_) st w trivial) ?_
    · cases s with
      | none => exact prompt_raise trivial
      | some s => exact prompt_bind (fun _ _ _ => ⟨trivial, trivial⟩) fun _ => prompt_send hf s _
    · rintro o _ _ ho e rfl
      exact ho
  · intro e he
    cases e with
    | ioError e => cases e <;> first | rfl | exact he.elim
    | _ => rfl

end Lockstep

/-- Commands and replies run alike in the two classes. -/
structure Parallel {W : Type} (h : Handler ftp W) (fuel : Nat)
    (conn conn' : FtpProg (Option (Sock .control))) : Prop where
  faultless : Faultless h
  cmd : ∀ c, (cmd Sync.FTPBlob.dialect fuel conn c).run h =
    (FTPBlob.cmd Aio.FTPBlob.dialect fuel conn' c).run h
  expect : ∀ code, (expect Sync.FTPBlob.dialect fuel conn code).run h =
    (FTPBlob.expect Aio.FTPBlob.dialect fuel conn' code).run h

variable {W : Type} {h : Handler ftp W} {fuel : Nat}
  {conn conn' : FtpProg (Option (Sock .control))}

theorem alike_of_run_eq (hf : Faultless h) (hconn : conn.run h = conn'.run h)
    (hprompt : Prompt h conn) : Parallel h fuel conn conn' where
  faultless := hf
  cmd := run_cmd_eq hf hconn hprompt
  expect := run_expect_eq hf hconn

section Parallel

variable (hc : Parallel h fuel conn conn')

include hc

theorem run_cmdExpect_eq (c : Str) (want : Int) (msg : String) :
    (cmdExpect Sync.FTPBlob.dialect fuel conn c want msg).run h =
      (cmdExpect Aio.FTPBlob.dialect fuel conn' c want msg).run h :=
  run_bind_congr (hc.cmd c) fun _ => rfl

theorem run_login_eq (b : FTPBlob) :
    (login Sync.FTPBlob.dialect fuel conn b).run h =
      (login Aio.FTPBlob.dialect fuel conn' b).run h := by
  refine run_bind_congr (hc.expect _) fun _ => ?_
  refine run_bind_congr (run_bind_congr (hc.cmd _) fun r => ?_) fun code => ?_
  · exact run_ite_congr (fun _ => run_bind_congr (hc.cmd _) fun _ => rfl) fun _ => rfl
  · refine run_ite_congr (fun _ => rfl) fun _ => ?_
    refine run_bind_congr ?_ fun _ => run_cmdExpect_eq hc _ _ _
    exact run_ite_congr (fun _ => rfl) fun _ => run_cmdExpect_eq hc _ _ _

/-! ### Transfers -/

theorem run_getPassive_eq :
    (getPassive Sync.FTPBlob.dialect fuel conn).run h =
      (getPassive Aio.FTPBlob.dialect fuel conn').run h :=
  run_bind_congr (hc.cmd _) fun _ => rfl

theorem run_dataFailed_eq {α : Type} (e : PyExc) :
    (dataFailed Sync.FTPBlob.dialect fuel conn e : FtpProg α).run h =
      (dataFailed Aio.FTPBlob.dialect fuel conn' e : FtpProg α).run h := by
  have hexpect : (suppressBlobError (expect Sync.FTPBlob.dialect fuel conn transferDone)).run
        h =
      (suppressBlobError (expect Aio.FTPBlob.dialect fuel conn' transferDone)).run h :=
    run_tryCatch_congr (hc.expect _) fun _ => rfl
  cases e with
  | ioError e =>
      cases e with
      | runtime e => rfl
      | _ => exact run_bind_congr hexpect fun _ => rfl
  | _ => rfl

theorem run_recvAll_eq (sock : Sock .data) (n : Nat) (chunks : List Bytes) :
    (recvAll Sync.FTPBlob.dialect fuel conn sock n chunks).run h =
      (recvAll Aio.FTPBlob.dialect fuel conn' sock n chunks).run h := by
  induction n generalizing chunks with
  | zero => rfl
  | succ n ih =>
      refine run_bind_congr (run_tryCatch_congr (run_recv_eq hc.faultless sock) (run_dataFailed_eq hc))
        fun data => ?_
      exact run_ite_congr (fun _ => rfl) fun _ => ih _

theorem run_pasvCmd_eq (c : Str) :
    (pasvCmd Sync.FTPBlob.dialect fuel conn c).run h =
      (pasvCmd Aio.FTPBlob.dialect fuel conn' c).run h := by
  refine run_bind_congr (run_getPassive_eq hc) fun sock => run_bind_congr ?_ fun _ => rfl
  refine run_tryFinally_congr (run_bind_congr (hc.cmd c) fun r => ?_)
    (run_closeData_eq hc.faultless sock)
  refine run_ite_congr (fun _ => rfl) fun _ => run_ite_congr (fun _ => rfl) fun _ => ?_
  refine run_bind_congr (run_recvAll_eq hc sock fuel []) fun chunks => ?_
  exact run_bind_congr (hc.expect _) fun _ => rfl

theorem run_put_eq (key : Str) (data : Bytes) :
    (put Sync.FTPBlob.dialect fuel conn key data).run h =
      (put Aio.FTPBlob.dialect fuel conn' key data).run h := by
  refine run_bind_congr ?_ fun _ => run_bind_congr (run_getPassive_eq hc) fun sock => ?_
  · exact run_forEach_congr fun dir _ => run_bind_congr (hc.cmd _) fun _ => rfl
  · refine run_bind_congr (run_tryFinally_congr ?_ (run_closeData_eq hc.faultless sock))
      fun _ => hc.expect _
    refine run_bind_congr (hc.cmd _) fun r => run_ite_congr (fun _ => rfl) fun _ => ?_
    exact run_tryCatch_congr (run_send_eq hc.faultless sock data) (run_dataFailed_eq hc)

theorem run_delete_eq (key : Str) :
    (delete Sync.FTPBlob.dialect fuel conn key).run h =
      (delete Aio.FTPBlob.dialect fuel conn' key).run h :=
  run_bind_congr (hc.cmd _) fun _ => rfl

theorem run_features_eq :
    (features Sync.FTPBlob.dialect fuel conn).run h =
      (features Aio.FTPBlob.dialect fuel conn').run h := by
  refine run_bind_congr rfl fun st => ?_
  cases st.features with
  | some f => rfl
  | none => exact run_bind_congr (hc.cmd _) fun _ => rfl

theorem run_sizeAnswer_eq (f : FTPFeatures) (key : Str) :
    (sizeAnswer Sync.FTPBlob.dialect fuel conn f key).run h =
      (sizeAnswer Aio.FTPBlob.dialect fuel conn' f key).run h :=
  run_ite_congr (fun _ => run_bind_congr (hc.cmd _) fun _ => rfl) fun _ => rfl

theorem run_mlstAnswer_eq (f : FTPFeatures) (key : Str) :
    (mlstAnswer Sync.FTPBlob.dialect fuel conn f key).run h =
      (mlstAnswer Aio.FTPBlob.dialect fuel conn' f key).run h :=
  run_ite_congr (fun _ => run_bind_congr (hc.cmd _) fun _ => rfl) fun _ => rfl

/-! ### Listings -/

theorem matches_listDir (verb : Str) (parser : Bytes → Except PyExc (Str × Bool))
    (rest : List Str) (path : Str) :
    Matches h (listDir Sync.FTPBlob.dialect fuel conn verb parser rest path)
      (listDir Aio.FTPBlob.dialect fuel conn' verb parser rest path) := by
  have hdata : ∀ path, (listData Sync.FTPBlob.dialect fuel conn verb path).run h =
      (listData Aio.FTPBlob.dialect fuel conn' verb path).run h := fun path =>
    run_tryCatch_congr (run_bind_congr (run_pasvCmd_eq hc _) fun _ => rfl) fun _ => rfl
  induction rest generalizing path with
  | nil =>
      unfold listDir
      refine matches_embed_bind (hdata _) fun data => ?_
      cases data with
      | none => exact matches_refl _
      | some data => exact matches_forEach fun line _ => matches_refl _
  | cons part rest ih =>
      unfold listDir
      refine matches_embed_bind (hdata _) fun data => ?_
      cases data with
      | none => exact matches_refl _
      | some data =>
          refine matches_forEach fun line _ => ?_
          cases parser line with
          | error e => exact matches_refl _
          | ok entry =>
              obtain ⟨name, isDir⟩ := entry
              refine matches_ite (fun _ => ?_) fun _ => matches_refl _
              exact matches_ite (fun _ => ih _) fun _ => matches_refl _

theorem matches_scan (pre : Str) :
    Matches h (scan Sync.FTPBlob.dialect fuel conn pre)
      (scan Aio.FTPBlob.dialect fuel conn' pre) := by
  refine matches_embed_bind (run_features_eq hc) fun f => ?_
  exact matches_ite (fun _ => matches_listDir hc _ _ _ _) fun _ => matches_listDir hc _ _ _ _

theorem run_exists_eq (key : Str) :
    (FTPBlob.exists' Sync.FTPBlob.dialect fuel conn key).run h =
      (FTPBlob.exists' Aio.FTPBlob.dialect fuel conn' key).run h := by
  refine run_bind_congr (run_features_eq hc) fun f => ?_
  refine run_bind_congr (run_sizeAnswer_eq hc f key) fun answer => ?_
  cases answer with
  | some found => rfl
  | none =>
      refine run_bind_congr (run_mlstAnswer_eq hc f key) fun answer => ?_
      cases answer with
      | some found => rfl
      | none => exact (matches_scan hc key).2 _

end Parallel

/-! ## Connecting and every call -/

section Faultless

variable (hf : Faultless h)

include hf

theorem prompt_sync_connection (b : FTPBlob) (fuel depth : Nat) :
    Prompt h (connection Sync.FTPBlob.dialect b fuel depth) := by
  have hsend : ∀ e, Sync.FTPBlob.dialect.sendError (.timeout e) ≠ none := by
    intro e
    simp [Sync.FTPBlob.dialect]
  exact prompt_connection hsend (prompt_dropConn hf) b depth

/-- A login that fails is the only place where a connection is dropped. -/
theorem run_connection_eq (b : FTPBlob) (fuel depth : Nat) :
    (connection Sync.FTPBlob.dialect b fuel depth).run h =
      (connection Aio.FTPBlob.dialect b fuel depth).run h := by
  induction depth with
  | zero => rfl
  | succ depth ih =>
      have hc : Parallel h fuel (connection Sync.FTPBlob.dialect b fuel depth)
          (connection Aio.FTPBlob.dialect b fuel depth) :=
        alike_of_run_eq hf ih (prompt_sync_connection hf b fuel depth)
      refine run_bind_congr rfl fun st => run_bind_congr ?_ fun _ => rfl
      cases st.conn with
      | some s => rfl
      | none =>
          refine run_bind_congr rfl fun s => run_bind_congr rfl fun _ => ?_
          refine run_tryCatch_congr (run_login_eq hc b) fun e => ?_
          cases e with
          | blobError msg =>
              refine run_bind_congr (run_bind_congr rfl fun st => ?_) fun _ => rfl
              cases st.conn with
              | none => rfl
              | some s => exact run_closeSock_eq hf s
          | _ => rfl

theorem run_perform_eq (b : FTPBlob) (fuel : Nat) {c : Call} (hc : c ≠ .close) :
    ((Flavour.sync.backend b fuel).perform c).run h =
      ((Flavour.aio.backend b fuel).perform c).run h := by
  have hconn : (Flavour.sync.connection b fuel).run h =
      (Flavour.aio.connection b fuel).run h := run_connection_eq hf b fuel fuel
  have hparallel : Parallel h fuel (Flavour.sync.connection b fuel) (Flavour.aio.connection b fuel) :=
    alike_of_run_eq hf hconn (prompt_sync_connection hf b fuel fuel)
  cases c with
  | open' => exact run_bind_congr (run_bind_congr hconn fun _ => rfl) fun _ => rfl
  | close => exact absurd rfl hc
  | put key data => exact run_bind_congr (run_put_eq hparallel key data) fun _ => rfl
  | get key => exact run_bind_congr (run_pasvCmd_eq hparallel _) fun _ => rfl
  | delete key => exact run_bind_congr (run_delete_eq hparallel key) fun _ => rfl
  | exists' key => exact run_bind_congr (run_exists_eq hparallel key) fun _ => rfl
  | scan pre => exact run_bind_congr (matches_scan hparallel pre).1 fun _ => rfl

end Faultless

/-! ## The texts and the shared definitions -/

section Texts

/-- The branches of the sync class are those of `listDir`. -/
theorem listDirBy_entry (d : Dialect) (fuel : Nat) (conn : FtpProg (Option (Sock .control)))
    (verb : Str) (parser : Bytes → Except PyExc (Str × Bool)) (rest : List Str) (path : Str) :
    listDirBy Sync.FTPBlob.entry d fuel conn verb parser rest path =
      listDir d fuel conn verb parser rest path := by
  induction rest generalizing path with
  | nil =>
      unfold listDirBy listDir
      refine congrArg (Program.bind _) (funext fun data => ?_)
      cases data with
      | none => rfl
      | some data =>
          refine congrArg (Program.forEach _) (funext fun line => ?_)
          refine congrArg (Program.bind _) (funext fun entry => ?_)
          obtain ⟨name, isDir⟩ := entry
          cases isDir <;> rfl
  | cons part rest ih =>
      unfold listDirBy listDir
      refine congrArg (Program.bind _) (funext fun data => ?_)
      cases data with
      | none => rfl
      | some data =>
          refine congrArg (Program.forEach _) (funext fun line => ?_)
          refine congrArg (Program.bind _) (funext fun entry => ?_)
          obtain ⟨name, isDir⟩ := entry
          dsimp only
          by_cases hname : name = part
          · subst hname
            cases isDir <;> simp [Sync.FTPBlob.entry, ih]
          · have hpart : part ≠ name := Ne.symm hname
            simp [Sync.FTPBlob.entry, hname, hpart]

theorem scanBy_entry (d : Dialect) (fuel : Nat) (conn : FtpProg (Option (Sock .control)))
    (pre : Str) : scanBy Sync.FTPBlob.entry d fuel conn pre = scan d fuel conn pre := by
  unfold scanBy scan
  simp only [listDirBy_entry]

variable {W : Type} {h : Handler ftp W}

/-- What is known of the features does not change. -/
abbrev KeepsFeatures (h : Handler ftp W) (f : Option FTPFeatures) {α : Type} (p : FtpProg α) : Prop :=
  Preserves h (fun st _ => st.features = f) p

variable {d : Dialect} {fuel : Nat} {b : FTPBlob}

theorem keepsFeatures_sockets (h : Handler ftp W) (f : Option FTPFeatures) :
    Sockets (KeepsFeatures h f) where
  toCompositional := preserves_compositional _ _
  call _ _ _ hk := preserves_call (fun _ _ hf => hf) hk

theorem keepsFeatures_commands {fl : Flavour} {f : Option FTPFeatures}
    {conn : FtpProg (Option (Sock .control))} (hconn : KeepsFeatures h f conn) :
    Commands (KeepsFeatures h f) fl.dialect conn fun _ => True where
  toCompositional := preserves_compositional _ _
  connection := hconn
  read := preserves_read
  setBuffer _ := preserves_modify fun _ _ hf => hf
  appendBuffer _ := preserves_modify fun _ _ hf => hf
  recv s := recv_of (keepsFeatures_sockets h f) fl s
  transmit s c _ := by
    apply preserves_bind (preserves_perform fun _ _ hf => hf)
    intro _
    cases fl with
    | sync => exact preserves_call (fun _ _ hf => hf) (raiseOnError_of (keepsFeatures_sockets h f))
    | aio =>
        apply preserves_call (fun _ _ hf => hf)
        exact fun _ => preserves_call (fun _ _ hf => hf)
          (raiseOnError_of (keepsFeatures_sockets h f))
  answered _ _ _ := preserves_perform fun _ _ hf => hf

theorem keepsFeatures_connection {fl : Flavour} {f : Option FTPFeatures} (depth : Nat) :
    KeepsFeatures h f (connection fl.dialect b fuel depth) :=
  connection_of (preserves_compositional _ _) (fun _ hconn => keepsFeatures_commands hconn)
    (fun _ _ => trivial) (preserves_perform fun _ _ hf => hf)
    (fun _ => preserves_modify fun _ _ hf => hf)
    (dropConn_of (keepsFeatures_sockets h f) fl) depth

theorem keepsFeatures_sizeAnswer {f : FTPFeatures} (f' : FTPFeatures) (key : Str) :
    KeepsFeatures h (some f)
      (sizeAnswer Sync.FTPBlob.dialect fuel (Flavour.sync.connection b fuel) f' key) := by
  have hcommands : Commands (KeepsFeatures h (some f)) Flavour.sync.dialect
      (Flavour.sync.connection b fuel) fun _ => True :=
    keepsFeatures_commands (keepsFeatures_connection fuel)
  unfold sizeAnswer
  split
  · apply preserves_bind (cmd_of hcommands trivial)
    intro r
    dsimp only
    split
    · exact preserves_pure _
    · split <;> exact preserves_pure _
  · exact preserves_pure _

/-- `features` returns what it caches. -/
theorem wp_features_cached (conn : FtpProg (Option (Sock .control))) (st : State) (w : W) :
    wp h (features d fuel conn) (fun o st _ => ∀ f, o = .ok f → st.features = some f) st w := by
  unfold features
  rw [bind_eq, wp_bind, wp_read, bindPost_ok]
  split
  · next f hst => exact fun f' hf => hst.trans (congrArg some (Outcome.ok.inj hf))
  · rw [bind_eq, wp_bind]
    apply wp_mono (Q := fun _ _ _ => True) trivial
    rintro (r | e | _) st' w' -
    · rw [bindPost_ok]
      dsimp only
      rw [bind_eq, wp_bind, wp_ofExcept]
      split
      · rw [bindPost_ok, bind_eq, wp_bind, wp_setFeatures]
        exact fun f' hf => congrArg some (Outcome.ok.inj hf)
      · simp
    · simp
    · simp

theorem run_features_known {conn : FtpProg (Option (Sock .control))} {f : FTPFeatures} {st : State}
    (hst : st.features = some f) (w : W) : (features d fuel conn).run h st w = (.ok f, st, w) := by
  unfold features
  simp [Program.read, Program.bind, Program.run, hst]

/-- A property that is cached may as well be read once. -/
theorem run_exists_sync (key : Str) :
    (Sync.FTPBlob.exists' fuel (Flavour.sync.connection b fuel) key).run h =
      (exists' Sync.FTPBlob.dialect fuel (Flavour.sync.connection b fuel) key).run h := by
  funext st w
  unfold Sync.FTPBlob.exists' exists'
  rw [scanBy_entry]
  apply run_bind_congr_at
  apply wp_mono (wp_features_cached _ st w)
  intro o st₁ w₁ hst₁ f ho
  apply run_bind_congr_at
  apply wp_mono (keepsFeatures_sizeAnswer f key st₁ w₁ (hst₁ f ho))
  intro _ st₂ w₂ hst₂ answer _
  cases answer with
  | some found => rfl
  | none =>
      dsimp only
      rw [bind_eq, run_bind]
      exact Denotation.andThen_ok (run_features_known hst₂ w₂) _

/-- The sync class runs like the shared definitions, in every environment. -/
theorem run_backend_sync (b : FTPBlob) (fuel : Nat) (h : Handler ftp W) (c : Call) :
    ((Sync.FTPBlob.backend b fuel).perform c).run h =
      ((Flavour.sync.backend b fuel).perform c).run h := by
  cases c with
  | exists' key => exact run_bind_congr (run_exists_sync key) fun _ => rfl
  | scan pre =>
      show (((scanBy Sync.FTPBlob.entry _ _ _ pre).collect).bind _).run h = _
      rw [scanBy_entry]
      rfl
  | _ => rfl

theorem exists_aio (conn : FtpProg (Option (Sock .control))) (key : Str) :
    Aio.FTPBlob.exists' fuel conn key = exists' Aio.FTPBlob.dialect fuel conn key := by
  unfold Aio.FTPBlob.exists'
  rw [← entry_eq, scanBy_entry]
  rfl

/-- The async class is the shared definitions. -/
theorem backend_aio (b : FTPBlob) (fuel : Nat) :
    Aio.FTPBlob.backend b fuel = Flavour.aio.backend b fuel := by
  have hexists : Aio.FTPBlob.exists' fuel (Flavour.aio.connection b fuel) =
      exists' Aio.FTPBlob.dialect fuel (Flavour.aio.connection b fuel) :=
    funext (exists_aio _)
  have hscan : scanBy Aio.FTPBlob.entry Aio.FTPBlob.dialect fuel (Flavour.aio.connection b fuel) =
      scan Aio.FTPBlob.dialect fuel (Flavour.aio.connection b fuel) := by
    rw [← entry_eq]
    exact funext (scanBy_entry _ _ _)
  unfold Aio.FTPBlob.backend
  dsimp only
  rw [hexists, hscan]
  rfl

end Texts

/-- The two classes run alike in every environment without faults. -/
theorem run_backend_eq {W : Type} {h : Handler ftp W} (hf : Faultless h) (b : FTPBlob) (fuel : Nat)
    {c : Call} (hc : c ≠ .close) :
    ((Sync.FTPBlob.backend b fuel).perform c).run h =
      ((Aio.FTPBlob.backend b fuel).perform c).run h := by
  rw [run_backend_sync, backend_aio]
  exact run_perform_eq hf b fuel hc

end FTPBlob

end GufoBlob
