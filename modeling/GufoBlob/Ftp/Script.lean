import GufoBlob.Ftp.Rules
import GufoBlob.Ftp.Transcript

/-!
# A scripted server

The environment that runs of an `FTPBlob` on given replies use: every connection is accepted, every
octet sent is taken, each `recv` on a control connection delivers the next part of the script, and
the end of the script is the end of the file. A data connection delivers nothing.

`wp_cmd_scripted` is the rule for a command that is answered by one line.
-/

namespace GufoBlob.Ftp

open Text Interaction Program FTPBlob

/-- The server that sends what is written in the script. -/
def scripted : Handler ftp (List Bytes)
  | l, .connect _ _ _ => (.ok ⟨0⟩, l)
  | l, .sendall _ _ => (.ok (), l)
  | l, .write _ _ => ((), l)
  | l, .drain _ => (.ok (), l)
  | l, .wait _ => (.ok (), l)
  | x :: l, @FtpOp.recv .control _ => (.ok x, l)
  | l, .recv _ => (.ok [], l)
  | l, .shutdown _ => (.ok (), l)
  | l, .close _ => (.ok (), l)
  | l, .closeWriter _ => ((), l)
  | l, .waitClosed _ => (.ok (), l)
  | l, .asked _ _ => ((), l)
  | l, .answered _ _ _ => ((), l)

/-- The line is a complete reply with the code `code`. -/
structure ReplyLine (code : Int) (line : Bytes) : Prop where
  noBreak : ¬ HasCrlf line
  length : minFtpResponse ≤ line.length
  single : (line.drop 3).take 1 ≠ [45]
  code : bytesToIntRange (line.take 3) 0 999 = .ok code

variable {fl : Flavour} {fuel : Nat} {conn : FtpProg (Option (Sock .control))} {s : Sock .control}
  {st : State} {l : List Bytes} {next : Nat} {log : List Event}

theorem wp_recv_scripted (Q : Outcome PyExc Bytes → State → Transcript (List Bytes) → Prop)
    (x : Bytes) :
    wp (recording scripted) (fl.dialect.recv s) Q st ⟨x :: l, next, log⟩ ↔
      Q (.ok x) st ⟨l, next, log⟩ := by
  cases fl <;> simp [Flavour.dialect, Sync.FTPBlob.dialect, Aio.FTPBlob.dialect, recording, events,
    scripted, raised]

theorem wp_send_scripted {ch : Chan} {s : Sock ch} (b : Bytes)
    (Q : Outcome PyExc Unit → State → Transcript (List Bytes) → Prop) :
    wp (recording scripted) (fl.dialect.send s b) Q st ⟨l, next, log⟩ ↔
      Q (.ok ()) st ⟨l, next, log ++ [.sent ch s.id b]⟩ := by
  cases fl <;> simp [Flavour.dialect, Sync.FTPBlob.dialect, Aio.FTPBlob.dialect, recording, events,
    scripted, raised]

section Held

variable (hconn : Holds (recording scripted) conn s) (hst : st.conn = some s)

include hconn hst

/-- Reading a line that the next part of the script completes. -/
theorem wp_readLine_scripted {line x rest : Bytes} (hnone : cutLine st.responseBuffer = none)
    (hx : x ≠ []) (hline : cutLine (st.responseBuffer ++ x) = some (line, rest))
    (Q : Outcome PyExc Bytes → State → Transcript (List Bytes) → Prop) :
    wp (recording scripted) (readLine fl.dialect (fuel + 2) conn) Q st ⟨x :: l, next, log⟩ ↔
      Q (.ok line) { st with responseBuffer := rest } ⟨l, next, log⟩ := by
  unfold readLine readLineLoop readLineLoop receive
  simp [hnone, hconn _ st _ hst, wp_recv_scripted, hx, hline]

/-- A reply of one line that is the next part of the script. -/
theorem wp_readResponse_scripted (hbuf : st.responseBuffer = []) {code : Int} {line : Bytes}
    (hline : ReplyLine code line)
    (Q : Outcome PyExc (Int × List Bytes) → State → Transcript (List Bytes) → Prop) :
    wp (recording scripted) (readResponse fl.dialect (fuel + 2) conn) Q st
        ⟨(line ++ crlf) :: l, next, log⟩ ↔
      Q (.ok (code, [line])) st ⟨l, next, log⟩ := by
  obtain ⟨hno, hlen, hsingle, hcode⟩ := hline
  have hcut : cutLine (st.responseBuffer ++ (line ++ crlf)) = some (line, []) := by
    rw [hbuf, List.nil_append, ← List.append_nil (line ++ crlf)]
    exact cutLine_frame hno []
  have hnone : cutLine st.responseBuffer = none := by rw [hbuf]; rfl
  have hne : line ++ crlf ≠ [] := by simp [crlf]
  have hst' : { st with responseBuffer := [] } = st := by rw [← hbuf]
  unfold readResponse
  simp [wp_readLine_scripted hconn hst hnone hne hcut, Nat.not_lt.mpr hlen, hcode, hsingle, hst']

/-- A command before its reply is read. -/
theorem wp_sendCmd_scripted (c : Str)
    (Q : Outcome PyExc Unit → State → Transcript (List Bytes) → Prop) :
    wp (recording scripted) (sendCmd fl.dialect conn c) Q st ⟨l, next, log⟩ ↔
      Q (.ok ()) st
        ⟨l, next, log ++ [.asked s.id c] ++ [.sent .control s.id (encode c ++ crlf)]⟩ := by
  unfold sendCmd
  simp [hconn _ st _ hst, wp_send_scripted, recording, events, scripted]

/-- A command that the next part of the script answers with one line. -/
theorem wp_cmd_scripted (hbuf : st.responseBuffer = []) {code : Int} {line : Bytes}
    (hline : ReplyLine code line) (c : Str)
    (Q : Outcome PyExc (Int × List Bytes) → State → Transcript (List Bytes) → Prop) :
    wp (recording scripted) (cmd fl.dialect (fuel + 2) conn c) Q st
        ⟨(line ++ crlf) :: l, next, log⟩ ↔
      Q (.ok (code, [line])) st
        ⟨l, next, log ++ [.asked s.id c] ++ [.sent .control s.id (encode c ++ crlf)]⟩ := by
  unfold cmd
  simp [wp_sendCmd_scripted hconn hst, wp_readResponse_scripted hconn hst hbuf hline, recording,
    events, scripted]

theorem wp_expect_scripted (hbuf : st.responseBuffer = []) {code : Int} {line : Bytes}
    (hline : ReplyLine code line)
    (Q : Outcome PyExc Unit → State → Transcript (List Bytes) → Prop) :
    wp (recording scripted) (expect fl.dialect (fuel + 2) conn code) Q st
        ⟨(line ++ crlf) :: l, next, log⟩ ↔
      Q (.ok ()) st ⟨l, next, log⟩ := by
  unfold expect
  simp [wp_readResponse_scripted hconn hst hbuf hline]

theorem wp_cmdExpect_scripted (hbuf : st.responseBuffer = []) {code : Int} {line : Bytes}
    (hline : ReplyLine code line) (c : Str) (msg : String)
    (Q : Outcome PyExc Unit → State → Transcript (List Bytes) → Prop) :
    wp (recording scripted) (cmdExpect fl.dialect (fuel + 2) conn c code msg) Q st
        ⟨(line ++ crlf) :: l, next, log⟩ ↔
      Q (.ok ()) st
        ⟨l, next, log ++ [.asked s.id c] ++ [.sent .control s.id (encode c ++ crlf)]⟩ := by
  unfold cmdExpect
  simp [wp_cmd_scripted hconn hst hbuf hline]

end Held

/-! ## Logging in -/

def line (text : String) : Bytes := encode text.toList

/-- A reply line, checked by evaluation. -/
theorem replyLine_of_decide {code : Int} {l : Bytes}
    (h : (!decide (HasCrlf l) && decide (minFtpResponse ≤ l.length) &&
      decide ((l.drop 3).take 1 ≠ [45]) &&
      decide (bytesToIntRange (l.take 3) 0 999 = .ok code)) = true) : ReplyLine code l := by
  simp only [Bool.and_eq_true, Bool.not_eq_true', decide_eq_false_iff_not, decide_eq_true_eq] at h
  obtain ⟨⟨⟨h₁, h₂⟩, h₃⟩, h₄⟩ := h
  exact ⟨h₁, h₂, h₃, h₄⟩

theorem replyLine_ready : ReplyLine ready (line "220 .") :=
  replyLine_of_decide (by decide)

theorem replyLine_userOk : ReplyLine userOk (line "331 .") :=
  replyLine_of_decide (by decide)

theorem replyLine_loginOk : ReplyLine loginOk (line "230 .") :=
  replyLine_of_decide (by decide)

theorem replyLine_actionOk : ReplyLine actionOk (line "250 .") :=
  replyLine_of_decide (by decide)

theorem replyLine_ok : ReplyLine ok (line "200 .") :=
  replyLine_of_decide (by decide)

theorem replyLine_created : ReplyLine created (line "257 .") :=
  replyLine_of_decide (by decide)

theorem replyLine_pasv : ReplyLine pasv (line "227 (1,1,1,1,1,1)") :=
  replyLine_of_decide (by decide)

/-- The default user on the host `h`. -/
def anonymous : FTPBlob :=
  .init ['h'] 21 "anonymous".toList "anonymous@".toList [] 3 none

/-- The replies of a server that accepts the user without a password. -/
def loginScript (b : FTPBlob) : List Bytes :=
  [line "220 ." ++ crlf, line "230 ." ++ crlf] ++
    (if b.root.isEmpty then [] else [line "250 ." ++ crlf]) ++ [line "200 ." ++ crlf]

theorem wp_authenticate_scripted (hconn : Holds (recording scripted) conn s)
    (hst : st.conn = some s) (hbuf : st.responseBuffer = []) {b : FTPBlob}
    (Q : Outcome PyExc Int → State → Transcript (List Bytes) → Prop) :
    wp (recording scripted) (authenticate fl.dialect (fuel + 2) conn b) Q st
        ⟨(line "230 ." ++ crlf) :: l, next, log⟩ ↔
      Q (.ok loginOk) st ⟨l, next, log ++ [.asked s.id b.userCmd] ++
        [.sent .control s.id (encode b.userCmd ++ crlf)]⟩ := by
  have hcode : (loginOk = userOk) = False := eq_false (by decide)
  unfold authenticate
  simp [wp_cmd_scripted hconn hst hbuf replyLine_loginOk, hcode]

/-- The login succeeds, and reads its script to the end. -/
theorem wp_login_scripted (hconn : Holds (recording scripted) conn s) (hst : st.conn = some s)
    (hbuf : st.responseBuffer = []) {b : FTPBlob}
    {Q : Outcome PyExc Unit → State → Transcript (List Bytes) → Prop}
    (hQ : ∀ log, Q (.ok ()) st ⟨l, next, log⟩) :
    wp (recording scripted) (login fl.dialect (fuel + 2) conn b) Q st
      ⟨loginScript b ++ l, next, log⟩ := by
  unfold login enterRoot loginScript
  by_cases hroot : b.root = []
  · simp [hroot, wp_expect_scripted hconn hst hbuf replyLine_ready,
      wp_authenticate_scripted hconn hst hbuf,
      wp_cmdExpect_scripted hconn hst hbuf replyLine_ok, hQ]
  · simp [hroot, wp_expect_scripted hconn hst hbuf replyLine_ready,
      wp_authenticate_scripted hconn hst hbuf,
      wp_cmdExpect_scripted hconn hst hbuf replyLine_actionOk,
      wp_cmdExpect_scripted hconn hst hbuf replyLine_ok, hQ]

/-! ## Features -/

/-- What a server answers to `FEAT` that knows `SIZE` and nothing else. -/
def featLines : List Bytes := [line "211-.", line " SIZE", line "211 ."]

def featReply : Bytes := featLines.flatMap frame

theorem cutLine_featReply :
    cutLine featReply = some (line "211-.", frame (line " SIZE") ++ frame (line "211 .")) := by
  decide

theorem cutLine_featRest :
    cutLine (frame (line " SIZE") ++ frame (line "211 .")) =
      some (line " SIZE", frame (line "211 .")) := by
  decide

theorem cutLine_featEnd : cutLine (frame (line "211 .")) = some (line "211 .", []) := by
  decide

theorem fromFeat_featLines : fromFeat featLines = .ok { supportsSize := true } := by
  decide

theorem wp_readResponse_feat (hconn : Holds (recording scripted) conn s)
    (hst : st.conn = some s) (hbuf : st.responseBuffer = [])
    (Q : Outcome PyExc (Int × List Bytes) → State → Transcript (List Bytes) → Prop) :
    wp (recording scripted) (readResponse fl.dialect (fuel + 2) conn) Q st
        ⟨featReply :: l, next, log⟩ ↔
      Q (.ok (status, featLines)) st ⟨l, next, log⟩ := by
  have hnone : cutLine st.responseBuffer = none := by rw [hbuf]; rfl
  have hne : featReply ≠ [] := by decide
  have hcut : cutLine (st.responseBuffer ++ featReply) =
      some (line "211-.", frame (line " SIZE") ++ frame (line "211 .")) := by
    rw [hbuf]
    exact cutLine_featReply
  have hcode : bytesToIntRange ((line "211-.").take 3) 0 999 = .ok status := by decide
  have hlen : ¬ (line "211-.").length < minFtpResponse := by decide
  have hmulti : ((line "211-.").drop 3).take 1 = [45] := by decide
  have hmiddle : endsReply (line "211-.") (line " SIZE") = false := by decide
  have hend : endsReply (line "211-.") (line "211 .") = true := by decide
  have hst' : { st with responseBuffer := [] } = st := by rw [← hbuf]
  unfold readResponse moreLines moreLines
  rw [bind_eq, wp_bind, wp_readLine_scripted hconn hst hnone hne hcut, bindPost_ok, if_neg hlen,
    bind_eq, wp_bind, wp_ofExcept, hcode, bindPost_ok, if_pos hmulti, bind_eq, wp_bind, bind_eq,
    wp_bind, wp_readLine_buffered cutLine_featRest, bindPost_ok, hmiddle, if_neg (by simp), bind_eq,
    wp_bind, wp_readLine_buffered cutLine_featEnd, bindPost_ok, hend, if_pos rfl, hst']
  rfl

theorem wp_features_scripted (hconn : Holds (recording scripted) conn s)
    (hst : st.conn = some s) (hbuf : st.responseBuffer = []) (hfeatures : st.features = none)
    {Q : Outcome PyExc FTPFeatures → State → Transcript (List Bytes) → Prop}
    (hQ : ∀ log, Q (.ok { supportsSize := true })
      { st with features := some { supportsSize := true } } ⟨l, next, log⟩) :
    wp (recording scripted) (features fl.dialect (fuel + 2) conn) Q st
      ⟨featReply :: l, next, log⟩ := by
  unfold features cmd
  simp only [bind_eq, wp_bind, wp_read, bindPost_ok, hfeatures, wp_sendCmd_scripted hconn hst,
    wp_readResponse_feat hconn hst hbuf, wp_answered, pure_eq, wp_pure, if_pos, fromFeat_featLines,
    wp_ofExcept, wp_setFeatures]
  exact hQ _

/-! ## Connecting -/

/-- Connecting succeeds at the first attempt. -/
theorem wp_tcpConnect_scripted {b : FTPBlob} (hb : 0 < b.retries)
    (Q : Outcome PyExc (Sock .control) → State → Transcript (List Bytes) → Prop) :
    wp (recording scripted) b.tcpConnect Q st ⟨l, next, log⟩ ↔
      Q (.ok ⟨next⟩) st ⟨l, next + 1, log ++ [.opened .control next]⟩ := by
  obtain ⟨n, hn⟩ : ∃ n, b.retries.toNat = n + 1 :=
    Nat.exists_eq_succ_of_ne_zero (by omega)
  unfold tcpConnect
  rw [hn]
  simp [attempts, recording, scripted]

/-- A new object opens a connection and logs in. -/
theorem wp_connection_scripted {b : FTPBlob} (hb : 0 < b.retries) {depth : Nat}
    (hst : st.conn = none) (hbuf : st.responseBuffer = [])
    {Q : Outcome PyExc (Option (Sock .control)) → State → Transcript (List Bytes) → Prop}
    (hQ : ∀ log, Q (.ok (some ⟨next⟩)) { st with conn := some ⟨next⟩ } ⟨l, next + 1, log⟩) :
    wp (recording scripted) (FTPBlob.connection fl.dialect b (fuel + 2) (depth + 2)) Q st
      ⟨loginScript b ++ l, next, log⟩ := by
  have hholds : Holds (recording scripted)
      (FTPBlob.connection fl.dialect b (fuel + 2) (depth + 1)) ⟨next⟩ :=
    connection_holds _ _ _ _ _
  unfold FTPBlob.connection connectAndLogin
  simp only [bind_eq, wp_bind, wp_read, bindPost_ok, hst, wp_tcpConnect_scripted hb, wp_setConn,
    wp_tryCatch]
  have hconnected : ({ st with conn := some ⟨next⟩ } : State).responseBuffer = [] := hbuf
  apply wp_login_scripted hholds rfl hconnected
  intro log
  simpa using hQ log

/-- A run that has opened the object, with the script `l` still to come. -/
theorem exists_run_connected {b : FTPBlob} (hb : 0 < b.retries) (n : Nat) (l : List Bytes) :
    ∃ log, Run scripted fl b (n + 2) { b.start with conn := some ⟨0⟩ } ⟨l, 1, log⟩ := by
  have hopen : wp (recording scripted) ((fl.backend b (n + 2)).perform .open')
      (fun o st t => o = .ok .none ∧ st = { b.start with conn := some ⟨0⟩ } ∧
        ∃ log, t = ⟨l, 1, log⟩) b.start (.fresh (loginScript b ++ l)) := by
    show wp _ (((fl.connection b (n + 2)).bind _).bind _) _ _ _
    rw [wp_bind, wp_bind]
    apply wp_connection_scripted hb rfl rfl
    exact fun log => ⟨rfl, rfl, log, rfl⟩
  obtain ⟨ho, hst, log, ht⟩ := hopen
  refine ⟨log, ?_⟩
  have hrun : Run scripted fl b (n + 2) _ _ :=
    .step .open' (.init ⟨rfl, loginScript b ++ l, rfl⟩) (by simp [ho])
  rwa [hst, ht] at hrun

/-! ## Data connections -/

theorem parsePasv_script : parsePasv (line "227 (1,1,1,1,1,1)") = .ok ("1.1.1.1".toList, 257) := by
  decide

theorem wp_getPassive_scripted (hconn : Holds (recording scripted) conn s)
    (hst : st.conn = some s) (hbuf : st.responseBuffer = [])
    {Q : Outcome PyExc (Sock .data) → State → Transcript (List Bytes) → Prop}
    (hQ : ∀ log, Q (.ok ⟨next⟩) st ⟨l, next + 1, log⟩) :
    wp (recording scripted) (getPassive fl.dialect (fuel + 2) conn) Q st
      ⟨(line "227 (1,1,1,1,1,1)" ++ crlf) :: l, next, log⟩ := by
  unfold getPassive
  rw [bind_eq, wp_bind, wp_cmd_scripted hconn hst hbuf replyLine_pasv, bindPost_ok]
  dsimp only
  rw [if_neg (by simp), bind_eq, wp_bind, wp_ofExcept, List.getLastD_cons, List.getLastD_nil,
    parsePasv_script, bindPost_ok, bind_eq, wp_bind, wp_connect, bindPost_ok]
  exact hQ _

/-- Every parent directory is created. -/
theorem wp_ensureParentDirs_scripted (hconn : Holds (recording scripted) conn s)
    (hst : st.conn = some s) (hbuf : st.responseBuffer = []) (key : Str)
    {Q : Outcome PyExc Unit → State → Transcript (List Bytes) → Prop}
    (hQ : ∀ log, Q (.ok ()) st ⟨l, next, log⟩) :
    wp (recording scripted) (ensureParentDirs fl.dialect (fuel + 2) conn key) Q st
      ⟨(iterParentDirs key).map (fun _ => line "257 ." ++ crlf) ++ l, next, log⟩ := by
  unfold ensureParentDirs
  induction iterParentDirs key generalizing log with
  | nil => exact hQ log
  | cons dir dirs ih =>
      rw [forEach, wp_bind, List.map_cons, List.cons_append, bind_eq, wp_bind,
        wp_cmd_scripted hconn hst hbuf replyLine_created, bindPost_ok]
      dsimp only
      rw [if_neg (by simp)]
      exact ih

end GufoBlob.Ftp
