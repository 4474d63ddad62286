import GufoBlob.Ftp.Blob
import GufoBlob.Interaction.Compositional

/-!
# The structure of the methods

What the methods of an `FTPBlob` are put together from, as rules for compositional properties: a
property of the calls that a method makes is a property of the method. There is one rule for each
method, and the hypotheses are collected in structures, one for each layer of the protocol:
`Sockets` (what the two dialects do), `Reads` (a reply), `Commands` (a command and its reply),
`Transfers` (the use of a data connection) and `Methods` (the operations).

`allowed` says which commands may be sent. The commands that an operation sends are `Meant`, and
those of a login `LoginCmd`.
-/

namespace GufoBlob

open Text Interaction Ftp

namespace FTPBlob

variable {P : ∀ {α : Type}, FtpProg α → Prop}

/-! ## Commands that are sent -/

/-- The commands of `_login`. -/
inductive LoginCmd (b : FTPBlob) : Str → Prop where
  | user : LoginCmd b b.userCmd
  | pass : LoginCmd b b.passCmd
  | cwd : b.root ≠ [] → LoginCmd b b.cwdCmd
  | type : LoginCmd b typeCmd

/-- The paths that a scan for `pre` lists: the directories on the way to `pre`, as the server names
them. -/
def ScanPath (pre path : Str) : Prop :=
  (∃ n, path = joinSlash ((parts pre).take n)) ∧ '\n' ∉ path

/-- The commands of `scan`. -/
inductive ScanCmd (pre : Str) : Str → Prop where
  | feat : ScanCmd pre featCmd
  | pasv : ScanCmd pre pasvCmdText
  | mlsd {path} : ScanPath pre path → ScanCmd pre (listCmd mlsdVerb path)
  | list {path} : ScanPath pre path → ScanCmd pre (listCmd listVerb path)

/-- The commands that a call means to send on a connection that is logged in. -/
inductive Meant : Call → Str → Prop where
  | mkd {key data dir} : dir ∈ iterParentDirs key → Meant (.put key data) (mkdCmd dir)
  | storPasv {key data} : Meant (.put key data) pasvCmdText
  | stor {key data} : Meant (.put key data) (storCmd key)
  | retrPasv {key} : Meant (.get key) pasvCmdText
  | retr {key} : Meant (.get key) (retrCmd key)
  | dele {key} : Meant (.delete key) (deleCmd key)
  | feat {key} : Meant (.exists' key) featCmd
  | size {key} : Meant (.exists' key) (sizeCmd key)
  | mlst {key} : Meant (.exists' key) (mlstCmd key)
  | fallback {key c} : ScanCmd key c → Meant (.exists' key) c
  | scan {pre c} : ScanCmd pre c → Meant (.scan pre) c
  | quit : Meant .close quitCmd

/-- The commands of an operation that start no transfer and are sent by themselves. -/
inductive OneReply : Str → Prop where
  | feat : OneReply featCmd
  | dele {key} : OneReply (deleCmd key)
  | size {key} : OneReply (sizeCmd key)
  | mlst {key} : OneReply (mlstCmd key)

/-! ### Paths of a scan -/

/-- What the prefix of a scan is cut into. -/
def IsPart (part : Str) : Prop := part ≠ [] ∧ '/' ∉ part

theorem isPart_of_mem {pre part : Str} (h : part ∈ parts pre) : IsPart part := by
  obtain ⟨hmem, hne⟩ := List.mem_filter.mp h
  exact ⟨by simpa using hne, notMem_of_mem_splitOn hmem⟩

theorem joinSlash_append_singleton {l : List Str} (hl : l ≠ []) (x : Str) :
    joinSlash (l ++ [x]) = joinSlash l ++ '/' :: x := by
  induction l with
  | nil => exact absurd rfl hl
  | cons a l ih =>
      cases l with
      | nil => simp [joinSlash, List.intercalate_cons_cons]
      | cons b l =>
          have hrest := ih (List.cons_ne_nil b l)
          unfold joinSlash at hrest ⊢
          rw [List.cons_append, List.cons_append, List.intercalate_cons_cons, ← List.cons_append,
            hrest, List.intercalate_cons_cons]
          simp

theorem joinSlash_ne_nil {l : List Str} (hl : l ≠ []) (hparts : ∀ part ∈ l, IsPart part) :
    joinSlash l ≠ [] := by
  obtain ⟨l', x, rfl⟩ := List.eq_nil_or_concat l |>.resolve_left hl
  have hx : x ≠ [] := (hparts x (by simp)).1
  rw [List.concat_eq_append]
  by_cases hl' : l' = []
  · subst hl'
    simpa [joinSlash] using hx
  · rw [joinSlash_append_singleton hl']
    simp

/-- One more part of a list is taken. -/
theorem drop_take_succ {α : Type} {l rest : List α} {n : Nat} {x : α} (h : l.drop n = x :: rest) :
    l.drop (n + 1) = rest ∧ l.take (n + 1) = l.take n ++ [x] := by
  have hn : l[n]? = some x := by
    rw [← List.head?_drop, h]
    rfl
  constructor
  · rw [← List.tail_drop, h]
    rfl
  · rw [List.take_add_one, hn]
    rfl

/-- A path made of parts does not begin with a slash. -/
theorem exists_joinSlash_eq_cons {l : List Str} (hl : l ≠ []) (hparts : ∀ part ∈ l, IsPart part) :
    ∃ c u, c ≠ '/' ∧ joinSlash l = c :: u := by
  obtain ⟨x, l', rfl⟩ := List.exists_cons_of_ne_nil hl
  obtain ⟨hne, hslash⟩ := hparts x List.mem_cons_self
  obtain ⟨c, x', rfl⟩ := List.exists_cons_of_ne_nil hne
  have hc : c ≠ '/' := fun heq => hslash (heq ▸ List.mem_cons_self)
  cases l' with
  | nil => exact ⟨c, x', hc, List.append_nil _⟩
  | cons y l' => exact ⟨c, _, hc, by rw [joinSlash, List.intercalate_cons_cons]; rfl⟩

theorem joinSlash_concat {l : List Str} (hparts : ∀ part ∈ l, IsPart part) (x : Str) :
    joinSlash (l ++ [x]) = fullPath (joinSlash l) x := by
  unfold fullPath
  by_cases hl : l = []
  · subst hl
    simp [joinSlash]
  · rw [joinSlash_append_singleton hl, if_neg]
    simpa using joinSlash_ne_nil hl hparts

/-- A path made of parts does not end in a slash. -/
theorem rstrip_joinSlash {l : List Str} (hparts : ∀ part ∈ l, IsPart part) :
    rstrip isSlash (joinSlash l) = joinSlash l := by
  by_cases hl : l = []
  · subst hl
    rfl
  · obtain ⟨l', x, rfl⟩ := List.eq_nil_or_concat l |>.resolve_left hl
    obtain ⟨hne, hslash⟩ := hparts x (by simp)
    obtain ⟨x', c, rfl⟩ := List.eq_nil_or_concat x |>.resolve_left hne
    have hc : isSlash c = false := by
      simp only [List.concat_eq_append, List.mem_append, List.mem_singleton, not_or] at hslash
      simpa [isSlash] using Ne.symm hslash.2
    have hend : ∃ u, joinSlash (l'.concat (x'.concat c)) = u ++ [c] := by
      rw [List.concat_eq_append, List.concat_eq_append]
      by_cases hl' : l' = []
      · subst hl'
        exact ⟨x', by simp [joinSlash]⟩
      · exact ⟨joinSlash l' ++ '/' :: x', by rw [joinSlash_append_singleton hl']; simp⟩
    obtain ⟨u, hu⟩ := hend
    rw [hu, rstrip_append_singleton isSlash u hc]

theorem lineFeed_fullPath {path name : Str} (hpath : '\n' ∉ path) (hname : '\n' ∉ name) :
    '\n' ∉ fullPath path name := by
  unfold fullPath
  split
  · exact hname
  · simp [hpath, hname]

/-! ## Sockets -/

/-- Calls on a socket that is open and that send no command. -/
def SocketOp : FtpOp → Prop
  | .connect _ _ _ => False
  | @FtpOp.sendall .control _ _ => False
  | @FtpOp.write .control _ _ => False
  | .asked _ _ => False
  | .answered _ _ _ => False
  | _ => True

/-- `P` holds of what is put together from calls on sockets. -/
structure Sockets (P : ∀ {α : Type}, FtpProg α → Prop) : Prop extends Program.Compositional P where
  call : ∀ {α : Type} (o : FtpOp) (k : ftp.Ans o → FtpProg α), SocketOp o → (∀ r, P (k r)) →
    P (.call o k)

section Sockets

variable (h : Sockets P) (fl : Flavour)

include h

theorem raiseOnError_of {α : Type} (r : Except IOErr α) : P (raiseOnError r) := by
  cases r with
  | ok a => exact h.pure a
  | error e => exact h.raise _

theorem suppressOSError_of {p : FtpProg Unit} (hp : P p) : P (suppressOSError p) := by
  apply h.tryCatch hp
  intro e
  split
  · exact h.raise _
  · exact h.pure ()
  · exact h.raise _

theorem recv_of {ch : Chan} (s : Sock ch) : P (fl.dialect.recv s) := by
  cases fl with
  | sync => exact h.call (.recv s) _ trivial (raiseOnError_of h)
  | aio =>
      apply h.bind (h.call (.wait s) _ trivial (raiseOnError_of h))
      exact fun _ => h.call (.recv s) _ trivial (raiseOnError_of h)

theorem sendData_of (s : Sock .data) (b : Bytes) : P (fl.dialect.send s b) := by
  cases fl with
  | sync => exact h.call (.sendall s b) _ trivial (raiseOnError_of h)
  | aio =>
      apply h.bind (h.call (.write s b) _ trivial h.pure)
      exact fun _ => h.call (.drain s) _ trivial (raiseOnError_of h)

theorem closeSock_of {ch : Chan} (s : Sock ch) : P (Sync.FTPBlob.closeSock s) :=
  suppressOSError_of h (h.call (.close s) _ trivial (raiseOnError_of h))

theorem closeConn_of {ch : Chan} (s : Sock ch) : P (Aio.FTPBlob.closeConn s) := by
  apply h.bind (h.call (.closeWriter s) _ trivial h.pure)
  exact fun _ => h.call (.waitClosed s) _ trivial (raiseOnError_of h)

theorem dropConn_of (s : Sock .control) : P (fl.dialect.dropConn s) := by
  cases fl with
  | sync => exact closeSock_of h s
  | aio => exact closeConn_of h s

theorem closeData_of (s : Sock .data) : P (fl.dialect.closeData s) := by
  have hshutdown : P (suppressOSError (.call (.shutdown s) raiseOnError)) :=
    suppressOSError_of h (h.call (.shutdown s) _ trivial (raiseOnError_of h))
  cases fl with
  | sync => exact h.bind hshutdown fun _ => closeSock_of h s
  | aio => exact h.bind hshutdown fun _ => suppressOSError_of h (closeConn_of h s)

end Sockets

/-! ## Replies -/

/-- `P` holds of what reading a reply is put together from. -/
structure Reads (P : ∀ {α : Type}, FtpProg α → Prop) (d : Dialect)
    (conn : FtpProg (Option (Sock .control))) : Prop extends Program.Compositional P where
  connection : P conn
  read : P Program.read
  setBuffer : ∀ b, P (setBuffer b)
  appendBuffer : ∀ b, P (appendBuffer b)
  recv : ∀ s : Sock .control, P (d.recv s)

/-- `P` holds of what a command is put together from. -/
structure Commands (P : ∀ {α : Type}, FtpProg α → Prop) (d : Dialect)
    (conn : FtpProg (Option (Sock .control))) (allowed : Str → Prop) : Prop
    extends Reads P d conn where
  transmit : ∀ s c, allowed c → P ((asked s c).bind fun _ => d.send s (encode c ++ crlf))
  answered : ∀ c code lines, P (answered c code lines)

/-- `P` holds of what a transfer is put together from. -/
structure Transfers (P : ∀ {α : Type}, FtpProg α → Prop) (d : Dialect) (fuel : Nat)
    (conn : FtpProg (Option (Sock .control))) (allowed : Str → Prop) : Prop
    extends Program.Compositional P where
  cmd : ∀ c, allowed c → P (cmd d fuel conn c)
  expect : ∀ code, P (expect d fuel conn code)
  connectData : ∀ host port, port ≤ 65535 → P (connect .data host port)
  recvData : ∀ s : Sock .data, P (d.recv s)
  sendData : ∀ (s : Sock .data) b, P (d.send s b)
  closeData : ∀ s, P (d.closeData s)

/-- `P` holds of what an operation is put together from. -/
structure Methods (P : ∀ {α : Type}, FtpProg α → Prop) (d : Dialect) (fuel : Nat)
    (conn : FtpProg (Option (Sock .control))) (allowed : Str → Prop) : Prop
    extends Program.Compositional P where
  connection : P conn
  features : allowed featCmd → P (features d fuel conn)
  cmd : ∀ c, OneReply c → allowed c → P (cmd d fuel conn c)
  pasvCmd : ∀ c, allowed pasvCmdText → allowed c → P (pasvCmd d fuel conn c)
  put : ∀ key data, (∀ c, Meant (.put key data) c → allowed c) → P (put d fuel conn key data)

variable {d : Dialect} {fuel : Nat} {conn : FtpProg (Option (Sock .control))}
  {allowed : Str → Prop}

section Reads

variable (h : Reads P d conn)

include h

theorem receive_of : P (receive d conn) := by
  apply h.tryCatch
  · apply h.bind h.connection
    intro c
    cases c with
    | none => exact h.raise _
    | some s => exact h.recv s
  · intro e
    unfold readError
    split <;> exact h.raise _

theorem readLine_of : P (readLine d fuel conn) := by
  show P (readLineLoop d conn fuel)
  generalize fuel = n
  induction n with
  | zero => exact h.spin
  | succ n ih =>
      apply h.bind h.read
      intro st
      split
      · exact h.bind (h.setBuffer _) fun _ => h.pure _
      · apply h.bind (receive_of h)
        intro data
        split
        · exact h.raise _
        · exact h.bind (h.appendBuffer _) fun _ => ih

theorem moreLines_of (first : Bytes) (n : Nat) (lines : List Bytes) :
    P (moreLines d fuel conn first n lines) := by
  induction n generalizing lines with
  | zero => exact h.spin
  | succ n ih =>
      apply h.bind (readLine_of h)
      intro line
      split
      · exact h.pure _
      · exact ih _

theorem readResponse_of : P (readResponse d fuel conn) := by
  apply h.bind (readLine_of h)
  intro first
  split
  · exact h.raise _
  · apply h.bind (h.ofExcept _)
    intro code
    split
    · exact h.bind (moreLines_of h _ _ _) fun _ => h.pure _
    · exact h.pure _

theorem expect_of (code : Int) : P (expect d fuel conn code) := by
  apply h.bind (readResponse_of h)
  intro r
  dsimp only
  split
  · exact h.raise _
  · exact h.pure _

end Reads

/-- A login is put together from the greeting and from its commands. -/
theorem login_of_exchanges (hP : Program.Compositional P) {b : FTPBlob}
    (hgreeting : P (expect d fuel conn ready)) (hcmd : ∀ c, LoginCmd b c → P (cmd d fuel conn c)) :
    P (login d fuel conn b) := by
  have hexpect : ∀ c, LoginCmd b c → ∀ want msg, P (cmdExpect d fuel conn c want msg) := by
    intro c hc want msg
    apply hP.bind (hcmd c hc)
    intro r
    dsimp only
    split
    · exact hP.raise _
    · exact hP.pure _
  have hauth : P (authenticate d fuel conn b) := by
    apply hP.bind (hcmd _ .user)
    intro r
    dsimp only
    split
    · exact hP.bind (hcmd _ .pass) fun _ => hP.pure _
    · exact hP.pure _
  have hroot : P (enterRoot d fuel conn b) := by
    unfold enterRoot
    split
    · exact hP.pure ()
    · next hne =>
        apply hexpect _ (.cwd _)
        simpa using hne
  apply hP.bind hgreeting
  intro _
  apply hP.bind hauth
  intro code
  split
  · exact hP.raise _
  · apply hP.bind hroot
    exact fun _ => hexpect _ .type _ _

section Commands

variable (h : Commands P d conn allowed)

include h

theorem sendCmd_of {c : Str} (hc : allowed c) : P (sendCmd d conn c) := by
  apply h.tryCatch
  · apply h.bind h.connection
    intro s
    cases s with
    | none => exact h.raise _
    | some s => exact h.transmit s c hc
  · intro e
    unfold sendFailed
    split
    · split <;> exact h.raise _
    · exact h.raise _

theorem cmd_of {c : Str} (hc : allowed c) : P (cmd d fuel conn c) := by
  apply h.bind (sendCmd_of h hc)
  intro _
  apply h.bind (readResponse_of h.toReads)
  intro r
  exact h.bind (h.answered _ _ _) fun _ => h.pure r

theorem login_of {b : FTPBlob} (hb : ∀ c, LoginCmd b c → allowed c) :
    P (login d fuel conn b) :=
  login_of_exchanges h.toCompositional (expect_of h.toReads _) fun _ hc => cmd_of h (hb _ hc)

end Commands

section Connection

variable {b : FTPBlob}

theorem attempts_of (hP : Program.Compositional P)
    (hconnect : P (connect .control b.host b.port)) (n : Nat) (lastError : String) :
    P (b.attempts n lastError) := by
  induction n generalizing lastError with
  | zero => exact hP.raise _
  | succ n ih =>
      apply hP.bind hconnect
      intro r
      cases r with
      | ok s => exact hP.pure s
      | error e =>
          cases e with
          | timeout e => exact ih _
          | refused e => exact ih _
          | os e => exact ih _
          | runtime e => exact hP.raise _

/-- `P` holds of `connection` when it holds of every step of connecting and, at every depth, of a
login. -/
theorem connection_of_login (hP : Program.Compositional P) (hread : P Program.read)
    (hlogin : ∀ conn, P conn → P (login d fuel conn b))
    (hconnect : P (connect .control b.host b.port)) (hset : ∀ c, P (setConn c))
    (hdrop : ∀ s, P (d.dropConn s)) (depth : Nat) : P (FTPBlob.connection d b fuel depth) := by
  have hfailed : ∀ e, P (loginFailed d e) := by
    intro e
    unfold loginFailed
    split
    · apply hP.bind
      · apply hP.bind hread
        intro st
        split
        · exact hdrop _
        · exact hP.raise _
      · exact fun _ => hP.bind (hset none) fun _ => hP.raise _
    · exact hP.raise _
  induction depth with
  | zero => exact hP.spin
  | succ depth ih =>
      apply hP.bind hread
      intro st
      apply hP.bind
      · unfold connectAndLogin
        split
        · exact hP.pure ()
        · apply hP.bind (attempts_of hP hconnect _ _)
          intro s
          apply hP.bind (hset _)
          exact fun _ => hP.tryCatch (hlogin _ ih) hfailed
      · exact fun _ => hP.bind hread fun st => hP.pure st.conn

/-- The same, of what a login is put together from. -/
theorem connection_of (hP : Program.Compositional P)
    (hcommands : ∀ conn, P conn → Commands P d conn allowed)
    (hlogin : ∀ c, LoginCmd b c → allowed c) (hconnect : P (connect .control b.host b.port))
    (hset : ∀ c, P (setConn c)) (hdrop : ∀ s, P (d.dropConn s)) (depth : Nat) :
    P (FTPBlob.connection d b fuel depth) :=
  connection_of_login hP (hcommands .spin hP.spin).read
    (fun conn hconn => login_of (hcommands conn hconn) hlogin) hconnect hset hdrop depth

end Connection

theorem suppressBlobError_of (hP : Program.Compositional P) {p : FtpProg Unit} (hp : P p) :
    P (suppressBlobError p) := by
  apply hP.tryCatch hp
  intro e
  split
  · exact hP.pure _
  · exact hP.raise _

theorem features_of (hP : Program.Compositional P) (hread : P Program.read)
    (hcmd : P (cmd d fuel conn featCmd)) (hset : ∀ f, P (setFeatures f)) :
    P (features d fuel conn) := by
  apply hP.bind hread
  intro st
  split
  · exact hP.pure _
  · apply hP.bind hcmd
    intro r
    apply hP.bind (hP.ofExcept _)
    exact fun f => hP.bind (hset f) fun _ => hP.pure f

section Transfers

variable (h : Transfers P d fuel conn allowed)

include h

theorem dataFailed_of {α : Type} (e : PyExc) : P (dataFailed d fuel conn e : FtpProg α) := by
  have hexpect := suppressBlobError_of h.toCompositional (h.expect transferDone)
  unfold dataFailed
  split
  · exact h.bind hexpect fun _ => h.raise _
  · exact h.bind hexpect fun _ => h.raise _
  · exact h.bind hexpect fun _ => h.raise _
  · exact h.raise _

theorem getPassive_of (hpasv : allowed pasvCmdText) : P (getPassive d fuel conn) := by
  apply h.bind (h.cmd _ hpasv)
  intro r
  dsimp only
  split
  · exact h.raise _
  · cases haddr : parsePasv (r.2.getLastD []) with
    | error e => exact h.raise e
    | ok addr =>
        apply h.bind (h.connectData addr.1 addr.2 (parsePasv_port_le haddr))
        intro s
        cases s with
        | ok s => exact h.pure s
        | error e => cases e <;> exact h.raise _

theorem recvAll_of (sock : Sock .data) (n : Nat) (chunks : List Bytes) :
    P (recvAll d fuel conn sock n chunks) := by
  induction n generalizing chunks with
  | zero => exact h.spin
  | succ n ih =>
      apply h.bind (h.tryCatch (h.recvData sock) fun e => dataFailed_of h e)
      intro data
      split
      · exact h.pure _
      · exact ih _

theorem retrieve_of (sock : Sock .data) {c : Str} (hc : allowed c) :
    P (retrieve d fuel conn sock c) := by
  apply h.bind (h.cmd _ hc)
  intro r
  dsimp only
  split
  · exact h.raise _
  · split
    · exact h.raise _
    · apply h.bind (recvAll_of h sock fuel [])
      exact fun chunks => h.bind (h.expect _) fun _ => h.pure _

theorem pasvCmd_of (hpasv : allowed pasvCmdText) {c : Str} (hc : allowed c) :
    P (pasvCmd d fuel conn c) := by
  apply h.bind (getPassive_of h hpasv)
  intro sock
  apply h.bind (h.tryFinally (retrieve_of h sock hc) (h.closeData sock))
  exact fun chunks => h.pure _

theorem store_of (sock : Sock .data) {key : Str} (hkey : allowed (storCmd key)) (data : Bytes) :
    P (store d fuel conn sock key data) := by
  apply h.bind (h.cmd _ hkey)
  intro r
  dsimp only
  split
  · exact h.raise _
  · exact h.tryCatch (h.sendData sock data) fun e => dataFailed_of h e

theorem ensureParentDirs_of {key : Str} (hkey : ∀ dir ∈ iterParentDirs key, allowed (mkdCmd dir)) :
    P (ensureParentDirs d fuel conn key) := by
  apply h.forEach
  intro dir hdir
  apply h.bind (h.cmd _ (hkey dir hdir))
  intro r
  dsimp only
  split
  · exact h.raise _
  · exact h.pure _

theorem put_of {key : Str} {data : Bytes} (hc : ∀ c, Meant (.put key data) c → allowed c) :
    P (put d fuel conn key data) := by
  apply h.bind (ensureParentDirs_of h fun dir hdir => hc _ (.mkd hdir))
  intro _
  apply h.bind (getPassive_of h (hc _ .storPasv))
  intro sock
  apply h.bind (h.tryFinally (store_of h sock (hc _ .stor) data) (h.closeData sock))
  exact fun _ => h.expect _

end Transfers

theorem methods_of (h : Transfers P d fuel conn allowed) (hconn : P conn)
    (hfeatures : allowed featCmd → P (features d fuel conn)) : Methods P d fuel conn allowed where
  toCompositional := h.toCompositional
  connection := hconn
  features := hfeatures
  cmd _ _ hc := h.cmd _ hc
  pasvCmd _ hpasv hc := pasvCmd_of h hpasv hc
  put _ _ hc := put_of h hc

/-- Without any depth left, every command spins. -/
theorem methods_of_spin (hP : Program.Compositional P) (hread : P Program.read) :
    Methods P d fuel .spin allowed where
  toCompositional := hP
  connection := hP.spin
  features _ := by
    apply hP.bind hread
    intro st
    split
    · exact hP.pure _
    · exact hP.spin
  cmd _ _ _ := hP.spin
  pasvCmd _ _ _ := hP.spin
  put _ _ _ := hP.bind (hP.forEach fun _ _ => hP.spin) fun _ => hP.spin

section Methods

variable (h : Methods P d fuel conn allowed)

include h

theorem delete_of {key : Str} (hkey : allowed (deleCmd key)) : P (delete d fuel conn key) := by
  apply h.bind (h.cmd _ .dele hkey)
  intro r
  dsimp only
  split
  · exact h.raise _
  · split
    · exact h.raise _
    · exact h.pure _

theorem sizeAnswer_of (f : FTPFeatures) {key : Str} (hkey : allowed (sizeCmd key)) :
    P (sizeAnswer d fuel conn f key) := by
  unfold sizeAnswer
  split
  · apply h.bind (h.cmd _ .size hkey)
    intro r
    dsimp only
    split
    · exact h.pure _
    · split <;> exact h.pure _
  · exact h.pure none

theorem mlstAnswer_of (f : FTPFeatures) {key : Str} (hkey : allowed (mlstCmd key)) :
    P (mlstAnswer d fuel conn f key) := by
  unfold mlstAnswer
  split
  · apply h.bind (h.cmd _ .mlst hkey)
    intro r
    dsimp only
    split
    · exact h.pure _
    · split <;> exact h.pure _
  · exact h.pure none

theorem listData_of (hpasv : allowed pasvCmdText) {verb path : Str}
    (hc : allowed (listCmd verb path)) : P (listData d fuel conn verb path) := by
  apply h.tryCatch
  · exact h.bind (h.pasvCmd _ hpasv hc) fun _ => h.pure _
  · intro e
    split
    · exact h.pure _
    · exact h.raise _

variable {G : FtpGen Unit → Prop}

/-- `list_dir` at the depth `n`: the path so far is made of the first `n` parts of the prefix, and
the rest of them is still to come. -/
theorem listDir_of (hG : Program.Generative P G) (hpasv : allowed pasvCmdText) {verb : Str}
    {parser : Bytes → Except PyExc (Str × Bool)} (hparser : NamesFromLine parser) {pre : Str}
    (hc : ∀ path, ScanPath pre path → allowed (listCmd verb path)) {rest : List Str} {n : Nat}
    (hrest : (parts pre).drop n = rest) (hlf : '\n' ∉ joinSlash ((parts pre).take n)) :
    G
      (listDir d fuel conn verb parser rest (joinSlash ((parts pre).take n))) := by
  have hparts : ∀ part ∈ (parts pre).take n, IsPart part :=
    fun part hp => isPart_of_mem (List.mem_of_mem_take hp)
  induction rest generalizing n with
  | nil =>
      unfold listDir
      rw [rstrip_joinSlash hparts]
      apply hG.embed_bind (listData_of h hpasv (hc _ ⟨⟨n, rfl⟩, hlf⟩))
      intro data
      cases data with
      | none => exact hG.pure
      | some data =>
          apply hG.forEach
          intro line _
          apply hG.ofExcept_bind
          intro entry
          dsimp only
          split
          · exact hG.pure
          · exact hG.yield _
  | cons part rest ih =>
      unfold listDir
      rw [rstrip_joinSlash hparts]
      apply hG.embed_bind (listData_of h hpasv (hc _ ⟨⟨n, rfl⟩, hlf⟩))
      intro data
      cases data with
      | none => exact hG.pure
      | some data =>
          apply hG.forEach
          intro line hline
          cases hp : parser line with
          | error e => exact hG.raise e
          | ok entry =>
              obtain ⟨name, isDir⟩ := entry
              show G (if name = part then
                if isDir then listDir d fuel conn verb parser rest _ else Program.yield _
                else .pure ())
              split
              · next heq =>
                  split
                  -- the directory is the next part of the prefix
                  · subst heq
                    obtain ⟨hdrop, htake⟩ := drop_take_succ hrest
                    have hnext : fullPath (joinSlash ((parts pre).take n)) name =
                        joinSlash ((parts pre).take (n + 1)) := by
                      rw [htake, joinSlash_concat hparts]
                    have hname : '\n' ∉ name := fun hmem =>
                      notMem_of_mem_splitlines hline (hparser line name isDir hp hmem)
                    rw [hnext]
                    apply ih
                    · exact hdrop
                    · rw [← hnext]
                      exact lineFeed_fullPath hlf hname
                    · exact fun part hp => isPart_of_mem (List.mem_of_mem_take hp)
                  · exact hG.yield _
              · exact hG.pure

theorem scan_of (hG : Program.Generative P G) {pre : Str} (hc : ∀ c, ScanCmd pre c → allowed c) :
    G (scan d fuel conn pre) := by
  apply hG.embed_bind (h.features (hc _ .feat))
  intro f
  split
  · exact listDir_of h hG (hc _ .pasv) parseMlsdLine_names (fun path hp => hc _ (.mlsd hp))
      (n := 0) rfl List.not_mem_nil
  · exact listDir_of h hG (hc _ .pasv) parseListLine_names (fun path hp => hc _ (.list hp))
      (n := 0) rfl List.not_mem_nil

theorem exists_of {key : Str} (hsize : allowed (sizeCmd key)) (hmlst : allowed (mlstCmd key))
    (hscan : ∀ c, ScanCmd key c → allowed c) : P (exists' d fuel conn key) := by
  apply h.bind (h.features (hscan _ .feat))
  intro f
  apply h.bind (sizeAnswer_of h f hsize)
  intro answer
  cases answer with
  | some found => exact h.pure found
  | none =>
      apply h.bind (mlstAnswer_of h f hmlst)
      intro answer
      cases answer with
      | some found => exact h.pure found
      | none => exact (scan_of h h.generative hscan).2 _

/-- A call that sends allowed commands only. -/
theorem perform_of {close : FtpProg Unit} {c : Call} (hclose : c = .close → P close)
    (hc : ∀ x, Meant c x → allowed x) : P ((backend d fuel conn close).perform c) := by
  cases c with
  | open' => exact h.bind (h.bind h.connection fun _ => h.pure ()) fun _ => h.pure _
  | close => exact h.bind (hclose rfl) fun _ => h.pure _
  | put key data => exact h.bind (h.put key data hc) fun _ => h.pure _
  | get key => exact h.bind (h.pasvCmd _ (hc _ .retrPasv) (hc _ .retr)) fun _ => h.pure _
  | delete key => exact h.bind (delete_of h (hc _ .dele)) fun _ => h.pure _
  | exists' key =>
      apply h.bind (exists_of h (hc _ .size) (hc _ .mlst) fun x hx => hc x (.fallback hx))
      exact fun _ => h.pure _
  | scan pre => exact h.bind (scan_of h h.generative fun x hx => hc x (.scan hx)).1 fun _ => h.pure _

end Methods

theorem close_of (h : Sockets P) (fl : Flavour) (hread : P Program.read)
    (hset : P (setConn none)) (hquit : P (cmd fl.dialect fuel conn quitCmd)) :
    P (fl.close fuel conn) := by
  have hsuppressed : P (suppressBlobError
      ((cmd fl.dialect fuel conn quitCmd).bind fun _ => .pure ())) :=
    suppressBlobError_of h.toCompositional (h.bind hquit fun _ => h.pure ())
  cases fl with
  | sync =>
      have hheld : P (Sync.FTPBlob.closeHeld fuel conn) := by
        apply h.bind hread
        intro st
        split
        · exact h.pure ()
        · apply h.bind hsuppressed
          intro _
          apply h.bind hread
          intro st
          split
          · exact closeSock_of h _
          · exact h.raise _
      exact h.tryFinally hheld hset
  | aio =>
      apply h.bind hread
      intro st
      apply h.bind hset
      intro _
      apply h.tryFinally hsuppressed
      split
      · exact closeConn_of h _
      · exact h.pure ()

end FTPBlob

end GufoBlob
