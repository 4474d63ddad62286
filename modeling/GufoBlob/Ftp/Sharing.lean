import GufoBlob.Ftp.Healthy
import GufoBlob.Ftp.Tasks
import GufoBlob.Interaction.Turns

/-!
# Sharing an object

The documentation promises that the async backends are safe for concurrent use. Nothing in `FTPBlob`
keeps two tasks apart, however: the connection, the reply buffer and the place of a command in the
stream of commands belong to the object.

* `serialised_in_turns` — what the promise amounts to holds in the runs in which the calls of the
  tasks do not overlap, in any number of tasks.
* `not_serialised_overlapping` — two calls of `exists` that do overlap: the second one raises
  `RuntimeError`, which it does in no order of the two.
-/

namespace GufoBlob.Ftp

open Text Interaction Program FTPBlob

variable {ι S N : Type} [DecidableEq ι]

/-! ## One login -/

section Count

variable {P : Peer S} {net : N → Option Nat × N} {i : ι} {b : FTPBlob} {fuel : Nat}
  {held : Option (Sock .control)} {n : Nat}

/-- Only a call that opens a control connection is counted. -/
theorem logins_call {w : EventLoop ι S N} {o : FtpOp}
    (ho : ∀ host port, o ≠ .connect .control host port) :
    (eventLoop P net i w o).2.logins = w.logins := by
  unfold eventLoop
  split
  · split <;> rfl
  · dsimp only
    unfold EventLoop.seen
    split
    · rfl
    · exact absurd rfl (ho _ _)
    · rfl
    · rfl
    · rfl

/-- The connection `held` is held, if there is one, and `n` connections were opened. -/
def Counted (held : Option (Sock .control)) (n : Nat) (st : State) (w : EventLoop ι S N) : Prop :=
  (∀ s ∈ held, st.conn = some s) ∧ w.logins = n

/-- The program opens no connection, and keeps the one that is held. -/
abbrev KeepsCount (P : Peer S) (net : N → Option Nat × N) (i : ι) (held : Option (Sock .control))
    (n : Nat) {α : Type} (p : FtpProg α) : Prop := Preserves (eventLoop P net i) (Counted held n) p

theorem keepsCount_call {α : Type} {o : FtpOp} {k : ftp.Ans o → FtpProg α}
    (ho : ∀ host port, o ≠ .connect .control host port) (hk : ∀ r, KeepsCount P net i held n (k r)) :
    KeepsCount P net i held n (.call o k) :=
  preserves_call (fun _ _ hw => ⟨hw.1, (logins_call ho).trans hw.2⟩) hk

theorem keepsCount_sockets (P : Peer S) (net : N → Option Nat × N) (i : ι)
    (held : Option (Sock .control)) (n : Nat) : Sockets (KeepsCount P net i held n) where
  toCompositional := preserves_compositional _ _
  call o k ho hk := by
    refine keepsCount_call (fun host port heq => ?_) hk
    rw [heq] at ho
    exact ho

theorem keepsCount_commands {conn : FtpProg (Option (Sock .control))}
    (hconn : KeepsCount P net i held n conn) :
    Commands (KeepsCount P net i held n) Aio.FTPBlob.dialect conn fun _ => True where
  toCompositional := preserves_compositional _ _
  connection := hconn
  read := preserves_read
  setBuffer _ := preserves_modify fun _ _ hw => hw
  appendBuffer _ := preserves_modify fun _ _ hw => hw
  recv := recv_of (keepsCount_sockets P net i held n) .aio
  transmit s' c _ := by
    apply keepsCount_call (o := .asked s' c) (by simp)
    intro _
    apply keepsCount_call (o := .write s' _) (by simp)
    exact fun _ => keepsCount_call (by simp) (raiseOnError_of (keepsCount_sockets P net i held n))
  answered _ _ _ := keepsCount_call (by simp) preserves_pure

theorem keepsCount_connection (s : Sock .control) (depth : Nat) :
    KeepsCount P net i (some s) n (connection Aio.FTPBlob.dialect b fuel depth) := by
  cases depth with
  | zero => exact preserves_spin
  | succ depth => exact fun st w hw => (connection_holds _ _ _ _ s _ _ _ (hw.1 s rfl)).mpr hw

theorem keepsCount_perform (s : Sock .control) {c : Call} (hc : c ≠ .close) :
    KeepsCount P net i (some s) n ((Flavour.aio.backend b fuel).perform c) := by
  have hsockets := keepsCount_sockets P net i (some s) n
  have hcommands : Commands (KeepsCount P net i (some s) n) Aio.FTPBlob.dialect
      (Flavour.aio.connection b fuel) fun _ => True :=
    keepsCount_commands (keepsCount_connection s fuel)
  have htransfers : Transfers (KeepsCount P net i (some s) n) Aio.FTPBlob.dialect fuel
      (Flavour.aio.connection b fuel) fun _ => True :=
    { toCompositional := preserves_compositional _ _
      cmd := fun _ hc => cmd_of hcommands hc
      expect := expect_of hcommands.toReads
      connectData := fun _ _ _ => keepsCount_call (by simp) preserves_pure
      recvData := recv_of hsockets .aio
      sendData := sendData_of hsockets .aio
      closeData := closeData_of hsockets .aio }
  have hmethods : Methods (KeepsCount P net i (some s) n) Aio.FTPBlob.dialect fuel
      (Flavour.aio.connection b fuel) fun _ => True := by
    apply methods_of htransfers (keepsCount_connection s fuel)
    intro hfeat
    apply features_of (preserves_compositional _ _) preserves_read (cmd_of hcommands hfeat)
    exact fun f => preserves_modify fun _ _ hw => hw
  exact perform_of hmethods (fun heq => absurd heq hc) fun _ _ => trivial

/-- Dropping a connection opens none. -/
theorem keepsCount_loginFailed (e : PyExc) :
    KeepsCount P net i none n (loginFailed Aio.FTPBlob.dialect e) := by
  unfold loginFailed
  split
  · apply preserves_bind
    · apply preserves_bind preserves_read
      intro st
      split
      · exact dropConn_of (keepsCount_sockets P net i none n) .aio _
      · exact preserves_raise _
    · intro _
      apply preserves_bind (preserves_modify fun _ _ hw => ⟨by simp, hw.2⟩)
      exact fun _ => preserves_raise _
  · exact preserves_raise _

/-- The attempt to connect that succeeds is counted. -/
theorem wp_tcpConnect_count (hp : Healthy P net b) (hretries : 0 < b.retries) (st : State)
    {w : EventLoop ι S N} (hw : w.logins = n) :
    wp (eventLoop P net i) b.tcpConnect (fun o _ w => ∃ s, o = .ok s ∧ w.logins = n + 1) st w := by
  obtain ⟨m, hm⟩ : ∃ m, b.retries.toNat = m + 1 := Nat.exists_eq_succ_of_ne_zero (by omega)
  obtain ⟨s, hs⟩ := hp.connects w.session.peer
  have hanswer : (eventLoop P net i w (.connect .control b.host b.port)).1 = .ok s := hs
  have hlogins : (eventLoop P net i w (.connect .control b.host b.port)).2.logins = n + 1 := by
    show (w.seen i (.connect .control b.host b.port)
      (P.other w.session.peer (.connect .control b.host b.port)).1).logins = n + 1
    rw [hs, ← hw]
    rfl
  unfold tcpConnect
  rw [hm, attempts, bind_eq, wp_bind, wp_connect, bindPost_ok, hanswer]
  exact ⟨s, rfl, hlogins⟩

/-- A task that finds no connection opens one, unless its fuel runs out before. -/
theorem wp_connection_count (hp : Healthy P net b) (hretries : 0 < b.retries) (depth : Nat)
    {st : State} (hst : st.conn = none) {w : EventLoop ι S N} (hw : w.logins = n) :
    wp (eventLoop P net i) (connection Aio.FTPBlob.dialect b fuel depth)
      (fun o _ w => o = .spun ∧ w.logins = n ∨ w.logins = n + 1) st w := by
  cases depth with
  | zero => exact .inl ⟨rfl, hw⟩
  | succ depth =>
      have hlogin : ∀ s, KeepsCount P net i (some s) (n + 1)
          (login Aio.FTPBlob.dialect fuel (connection Aio.FTPBlob.dialect b fuel depth) b) :=
        fun s => login_of (keepsCount_commands (keepsCount_connection s depth)) fun _ _ => trivial
      unfold FTPBlob.connection connectAndLogin
      rw [bind_eq, wp_bind, wp_read, bindPost_ok, hst]
      dsimp only
      rw [bind_eq, wp_bind, bind_eq, wp_bind]
      apply wp_mono (wp_tcpConnect_count hp hretries st hw)
      rintro o st₁ w₁ ⟨s, rfl, hw₁⟩
      rw [bindPost_ok, bind_eq, wp_bind, wp_setConn, bindPost_ok, wp_tryCatch]
      apply wp_mono (hlogin s _ _ ⟨fun _ hs => congrArg some (Option.some.inj hs), hw₁⟩)
      rintro (u | e | _) st' w' hw'
      · exact .inr hw'.2
      · rw [catchPost_error]
        apply wp_mono (keepsCount_loginFailed e st' w' ⟨by simp, hw'.2⟩)
        rintro (u | e | _) st'' w'' hw''
        · exact .inr hw''.2
        · exact .inr hw''.2
        · exact .inr hw''.2
      · exact .inr hw'.2

end Count

/-! ## Between two calls -/

/-- No reply is outstanding, nobody waits, and the features that are known are `f`. -/
structure Idle (f : Option FTPFeatures) (st : State) (w : EventLoop ι S N) : Prop where
  quiet : Quiet st w.session
  waiting : w.waiting = none
  own : w.own = true
  features : st.features = f

/-- No task has opened a connection. -/
structure Unopened (f : Option FTPFeatures) (st : State) (w : EventLoop ι S N) : Prop
    extends Idle f st w where
  conn : st.conn = none
  logins : w.logins = 0

/-- A connection was opened once, and is held. -/
structure Opened (f : Option FTPFeatures) (st : State) (w : EventLoop ι S N) : Prop
    extends Idle f st w where
  conn : st.conn ≠ none
  logins : w.logins = 1

/-- Every reply was the one to its command and went to the task that had sent it, and at most one
login was performed. -/
structure Paired (w : EventLoop ι S N) : Prop where
  matched : w.session.matched = true
  own : w.own = true
  logins : w.logins ≤ 1

section Between

variable {f : Option FTPFeatures} {st : State} {w : EventLoop ι S N}

omit [DecidableEq ι] in
theorem Idle.projects (hw : Idle f st w) : Projects none w w.session :=
  ⟨hw.waiting, hw.own, by simp, rfl⟩

omit [DecidableEq ι] in
theorem Idle.paired_of_le (hw : Idle f st w) (hlogins : w.logins ≤ 1) : Paired w :=
  ⟨hw.quiet.sound.matched, hw.own, hlogins⟩

/-- After `connection`: the object holds the connection that it returns. -/
def loggedInPost (f : Option FTPFeatures) :
    Outcome PyExc (Option (Sock .control)) → State → EventLoop ι S N → Prop
  | .ok c => fun st w => ∃ s, c = some s ∧ st.conn = some s ∧ Opened f st w
  | .error _ => fun _ _ => False
  | .spun => fun _ w => Paired w

variable {P : Peer S} {net : N → Option Nat × N} {b : FTPBlob} {fuel : Nat} (hp : Healthy P net b)
  (hb : LoginPlain b) (i : ι)

include hp hb

theorem wp_connection_unopened (hretries : 0 < b.retries) (depth : Nat) (hw : Unopened f st w) :
    wp (eventLoop P net i) (connection Aio.FTPBlob.dialect b fuel depth) (loggedInPost f) st w := by
  have hfollows : Follows P net i (connection Aio.FTPBlob.dialect b fuel depth) :=
    follows_connection b depth
  have hcount : wp (eventLoop P net i) (connection Aio.FTPBlob.dialect b fuel depth)
      (fun o _ w => o = .spun ∧ w.logins = 0 ∨ w.logins = 1) st w :=
    wp_connection_count hp hretries depth hw.conn hw.logins
  have hfeatures : wp (eventLoop P net i) (connection Aio.FTPBlob.dialect b fuel depth)
      (fun _ st _ => st.features = f) st w := by
    have hkeeps : KeepsFeatures (eventLoop P net i) f
        (connection Flavour.aio.dialect b fuel depth) := keepsFeatures_connection depth
    exact hkeeps st w hw.features
  have hquiet : wp (session P net) (connection Aio.FTPBlob.dialect b fuel depth) connectedPost st
      w.session := wp_connection_aio hp hb depth hw.quiet
  have hadmitted : wp (session P net) (connection Aio.FTPBlob.dialect b fuel depth)
      (returning fun _ _ _ => True) st w.session :=
    wp_connection_admitted hp hb hretries depth hw.quiet hw.conn
  apply wp_mono (wp_and (hfollows ⟨none, by simp⟩ st w _ hw.projects) (wp_and hcount hfeatures))
  rintro o st' w' ⟨⟨t', hrun, hw'⟩, hcount, hfeatures⟩
  unfold wp at hquiet hadmitted
  rw [hrun] at hquiet hadmitted
  obtain ⟨hwaiting, hown, -, rfl⟩ := hw'
  cases o with
  | ok c =>
      obtain ⟨hq, hc, hne⟩ : Quiet st' w'.session ∧ c = st'.conn ∧ c ≠ none := hquiet
      obtain ⟨s, hs⟩ := Option.ne_none_iff_exists'.mp hne
      have hone : w'.logins = 1 := by simpa using hcount
      exact ⟨s, hs, hc.symm.trans hs, ⟨⟨hq, hwaiting, hown, hfeatures⟩, hc ▸ hne, hone⟩⟩
  | error e => exact hadmitted
  | spun =>
      refine ⟨Book.Sound.matched hquiet, hown, ?_⟩
      omega

end Between

/-! ## The first call -/

/-- From an object without a connection, the program does what it does from one that is logged
in. -/
def ConnectsFirst (P : Peer S) (net : N → Option Nat × N) (i : ι) (f : Option FTPFeatures) {α : Type}
    (q : FtpProg α) : Prop :=
  ∀ Q : Outcome PyExc α → State → EventLoop ι S N → Prop, (∀ st w, Paired w → Q .spun st w) →
    (∀ st w, Opened f st w → wp (eventLoop P net i) q Q st w) →
    ∀ st w, Unopened f st w → wp (eventLoop P net i) q Q st w

section First

variable {P : Peer S} {net : N → Option Nat × N} {b : FTPBlob} {fuel : Nat} {i : ι}
  {f : Option FTPFeatures}

theorem connects_bind {α β : Type} {q : FtpProg α} (hq : ConnectsFirst P net i f q)
    (k : α → FtpProg β) : ConnectsFirst P net i f (q.bind k) := by
  intro Q hspun h st w hw
  rw [wp_bind]
  apply hq _ (fun st w hgood => hspun st w hgood) _ st w hw
  intro st w hopened
  rw [← wp_bind]
  exact h st w hopened

theorem connects_tryCatch {α : Type} {q : FtpProg α} (hq : ConnectsFirst P net i f q)
    (g : PyExc → FtpProg α) : ConnectsFirst P net i f (q.tryCatch g) := by
  intro Q hspun h st w hw
  rw [wp_tryCatch]
  apply hq (catchPost (eventLoop P net i) g Q) (fun st w hgood => hspun st w hgood) _ st w hw
  intro st w hopened
  rw [← wp_tryCatch]
  exact h st w hopened

variable (hp : Healthy P net b) (hb : LoginPlain b) (hretries : 0 < b.retries)

include hp hb hretries

theorem connects_connection : ConnectsFirst P net i f (Flavour.aio.connection b fuel) := by
  intro Q hspun h st w hw
  cases fuel with
  | zero => exact hspun st w (hw.paired_of_le (by rw [hw.logins]; omega))
  | succ n =>
      apply wp_mono (wp_connection_unopened hp hb i hretries (n + 1) hw)
      rintro (c | e | _) st' w' ho
      · obtain ⟨s, rfl, hs, hopened⟩ := ho
        exact (connection_holds _ _ _ _ s _ _ _ hs).mp (h st' w' hopened)
      · exact ho.elim
      · exact hspun st' w' ho

/-- A command opens the connection. -/
theorem connects_cmd (c : Str) :
    ConnectsFirst P net i f (cmd Aio.FTPBlob.dialect fuel (Flavour.aio.connection b fuel) c) :=
  connects_bind (connects_tryCatch (connects_bind (connects_connection hp hb hretries) _) _) _

theorem connects_pasvCmd (c : Str) :
    ConnectsFirst P net i f (pasvCmd Aio.FTPBlob.dialect fuel (Flavour.aio.connection b fuel) c) :=
  connects_bind (connects_bind (connects_cmd hp hb hretries _) _) _

/-- `features` asks the server, or what comes after it is the first use of the connection. -/
theorem connects_features_bind {α : Type} {k : FTPFeatures → FtpProg α}
    (hk : ∀ g, ConnectsFirst P net i f (k g)) :
    ConnectsFirst P net i f
      ((features Aio.FTPBlob.dialect fuel (Flavour.aio.connection b fuel)).bind k) := by
  cases f with
  | none =>
      apply connects_bind
      intro Q hspun h st w hw
      have hfeatures : ∀ st w, st.features = none →
          (wp (eventLoop P net i)
              (features Aio.FTPBlob.dialect fuel (Flavour.aio.connection b fuel)) Q st w ↔
            wp (eventLoop P net i) ((cmd Aio.FTPBlob.dialect fuel (Flavour.aio.connection b fuel)
              featCmd).bind fun r => (Program.ofExcept
                (if r.1 = status then fromFeat r.2 else .ok {})).bind fun f =>
                  (setFeatures f).bind fun _ => .pure f) Q st w) := by
        intro st w hst
        unfold features
        rw [bind_eq, wp_bind, wp_read, bindPost_ok, hst]
        rfl
      rw [hfeatures st w hw.features]
      apply connects_bind (connects_cmd hp hb hretries _) _ Q hspun _ st w hw
      intro st' w' hopened
      rw [← hfeatures st' w' hopened.features]
      exact h st' w' hopened
  | some g =>
      intro Q hspun h st w hw
      rw [wp_bind, wp_features_known hw.features]
      apply hk g Q hspun _ st w hw
      intro st' w' hopened
      have hbody := h st' w' hopened
      rwa [wp_bind, wp_features_known hopened.features] at hbody

theorem connects_put (key : Str) (data : Bytes) :
    ConnectsFirst P net i f (put Aio.FTPBlob.dialect fuel (Flavour.aio.connection b fuel) key data) := by
  unfold put ensureParentDirs
  cases iterParentDirs key with
  | nil => exact connects_bind (connects_bind (connects_cmd hp hb hretries _) _) _
  | cons dir dirs =>
      apply connects_bind
      exact connects_bind (connects_bind (connects_cmd hp hb hretries _) _) _

/-- Both ways to consume a scan begin with a command, or with `features`. -/
theorem connects_scan (pre : Str) :
    Generates (ConnectsFirst P net i f)
      (scan Aio.FTPBlob.dialect fuel (Flavour.aio.connection b fuel) pre) := by
  have hlist : ∀ verb parser rest, Generates (ConnectsFirst P net i f)
      (listDir Aio.FTPBlob.dialect fuel (Flavour.aio.connection b fuel) verb parser rest []) := by
    intro verb parser rest
    -- at every depth the directory is listed first
    obtain ⟨k, hk⟩ : ∃ k, listDir Aio.FTPBlob.dialect fuel (Flavour.aio.connection b fuel) verb
        parser rest [] = (listData Aio.FTPBlob.dialect fuel (Flavour.aio.connection b fuel) verb
          (rstrip isSlash [])).embed.bind k := by
      cases rest with
      | nil => exact ⟨_, by unfold listDir; rfl⟩
      | cons part rest => exact ⟨_, by unfold listDir; rfl⟩
    have hdata : ConnectsFirst P net i f (listData Aio.FTPBlob.dialect fuel
        (Flavour.aio.connection b fuel) verb (rstrip isSlash [])) :=
      connects_tryCatch (connects_bind (connects_pasvCmd hp hb hretries _) _) _
    rw [hk]
    refine ⟨?_, fun q => ?_⟩
    · rw [collect_embed_bind]
      exact connects_bind hdata _
    · rw [anyYield_embed_bind]
      exact connects_bind hdata _
  have hscan : ∀ g : FTPFeatures, Generates (ConnectsFirst P net i f)
      (if g.supportsMlsd then
        listDir Aio.FTPBlob.dialect fuel (Flavour.aio.connection b fuel) mlsdVerb parseMlsdLine
          (parts pre) []
      else
        listDir Aio.FTPBlob.dialect fuel (Flavour.aio.connection b fuel) listVerb parseListLine
          (parts pre) []) := by
    intro g
    split
    · exact hlist _ _ _
    · exact hlist _ _ _
  unfold scan
  rw [bind_eq]
  refine ⟨?_, fun q => ?_⟩
  · rw [collect_embed_bind]
    exact connects_features_bind hp hb hretries fun g => (hscan g).1
  · rw [anyYield_embed_bind]
    exact connects_features_bind hp hb hretries fun g => (hscan g).2 q

theorem connects_exists (key : Str) :
    ConnectsFirst P net i f
      (exists' Aio.FTPBlob.dialect fuel (Flavour.aio.connection b fuel) key) := by
  apply connects_features_bind hp hb hretries
  intro g
  unfold sizeAnswer
  split
  · exact connects_bind (connects_bind (connects_cmd hp hb hretries _) _) _
  · show ConnectsFirst P net i f ((mlstAnswer Aio.FTPBlob.dialect fuel (Flavour.aio.connection b fuel)
      g key).bind _)
    unfold mlstAnswer
    split
    · exact connects_bind (connects_bind (connects_cmd hp hb hretries _) _) _
    · exact (connects_scan hp hb hretries key).2 _

/-- Every call but `close` connects before anything else. -/
theorem connects_perform {c : Call} (hc : c ≠ .close) :
    ConnectsFirst P net i f ((Flavour.aio.backend b fuel).perform c) := by
  cases c with
  | open' => exact connects_bind (connects_bind (connects_connection hp hb hretries) _) _
  | close => exact absurd rfl hc
  | put key data => exact connects_bind (connects_put hp hb hretries key data) _
  | get key => exact connects_bind (connects_pasvCmd hp hb hretries _) _
  | delete key => exact connects_bind (connects_bind (connects_cmd hp hb hretries _) _) _
  | exists' key => exact connects_bind (connects_exists hp hb hretries key) _
  | scan pre => exact connects_bind (connects_scan hp hb hretries pre).1 _

end First

/-! ## Tasks that take turns -/

section Stable

variable {P : Peer S} {net : N → Option Nat × N} {t : Session S N}

theorem matched_sent (b : Bytes) : (t.sent P b).matched = t.matched := by
  unfold Session.sent
  generalize (splitCrlf b).dropLast = ls
  induction ls generalizing t with
  | nil => rfl
  | cons l ls ih => exact ih (t := t.serve P l)

theorem matched_transferred (o : FtpOp) : (t.transferred P o).matched = t.matched := by
  unfold Session.transferred
  dsimp only
  split
  · unfold Session.finished
    split <;> rfl
  · rfl

/-- A reply that was not the one to its command stays on the books. -/
theorem matched_of_session {o : FtpOp} (h : (session P net t o).2.matched = true) :
    t.matched = true := by
  unfold session at h
  split at h
  · dsimp only at h
    split at h <;> exact h
  · exact (matched_sent _).symm.trans h
  · exact (matched_sent _).symm.trans h
  · exact h
  · exact h
  · unfold Session.deliver at h
    split at h <;> exact h
  · exact h
  · exact h
  · exact h
  · exact (Bool.and_eq_true_iff.mp h).1
  · exact (matched_transferred _).symm.trans h

end Stable

section Turns

variable {P : Peer S} {net : N → Option Nat × N} {b : FTPBlob} {fuel : Nat} {i : ι}

theorem logins_le (w : EventLoop ι S N) (o : FtpOp) :
    w.logins ≤ (eventLoop P net i w o).2.logins := by
  unfold eventLoop
  split
  · split <;> exact Nat.le.refl
  · dsimp only
    unfold EventLoop.seen
    split
    · exact Nat.le.refl
    · exact Nat.le_succ _
    · exact Nat.le.refl
    · exact Nat.le.refl
    · exact Nat.le.refl

/-- What has gone wrong cannot be mended. -/
theorem paired_stable (w : EventLoop ι S N) (o : FtpOp) (h : Paired (eventLoop P net i w o).2) :
    Paired w where
  matched := by
    have hmatched := h.matched
    unfold eventLoop at hmatched
    split at hmatched
    · split at hmatched <;> exact hmatched
    · exact matched_of_session hmatched
  own := by
    have hown := h.own
    unfold eventLoop at hown
    split at hown
    · split at hown <;> exact hown
    · dsimp only at hown
      unfold EventLoop.seen at hown
      split at hown
      · exact hown
      · exact hown
      · exact hown
      · exact (Bool.and_eq_true_iff.mp hown).1
      · exact hown
  logins := (logins_le w o).trans h.logins

variable (hp : Healthy P net b) (hb : LoginPlain b)

include hp hb

/-- A call of a task that is alone, on a connection that is open. -/
theorem wp_perform_opened {c : Call} (hc : Ordinary c) {f : Option FTPFeatures} {st : State}
    {w : EventLoop ι S N} (hw : Opened f st w) :
    wp (eventLoop P net i) ((Flavour.aio.backend b fuel).perform c)
      (fun o st w => Paired w ∧ (o ≠ .spun → ∃ f, Opened f st w)) st w := by
  have hclose : c ≠ .close := hc.ne_close
  obtain ⟨s, hs⟩ := Option.ne_none_iff_exists'.mp hw.conn
  have hfollows : Follows P net i ((Flavour.aio.backend b fuel).perform c) :=
    follows_perform b fuel hclose
  have hcount : wp (eventLoop P net i) ((Flavour.aio.backend b fuel).perform c)
      (fun _ => Counted (some s) 1) st w :=
    keepsCount_perform s hclose st w ⟨fun _ hs' => Option.some.inj hs' ▸ hs, hw.logins⟩
  have hquiet : wp (session P net) ((Flavour.aio.backend b fuel).perform c)
      (afterwards Quiet fun t => t.toBook.Sound) st w.session := wp_perform_quiet hp hb hc hw.quiet
  apply wp_mono (wp_and (hfollows ⟨none, by simp⟩ st w _ hw.projects) hcount)
  rintro o st' w' ⟨⟨t', hrun, hwaiting, hown, -, rfl⟩, hheld, hlogins⟩
  unfold wp at hquiet
  rw [hrun] at hquiet
  have hopened : Quiet st' w'.session → ∃ f, Opened f st' w' := by
    intro hq
    exact ⟨st'.features, ⟨⟨hq, hwaiting, hown, rfl⟩, by simp [hheld s rfl], hlogins⟩⟩
  have hle : w'.logins ≤ 1 := by omega
  cases o with
  | ok v => exact ⟨⟨(Quiet.sound hquiet).matched, hown, hle⟩, fun _ => hopened hquiet⟩
  | error e => exact ⟨⟨(Quiet.sound hquiet).matched, hown, hle⟩, fun _ => hopened hquiet⟩
  | spun => exact ⟨⟨Book.Sound.matched hquiet, hown, hle⟩, fun hne => absurd rfl hne⟩

/-- Calls of one task after the other keep the replies paired, and only the first one logs in. -/
theorem takesTurns (hretries : 0 < b.retries) :
    TakesTurns (eventLoop P net) (Flavour.aio.backend b fuel).perform Ordinary
      (fun st (w : EventLoop ι S N) => ∃ f, Unopened f st w ∨ Opened f st w) Paired
      (fun w => 0 < w.logins) where
  good := by
    rintro st w ⟨f, hw | hw⟩
    · exact hw.paired_of_le (by rw [hw.logins]; omega)
    · exact hw.paired_of_le (by rw [hw.logins])
  stable i w o h := paired_stable w o h
  lasting i w o h := Nat.lt_of_lt_of_le h (logins_le w o)
  call := by
    intro i c st w hc hw
    have hopened : ∀ f st w, Opened f st w →
        wp (eventLoop P net i) ((Flavour.aio.backend b fuel).perform c)
          (fun o st w => Paired w ∧ (o ≠ .spun →
            (∃ f, Unopened f st w ∨ Opened f st w) ∧ 0 < w.logins)) st w := by
      intro f st w hw
      apply wp_mono (wp_perform_opened hp hb hc hw)
      rintro o st' w' ⟨hgood, hafter⟩
      refine ⟨hgood, fun hne => ?_⟩
      obtain ⟨f', hw'⟩ := hafter hne
      exact ⟨⟨f', .inr hw'⟩, by rw [hw'.logins]; omega⟩
    obtain ⟨f, hw | hw⟩ := hw
    · apply connects_perform hp hb hretries hc.ne_close _ _ (hopened f) st w hw
      exact fun st w hgood => ⟨hgood, fun hne => absurd rfl hne⟩
    · exact hopened f st w hw

end Turns

/-! ## Any number of tasks -/

/-- What tasks that share an object rely on: every reply is the one to the command that the task has
sent, exactly one login is performed, and the calls that have ended gave the results that they give
one after the other, in some order in which those of each task are in theirs. -/
structure Serialised (P : Peer S) (net : N → Option Nat × N) (b : FTPBlob) (fuel : Nat) (x : S)
    (n : N) (cfg : Tasks ι S N) : Prop where
  replies : Paired cfg.world
  loggedIn : ∀ i, (cfg.threads i).done ≠ [] → cfg.world.logins = 1
  serial : ∃ l : List (ι × Call × Outcome PyExc Value),
    (∀ i, (cfg.threads i).done = resultsOf l i) ∧
      (runCalls (session P net) (Flavour.aio.backend b fuel).perform (l.map fun r => r.2.1) b.start
        (.start x n)).1 = l.map fun r => r.2.2

/-- The tasks are about to use a new object, and `todo` says for what. -/
def newTasks (b : FTPBlob) (todo : ι → List Call) (x : S) (n : N) : Tasks ι S N :=
  .start todo b.start { session := .start x n }

/-- **Tasks that take turns share an object safely**: on a server without faults, in every run in
which no task makes a step while another one is in the middle of a call, the replies are paired, one
login is performed, and the calls end as they do one after the other. -/
theorem serialised_in_turns {P : Peer S} {net : N → Option Nat × N} {b : FTPBlob} {fuel : Nat}
    (hp : Healthy P net b) (hb : LoginPlain b) (hretries : 0 < b.retries) {todo : ι → List Call}
    (htodo : ∀ i, ∀ c ∈ todo i, Ordinary c) (x : S) (n : N) {cfg : Tasks ι S N}
    (hrun : Config.Reaches (Flavour.aio.backend b fuel).perform (anyTask P net) Alone
      (newTasks b todo x n) cfg) : Serialised P net b fuel x n cfg := by
  have henv : AnswersLike (anyTask P net) (eventLoop (ι := ι) P net) :=
    fun i w o r hr => Option.some.inj hr
  have hfresh : Fresh b b.start (Session.start x n) := ⟨rfl, x, n, rfl⟩
  have hidle : Idle b.pendingFeatures b.start
      ({ session := .start x n } : EventLoop ι S N) := ⟨hfresh.quiet, rfl, rfl, rfl⟩
  obtain ⟨hpaired, l, y, hturn⟩ := reaches_turns (takesTurns hp hb hretries) henv htodo
    ⟨b.pendingFeatures, .inl ⟨hidle, rfl, rfl⟩⟩ hrun
  have hsimulates : ∀ (i : ι) c, Ordinary c → Simulates (eventLoop P net i) (session P net)
      (Projects none) ((Flavour.aio.backend b fuel).perform c) := by
    intro i c hc
    exact follows_perform b fuel hc.ne_close ⟨none, by simp⟩
  obtain ⟨t, hserial, -⟩ := hturn.turns.runCalls_eq hsimulates hidle.projects
  refine ⟨hpaired, fun i hne => ?_, l, hturn.results, congrArg Prod.fst hserial⟩
  have hl : l ≠ [] := by
    rintro rfl
    exact hne (hturn.results i)
  have hpos := hturn.done hl
  have hle := hpaired.logins
  omega

/-! ## Two tasks -/

instance (cfg : Tasks Bool S N) (i : Bool) : Decidable (Alone cfg i) :=
  inferInstanceAs (Decidable (∀ j, j ≠ i → (cfg.threads j).now = none))

theorem faultless_small : Faultless smallPeer.other where
  sendall l ch s b := by cases l <;> rfl
  drain l ch s := by cases l <;> rfl
  wait l ch s := by cases l <;> rfl
  close l ch s := by cases l <;> rfl
  waitClosed l ch s := by cases l <;> rfl

theorem healthy_small : Healthy smallPeer prompt sized where
  osErrors := osErrors_small
  faultless := faultless_small
  punctual := punctual_prompt
  connects l := ⟨⟨0⟩, by cases l <;> rfl⟩
  admits l := ⟨rfl, .inl ⟨rfl, rfl, trivial⟩⟩

/-- One task is about to ask for the file `a`, and the other one for `b`. -/
def twoTasks : Tasks Bool (List Bytes) Unit :=
  newTasks sized (fun i => [.exists' (if i then ['b'] else ['a'])]) [] ()

/-- One task after the other. -/
def oneByOne : Option (Tasks Bool (List Bytes) Unit) :=
  Config.runSchedule (Flavour.aio.backend sized 2).perform (anyTask smallPeer prompt) Alone
    (List.replicate 64 false ++ List.replicate 19 true) twoTasks

theorem oneByOne_isSome : oneByOne.isSome = true := by decide +kernel

theorem serialised_oneByOne :
    Serialised smallPeer prompt sized 2 [] () (oneByOne.get oneByOne_isSome) ∧
      ((oneByOne.get oneByOne_isSome).threads true).done = [(.exists' ['b'], .ok (.bool false))] := by
  have hrun := Config.reaches_of_runSchedule _ (Option.some_get oneByOne_isSome).symm
  refine ⟨serialised_in_turns healthy_small loginPlain_sized (by decide) (fun i c hc => ?_) [] () hrun,
    by decide +kernel⟩
  obtain rfl := List.mem_singleton.mp hc
  cases i with
  | false => exact not_breaksLine_of_notMem (by decide)
  | true => exact not_breaksLine_of_notMem (by decide)

/-- The first task waits for the greeting of the server when the other one begins its call. -/
def overlapping : Option (Tasks Bool (List Bytes) Unit) :=
  Config.runSchedule (Flavour.aio.backend sized 2).perform (anyTask smallPeer prompt)
    (fun _ _ => True) (List.replicate 10 false ++ List.replicate 12 true) twoTasks

theorem overlapping_isSome : overlapping.isSome = true := by decide +kernel

/-- The call of the second task raises `RuntimeError`. -/
theorem not_serialised_overlapping :
    Healthy smallPeer prompt sized ∧
      Config.Reaches (Flavour.aio.backend sized 2).perform (anyTask smallPeer prompt) (fun _ _ => True)
        twoTasks (overlapping.get overlapping_isSome) ∧
      ((overlapping.get overlapping_isSome).threads true).done =
        [(.exists' ['b'], .error (.ioError secondRead))] ∧
      ¬ Serialised smallPeer prompt sized 2 [] () (overlapping.get overlapping_isSome) := by
  have hsecond : ((overlapping.get overlapping_isSome).threads true).done =
      [(.exists' ['b'], .error (.ioError secondRead))] := by decide +kernel
  have hfirst : ((overlapping.get overlapping_isSome).threads false).done = [] := by decide +kernel
  refine ⟨healthy_small, Config.reaches_of_runSchedule _ (Option.some_get overlapping_isSome).symm,
    hsecond, ?_⟩
  intro hserialised
  obtain ⟨l, hresults, hserial⟩ := hserialised.serial
  -- the call of the second task would be the only one, and so it would return
  have hall : l.map Prod.snd = [(.exists' ['b'], .error (.ioError secondRead))] := by
    rw [← hsecond, hresults true]
    apply map_snd_eq_resultsOf
    intro j hj
    rw [Bool.eq_false_iff.mpr hj, ← hresults false, hfirst]
  have hcalls : (l.map fun r => r.2.1) = [.exists' ['b']] := by
    rw [show (fun r : Bool × Call × Outcome PyExc Value => r.2.1) = Prod.fst ∘ Prod.snd from rfl,
      ← List.map_map, hall]
    rfl
  have houtcomes : (l.map fun r => r.2.2) = [.error (.ioError secondRead)] := by
    rw [show (fun r : Bool × Call × Outcome PyExc Value => r.2.2) = Prod.snd ∘ Prod.snd from rfl,
      ← List.map_map, hall]
    rfl
  have halone : (runCalls (session smallPeer prompt) (Flavour.aio.backend sized 2).perform
      [.exists' ['b']] sized.start (.start [] ())).1 = [.ok (.bool false)] := by decide +kernel
  rw [hcalls, houtcomes, halone] at hserial
  simp at hserial

end GufoBlob.Ftp
