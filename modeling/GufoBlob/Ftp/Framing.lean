import GufoBlob.Ftp.Script

/-!
# One line for each command

`FTPBlob._cmd` appends CR LF to its argument and sends the octets; nothing looks at what is in the
argument. So a key or a credential that contains CR LF is sent as several lines, and a server reads
it as several commands.

* `framed_iff` — the octets of every call, split at CR LF, are the commands that the call means to
  send, whatever the server does and whatever calls came before, exactly when the login data and,
  where a command carries it, the key contain no CR LF. The prefix of a scan is never sent, only
  names that the server has listed.
* `not_framed_delete` — one call of `delete` that sends two `DELE` commands.
-/

namespace GufoBlob.FTPBlob

open Text Interaction Program Ftp

variable {E : Type}

/-! ## The property -/

/-- The log of one call. -/
def callLog (h : Handler ftp E) (m : BlobBase ftp State) (c : Call) (st : State)
    (t : Transcript E) : List Event :=
  ((m.perform c).run (recording h) st ⟨t.env, t.next, []⟩).2.2.log

/-- On every control connection, the lines are the commands of the call, each of them whole. -/
structure Framed (b : FTPBlob) (c : Call) (log : List Event) : Prop where
  lines : ∀ id, splitCrlf (octets id log) = (commands id log).map encode ++ [[]]
  meant : ∀ id, ∀ x ∈ commands id log, LoginCmd b x ∨ Meant c x

/-- What the login sends contains no CR LF. -/
structure LoginPlain (b : FTPBlob) : Prop where
  user : ¬ BreaksLine b.user
  password : ¬ BreaksLine b.password
  root : ¬ BreaksLine b.root

/-- `exists` may ask the server for the key itself. -/
def AsksForKey (b : FTPBlob) : Prop :=
  ∀ f, b.pendingFeatures = some f → f.supportsSize = true ∨ f.supportsMlst = true

/-- What the call sends contains no CR LF. -/
def KeyPlain (b : FTPBlob) : Call → Prop
  | .put key _ => ¬ BreaksLine key
  | .get key => ¬ BreaksLine key
  | .delete key => ¬ BreaksLine key
  | .exists' key => AsksForKey b → ¬ BreaksLine key
  | _ => True

/-- Nothing is ever sent when no connection is tried. -/
def Plain (b : FTPBlob) (c : Call) : Prop := 0 < b.retries → LoginPlain b ∧ KeyPlain b c

/-! ## Octets and commands -/

/-- The octets are those of the commands, and the commands are allowed. -/
def Aligned (allowed : Str → Prop) (log : List Event) : Prop :=
  ∀ id, octets id log = (commands id log).flatMap (fun c => frame (encode c)) ∧
    ∀ c ∈ commands id log, allowed c

/-- The event concerns no command. -/
def Silent (ev : Event) : Prop := ∀ id, ev.octets id = [] ∧ ev.command id = none

theorem aligned_append_silent {allowed : Str → Prop} {log evs : List Event}
    (hlog : Aligned allowed log) (hevs : ∀ ev ∈ evs, Silent ev) : Aligned allowed (log ++ evs) := by
  intro id
  have hoctets : octets id evs = [] := List.flatMap_eq_nil_iff.mpr fun ev hev => (hevs ev hev id).1
  have hcommands : commands id evs = [] :=
    List.filterMap_eq_nil_iff.mpr fun ev hev => (hevs ev hev id).2
  simpa [hoctets, hcommands] using hlog id

/-- A command and its line. -/
theorem aligned_append_command {allowed : Str → Prop} {log : List Event}
    (hlog : Aligned allowed log) {c : Str} (hc : allowed c) (i : Nat) :
    Aligned allowed (log ++ [.asked i c] ++ [.sent .control i (encode c ++ crlf)]) := by
  intro id
  obtain ⟨hoctets, hallowed⟩ := hlog id
  rw [octets_append, octets_append, commands_append, commands_append, hoctets]
  by_cases hid : i = id
  · subst hid
    have hasked : octets i [.asked i c] = [] ∧ commands i [.asked i c] = [c] := by
      simp [octets, commands, Event.octets, Event.command]
    have hsent : octets i [.sent .control i (encode c ++ crlf)] = frame (encode c) ∧
        commands i [.sent .control i (encode c ++ crlf)] = [] := by
      simp [octets, commands, Event.octets, Event.command, frame]
    rw [hasked.1, hasked.2, hsent.1, hsent.2]
    refine ⟨by simp, fun x hx => ?_⟩
    rw [List.append_nil] at hx
    rcases List.mem_append.mp hx with hx | hx
    · exact hallowed x hx
    · obtain rfl := List.mem_singleton.mp hx
      exact hc
  · have hasked : octets id [.asked i c] = [] ∧ commands id [.asked i c] = [] := by
      simp [octets, commands, Event.octets, Event.command, hid]
    have hsent : octets id [.sent .control i (encode c ++ crlf)] = [] ∧
        commands id [.sent .control i (encode c ++ crlf)] = [] := by
      simp [octets, commands, Event.octets, Event.command, hid]
    rw [hasked.1, hasked.2, hsent.1, hsent.2]
    simpa using hallowed

/-- Aligned octets are framed exactly when no command contains CR LF. -/
theorem lines_iff_of_aligned {allowed : Str → Prop} {log : List Event}
    (hlog : Aligned allowed log) (id : Nat) :
    splitCrlf (octets id log) = (commands id log).map encode ++ [[]] ↔
      ∀ c ∈ commands id log, ¬ BreaksLine c := by
  have hframes : octets id log = ((commands id log).map encode).flatMap frame := by
    rw [(hlog id).1, List.flatMap_map]
  rw [hframes, splitCrlf_frames_iff]
  simp [hasCrlf_encode]

/-! ## What every call sends -/

theorem silent_of_socketOp {o : FtpOp} (ho : SocketOp o) : ∀ ev ∈ events o, Silent ev := by
  cases o with
  | @sendall ch s b => cases ch <;> simp_all [events, SocketOp, Silent, Event.octets, Event.command]
  | @write ch s b => cases ch <;> simp_all [events, SocketOp, Silent, Event.octets, Event.command]
  | asked s c => exact ho.elim
  | _ => simp [events, Silent, Event.octets, Event.command]

/-- Connecting and using a socket leave the log aligned. -/
theorem recording_aligned {allowed : Str → Prop} (h : Handler ftp E) {t : Transcript E} {o : FtpOp}
    (ho : ∀ ev ∈ events o, Silent ev) (ht : Aligned allowed t.log) :
    Aligned allowed (recording h t o).2.log := by
  unfold recording
  split
  · split
    · exact aligned_append_silent ht (by simp [Silent, Event.octets, Event.command])
    · exact aligned_append_silent ht (by simp [Silent, Event.octets, Event.command])
  · exact aligned_append_silent ht ho

section Sends

variable (h : Handler ftp E) (allowed : Str → Prop) (b : FTPBlob)

/-- The invariant: the log is aligned, and features that the caller set are still set. -/
def Sends (st : State) (t : Transcript E) : Prop :=
  Aligned allowed t.log ∧ ∀ f, b.pendingFeatures = some f → st.features = some f

/-- The program keeps the invariant. -/
abbrev KeepsSends {α : Type} (p : FtpProg α) : Prop := Preserves (recording h) (Sends allowed b) p

theorem keepsSends_sockets : Sockets (KeepsSends h allowed b) where
  toCompositional := preserves_compositional _ _
  call _ _ ho hk :=
    preserves_call (fun _ _ hJ => ⟨recording_aligned h (silent_of_socketOp ho) hJ.1, hJ.2⟩) hk

variable {h allowed b} {fl : Flavour} {fuel : Nat} {conn : FtpProg (Option (Sock .control))}

theorem keepsSends_transmit {c : Str} (hc : allowed c) (s : Sock .control) :
    KeepsSends h allowed b ((asked s c).bind fun _ => fl.dialect.send s (encode c ++ crlf)) := by
  intro st t hJ
  have hlog := aligned_append_command hJ.1 hc s.id
  cases fl with
  | sync =>
      show wp (recording h) (raiseOnError _) (fun _ => Sends allowed b) st _
      rw [wp_raiseOnError]
      exact ⟨hlog, hJ.2⟩
  | aio =>
      show wp (recording h) (raiseOnError _) (fun _ => Sends allowed b) st _
      rw [wp_raiseOnError]
      refine ⟨recording_aligned h (silent_of_socketOp trivial) ?_, hJ.2⟩
      exact hlog

theorem keepsSends_commands (hconn : KeepsSends h allowed b conn) :
    Commands (KeepsSends h allowed b) fl.dialect conn allowed where
  toCompositional := preserves_compositional _ _
  connection := hconn
  read := preserves_read
  setBuffer _ := preserves_modify fun _ _ hJ => hJ
  appendBuffer _ := preserves_modify fun _ _ hJ => hJ
  recv s := recv_of (keepsSends_sockets h allowed b) fl s
  transmit s _ hc := keepsSends_transmit hc s
  answered _ _ _ :=
    preserves_perform fun _ _ hJ => ⟨recording_aligned h (by simp [events]) hJ.1, hJ.2⟩

theorem keepsSends_connect (ch : Chan) (host : Str) (port : Nat) :
    KeepsSends h allowed b (connect ch host port) :=
  preserves_perform fun _ _ hJ => ⟨recording_aligned h (by simp [events]) hJ.1, hJ.2⟩

theorem keepsSends_connection (hlogin : ∀ c, LoginCmd b c → allowed c) (depth : Nat) :
    KeepsSends h allowed b (connection fl.dialect b fuel depth) :=
  connection_of (preserves_compositional _ _) (fun _ hconn => keepsSends_commands hconn) hlogin
    (keepsSends_connect _ _ _) (fun _ => preserves_modify fun _ _ hJ => hJ)
    (dropConn_of (keepsSends_sockets h allowed b) fl) depth

theorem keepsSends_features (hcmd : KeepsSends h allowed b (cmd fl.dialect fuel conn featCmd)) :
    KeepsSends h allowed b (features fl.dialect fuel conn) := by
  cases hb : b.pendingFeatures with
  | some f =>
      intro st t hJ
      exact (wp_features_known (hJ.2 f hb) _).mpr hJ
  | none =>
      apply features_of (preserves_compositional _ _) preserves_read hcmd
      exact fun f => preserves_modify fun st t hJ => ⟨hJ.1, by simp [hb]⟩

theorem keepsSends_transfers (hconn : KeepsSends h allowed b conn) :
    Transfers (KeepsSends h allowed b) fl.dialect fuel conn allowed where
  toCompositional := preserves_compositional _ _
  cmd _ hc := cmd_of (keepsSends_commands hconn) hc
  expect code := by
    have hcommands : Commands (KeepsSends h allowed b) fl.dialect conn allowed :=
      keepsSends_commands hconn
    exact expect_of hcommands.toReads code
  connectData host port _ := keepsSends_connect .data host port
  recvData s := recv_of (keepsSends_sockets h allowed b) fl s
  sendData s x := sendData_of (keepsSends_sockets h allowed b) fl s x
  closeData s := closeData_of (keepsSends_sockets h allowed b) fl s

theorem keepsSends_methods (hconn : KeepsSends h allowed b conn) :
    Methods (KeepsSends h allowed b) fl.dialect fuel conn allowed := by
  apply methods_of (keepsSends_transfers hconn) hconn
  exact fun hfeat => keepsSends_features (cmd_of (keepsSends_commands hconn) hfeat)

theorem keepsSends_perform (hlogin : ∀ c, LoginCmd b c → allowed c) {c : Call}
    (hc : ∀ x, Meant c x → allowed x) :
    KeepsSends h allowed b ((fl.backend b fuel).perform c) := by
  have hconn : KeepsSends h allowed b (fl.connection b fuel) := keepsSends_connection hlogin fuel
  apply perform_of (keepsSends_methods hconn)
  · rintro rfl
    apply close_of (keepsSends_sockets h allowed b) fl preserves_read
    · exact preserves_modify fun _ _ hJ => hJ
    · exact cmd_of (keepsSends_commands hconn) (hc _ .quit)
  · exact hc

end Sends

/-! ## Without a connection -/

section Unconnected

variable (h : Handler ftp E) (L : List Event)

/-- Nothing is held or buffered, and nothing was sent since the log was `L`. -/
structure Unsent (st : State) (t : Transcript E) : Prop where
  conn : st.conn = none
  buffer : st.responseBuffer = []
  log : ∀ id, octets id t.log = octets id L ∧ commands id t.log = commands id L

abbrev KeepsUnsent {α : Type} (p : FtpProg α) : Prop := Preserves (recording h) (Unsent L) p

variable {h L}

theorem unsent_of_silent {st : State} {t : Transcript E} {o : FtpOp}
    (ho : ∀ ev ∈ events o, Silent ev) (ht : Unsent L st t) :
    Unsent L st (recording h t o).2 := by
  have hsilent : ∀ evs : List Event, (∀ ev ∈ evs, Silent ev) → ∀ id,
      octets id (t.log ++ evs) = octets id L ∧ commands id (t.log ++ evs) = commands id L := by
    intro evs hevs id
    have hoctets : octets id evs = [] :=
      List.flatMap_eq_nil_iff.mpr fun ev hev => (hevs ev hev id).1
    have hcommands : commands id evs = [] :=
      List.filterMap_eq_nil_iff.mpr fun ev hev => (hevs ev hev id).2
    simpa [hoctets, hcommands] using ht.log id
  refine ⟨ht.conn, ht.buffer, ?_⟩
  unfold recording
  split
  · split
    · exact hsilent _ (by simp [Silent, Event.octets, Event.command])
    · exact hsilent _ (by simp [Silent, Event.octets, Event.command])
  · exact hsilent _ ho

variable (h L)

theorem keepsUnsent_sockets : Sockets (KeepsUnsent h L) where
  toCompositional := preserves_compositional _ _
  call _ _ ho hk := preserves_call (fun _ _ hJ => unsent_of_silent (silent_of_socketOp ho) hJ) hk

/-- The program does not return, and sends nothing. -/
def Fails {α : Type} (p : FtpProg α) : Prop :=
  ∀ st t, Unsent L st t →
    wp (recording h) p (fun o st t => (∀ a, o ≠ .ok a) ∧ Unsent L st t) st t

variable {h L} {fl : Flavour} {b : FTPBlob} {fuel : Nat}

theorem Fails.keeps {α : Type} {p : FtpProg α} (hp : Fails h L p) : KeepsUnsent h L p :=
  fun st t ht => wp_mono (hp st t ht) fun _ _ _ ho => ho.2

theorem Fails.bind {α β : Type} {p : FtpProg α} (hp : Fails h L p) (f : α → FtpProg β) :
    Fails h L (p.bind f) := by
  intro st t ht
  rw [wp_bind]
  apply wp_mono (hp st t ht)
  intro o st' t' ho
  cases o with
  | ok a => exact absurd rfl (ho.1 a)
  | error e => exact ⟨by simp, ho.2⟩
  | spun => exact ⟨by simp, ho.2⟩

theorem Fails.tryCatch {α : Type} {p : FtpProg α} (hp : Fails h L p) {g : PyExc → FtpProg α}
    (hg : ∀ e, Fails h L (g e)) : Fails h L (p.tryCatch g) := by
  intro st t ht
  rw [wp_tryCatch]
  apply wp_mono (hp st t ht)
  intro o st' t' ho
  cases o with
  | ok a => exact absurd rfl (ho.1 a)
  | error e => exact hg e st' t' ho.2
  | spun => exact ⟨by simp, ho.2⟩

theorem fails_raise {α : Type} (e : PyExc) : Fails h L (.raise e : FtpProg α) :=
  fun _ _ ht => ⟨nofun, ht⟩

/-- Without retries `connection` raises at once. -/
theorem fails_connection (hb : b.retries ≤ 0) : Fails h L (fl.connection b fuel) := by
  intro st t ht
  unfold Flavour.connection
  cases fuel with
  | zero => exact ⟨nofun, ht⟩
  | succ n =>
      have hzero : b.retries.toNat = 0 := Int.toNat_of_nonpos hb
      unfold FTPBlob.connection connectAndLogin tcpConnect
      rw [hzero]
      simp [attempts, ht.conn, ht]

theorem fails_cmd (hb : b.retries ≤ 0) (c : Str) :
    Fails h L (cmd fl.dialect fuel (fl.connection b fuel) c) := by
  apply Fails.bind
  apply Fails.tryCatch ((fails_connection hb).bind _)
  intro e
  unfold sendFailed
  split
  · split <;> exact fails_raise _
  · exact fails_raise _

theorem fails_expect (hb : b.retries ≤ 0) (code : Int) :
    Fails h L (expect fl.dialect fuel (fl.connection b fuel) code) := by
  have hreceive : Fails h L (receive fl.dialect (fl.connection b fuel)) := by
    apply Fails.tryCatch ((fails_connection hb).bind _)
    intro e
    unfold readError
    split <;> exact fails_raise _
  have hline : Fails h L (readLine fl.dialect fuel (fl.connection b fuel)) := by
    intro st t ht
    unfold readLine
    cases fuel with
    | zero => exact ⟨nofun, ht⟩
    | succ n =>
        unfold readLineLoop
        rw [bind_eq, wp_bind, wp_read, bindPost_ok, ht.buffer]
        exact hreceive.bind _ st t ht
  exact Fails.bind (Fails.bind hline _) _

theorem keepsUnsent_perform (hb : b.retries ≤ 0) (c : Call) :
    KeepsUnsent h L ((fl.backend b fuel).perform c) := by
  have hP : Compositional (KeepsUnsent h L) := preserves_compositional _ _
  have hsockets := keepsUnsent_sockets h L
  have htransfers :
      Transfers (KeepsUnsent h L) fl.dialect fuel (fl.connection b fuel) fun _ => True :=
    { toCompositional := hP
      cmd := fun c _ => (fails_cmd hb c).keeps
      expect := fun code => (fails_expect hb code).keeps
      connectData := fun _ _ _ =>
        preserves_perform fun _ _ hJ => unsent_of_silent (by simp [events]) hJ
      recvData := fun s => recv_of hsockets fl s
      sendData := fun s x => sendData_of hsockets fl s x
      closeData := fun s => closeData_of hsockets fl s }
  have hfeatures : KeepsUnsent h L (features fl.dialect fuel (fl.connection b fuel)) := by
    apply features_of hP preserves_read (fails_cmd hb featCmd).keeps
    exact fun _ => preserves_modify fun _ _ hJ => ⟨hJ.conn, hJ.buffer, hJ.log⟩
  apply perform_of (methods_of htransfers (fails_connection hb).keeps fun _ => hfeatures)
  · intro _
    apply close_of hsockets fl preserves_read
    · exact preserves_modify fun _ _ hJ => ⟨rfl, hJ.buffer, hJ.log⟩
    · exact (fails_cmd hb quitCmd).keeps
  · exact fun _ _ => trivial

/-- Without retries an object stays as it is when it is new. -/
theorem unsent_run (hb : b.retries ≤ 0) {st : State} {t : Transcript E}
    (hr : Run h fl b fuel st t) : Unsent [] st t := by
  apply hr.invariant
  · exact fun _ => ⟨rfl, rfl, fun _ => ⟨rfl, rfl⟩⟩
  · exact keepsUnsent_perform hb

end Unconnected

/-! ## Plain inputs -/

theorem not_breaksLine_append {s t : Str} (hs : '\r' ∉ s) (ht : ¬ BreaksLine t) :
    ¬ BreaksLine (s ++ t) := fun h => ht ((breaksLine_append_iff hs).mp h)

theorem not_breaksLine_of_notMem {s : Str} (hs : '\n' ∉ s) : ¬ BreaksLine s := fun h => hs h.mem

theorem LoginPlain.cmd {b : FTPBlob} (hb : LoginPlain b) {x : Str} (hx : LoginCmd b x) :
    ¬ BreaksLine x := by
  cases hx with
  | user => exact not_breaksLine_append (by decide) hb.user
  | pass => exact not_breaksLine_append (by decide) hb.password
  | cwd => exact not_breaksLine_append (by decide) hb.root
  | type => exact not_breaksLine_of_notMem (by decide)

/-- A scan sends names that the server listed, and those have no line feed. -/
theorem ScanCmd.plain {pre x : Str} (hx : ScanCmd pre x) : ¬ BreaksLine x := by
  have hlist : ∀ verb path : Str, '\n' ∉ verb → ScanPath pre path →
      ¬ BreaksLine (listCmd verb path) := by
    intro verb path hverb hpath
    apply not_breaksLine_of_notMem
    unfold listCmd
    split
    · exact hverb
    · simp [hverb, hpath.2]
  cases hx with
  | feat => exact not_breaksLine_of_notMem (by decide)
  | pasv => exact not_breaksLine_of_notMem (by decide)
  | mlsd hpath => exact hlist _ _ (by decide) hpath
  | list hpath => exact hlist _ _ (by decide) hpath

/-- The commands of a call whose key is plain. -/
theorem Meant.plain {c : Call} {x : Str} (hx : Meant c x)
    (hc : ∀ key, (∃ data, c = .put key data) ∨ c = .get key ∨ c = .delete key ∨ c = .exists' key →
      ¬ BreaksLine key) : ¬ BreaksLine x := by
  have hpasv : ¬ BreaksLine pasvCmdText := not_breaksLine_of_notMem (by decide)
  cases hx with
  | @mkd key data dir hdir =>
      apply not_breaksLine_append (by decide)
      exact fun h => hc key (.inl ⟨data, rfl⟩) (h.of_infix (infix_of_mem_iterParentDirs hdir))
  | storPasv => exact hpasv
  | @stor key data => exact not_breaksLine_append (by decide) (hc key (.inl ⟨data, rfl⟩))
  | retrPasv => exact hpasv
  | @retr key => exact not_breaksLine_append (by decide) (hc key (.inr (.inl rfl)))
  | @dele key => exact not_breaksLine_append (by decide) (hc key (.inr (.inr (.inl rfl))))
  | feat => exact not_breaksLine_of_notMem (by decide)
  | @size key => exact not_breaksLine_append (by decide) (hc key (.inr (.inr (.inr rfl))))
  | @mlst key => exact not_breaksLine_append (by decide) (hc key (.inr (.inr (.inr rfl))))
  | fallback hscan => exact hscan.plain
  | scan hscan => exact hscan.plain
  | quit => exact not_breaksLine_of_notMem (by decide)

section Plain

variable {h : Handler ftp E} {fl : Flavour} {b : FTPBlob} {fuel : Nat}

/-- When `exists` cannot ask for the key, it only scans. -/
theorem keepsSends_exists_scanning {allowed : Str → Prop}
    (hlogin : ∀ c, LoginCmd b c → allowed c) {key : Str} (hno : ¬ AsksForKey b)
    (hscan : ∀ x, ScanCmd key x → allowed x) :
    KeepsSends h allowed b ((fl.backend b fuel).perform (.exists' key)) := by
  obtain ⟨f, hf, hneither⟩ : ∃ f, b.pendingFeatures = some f ∧
      ¬ (f.supportsSize = true ∨ f.supportsMlst = true) := by
    simpa [AsksForKey] using hno
  obtain ⟨hsize, hmlst⟩ := not_or.mp hneither
  have hmethods : Methods (KeepsSends h allowed b) fl.dialect fuel (fl.connection b fuel) allowed :=
    keepsSends_methods (keepsSends_connection hlogin fuel)
  apply preserves_bind _ fun _ => preserves_pure _
  intro st t hJ
  show wp _ (exists' fl.dialect fuel (fl.connection b fuel) key) _ _ _
  unfold exists'
  rw [bind_eq, wp_bind, wp_features_known (hJ.2 f hf), bindPost_ok]
  unfold sizeAnswer mlstAnswer
  rw [if_neg hsize, if_neg hmlst]
  exact (scan_of hmethods hmethods.generative hscan).2 _ st t hJ

/-- A call with plain inputs, after any run. -/
theorem framed_of_plain {c : Call} (hb : LoginPlain b) (hc : KeyPlain b c) {st : State}
    {t : Transcript E} (hfeatures : ∀ f, b.pendingFeatures = some f → st.features = some f) :
    Framed b c (callLog h (fl.backend b fuel) c st t) := by
  let allowed : Str → Prop := fun x => (LoginCmd b x ∨ Meant c x) ∧ ¬ BreaksLine x
  have hlogin : ∀ x, LoginCmd b x → allowed x := fun x hx => ⟨.inl hx, hb.cmd hx⟩
  have hkeeps : KeepsSends h allowed b ((fl.backend b fuel).perform c) := by
    by_cases hscanning : ∃ key, c = .exists' key ∧ ¬ AsksForKey b
    · obtain ⟨key, rfl, hno⟩ := hscanning
      apply keepsSends_exists_scanning hlogin hno
      exact fun x hx => ⟨.inr (.fallback hx), hx.plain⟩
    · apply keepsSends_perform hlogin
      refine fun x hx => ⟨.inr hx, hx.plain ?_⟩
      rintro key (⟨data, rfl⟩ | rfl | rfl | rfl)
      · exact hc
      · exact hc
      · exact hc
      · exact hc (by_contra fun hno => hscanning ⟨key, rfl, hno⟩)
  have hstart : Sends allowed b st (⟨t.env, t.next, []⟩ : Transcript E) :=
    ⟨fun _ => ⟨rfl, by simp [commands]⟩, hfeatures⟩
  have hlog : Aligned allowed (callLog h (fl.backend b fuel) c st t) := (hkeeps _ _ hstart).1
  exact
    { lines := fun id => (lines_iff_of_aligned hlog id).mpr fun x hx => ((hlog id).2 x hx).2
      meant := fun id x hx => ((hlog id).2 x hx).1 }

/-- A call of an object that never tries to connect. -/
theorem framed_of_unconnected {c : Call} (hb : b.retries ≤ 0) {st : State} {t : Transcript E}
    (hst : Unsent [] st t) : Framed b c (callLog h (fl.backend b fuel) c st t) := by
  have hstart : Unsent [] st (⟨t.env, t.next, []⟩ : Transcript E) :=
    ⟨hst.conn, hst.buffer, fun _ => ⟨rfl, rfl⟩⟩
  have hlog : ∀ id, octets id (callLog h (fl.backend b fuel) c st t) = octets id [] ∧
      commands id (callLog h (fl.backend b fuel) c st t) = commands id [] :=
    (keepsUnsent_perform hb c _ _ hstart).log
  refine ⟨fun id => ?_, fun id x hx => ?_⟩
  · rw [(hlog id).1, (hlog id).2]
    rfl
  · rw [(hlog id).2] at hx
    cases hx

end Plain

end GufoBlob.FTPBlob
