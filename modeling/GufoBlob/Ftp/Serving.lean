import GufoBlob.Ftp.Transfers

/-!
# Operations on a server of files

`Ready` holds between two operations: no connection has been opened, or one is at rest. In this
state every command is answered, after a login if there is need of one. An operation that changes
no file keeps it.

* `wp_cmd_ready` — a rule for the first command of an operation.
* `ends_features`, `ends_pasvCmd`, `ends_told` — operations that change no file.
-/

namespace GufoBlob.Ftp

open Text Data Interaction Program FTPBlob

/-- No connection is held, and one can be opened and logged in. -/
structure Unconnected {N : Type} (b : FTPBlob) (f : Option FTPFeatures) (tree : RemoteTree)
    (st : State) (t : Session ServerState N) : Prop where
  plain : LoginPlain b
  retries : 0 < b.retries
  conn : st.conn = none
  buffer : st.responseBuffer = []
  features : st.features = f
  tree : t.peer.tree = tree
  sound : t.toBook.Sound

/-- The next operation finds the files of `tree`. -/
def Ready {N : Type} (b : FTPBlob) (f : Option FTPFeatures) (tree : RemoteTree) (st : State)
    (t : Session ServerState N) : Prop :=
  Serves f tree [] st t ∨ Unconnected b f tree st t

/-- The client knows, or is going to learn, the features `g`. -/
def Learns (srv : FileServer) (g : FTPFeatures) : Option FTPFeatures → Prop
  | some f => f = g
  | none => (if srv.feat.code = status then fromFeat srv.feat.lines else .ok {}) = .ok g

/-! ## Logging in -/

section Login

variable {N : Type} {net : N → Option Nat × N} {srv : FileServer} {fl : Flavour} {fuel : Nat}
  {conn : FtpProg (Option (Sock .control))} {f : Option FTPFeatures} {p : ServerState}
  {tree : RemoteTree} {st : State} {t : Session ServerState N} {b : FTPBlob}
  (hnet : ∀ n, (net n).1 ≠ none) (hfuel : srv.limit < fuel)

include hnet hfuel

section

variable (hb : LoginPlain b) (hconn : ∀ s, Holds (session srv.peer net) conn s)

include hb hconn

theorem wp_authenticate_files (ht : Serves f tree [] st t) :
    wp (session srv.peer net) (authenticate fl.dialect fuel conn b)
      (exactly (.ok loginOk) (Serves f tree [])) st t := by
  obtain ⟨p, ht, rfl⟩ := ht
  have huser : ∀ p, srv.serve p (encode b.userCmd) = srv.obey p .user (components b.user) :=
    fun p => FileServer.serve_command (show ' ' ∉ "USER".toList by decide) rfl p b.user
  have hpass : ∀ p, srv.serve p (encode b.passCmd) = srv.tell .loggedIn (by simp) p :=
    fun p => FileServer.serve_command (show ' ' ∉ "PASS".toList by decide) rfl p b.password
  have hloggedIn : ∀ k, (srv.say .loggedIn k).code = loginOk := srv.say_code .loggedIn
  unfold authenticate
  -- 230 to `USER`, or 331 and then 230 to `PASS`
  cases hneeds : srv.needsPassword with
  | false =>
      have hserve : srv.serve p (encode b.userCmd) = srv.tell .loggedIn (by simp) p :=
        (huser p).trans (by simp [FileServer.obey, hneeds])
      apply wp_bind_ok (wp_cmd_tell hnet hconn hfuel (hb.cmd .user) hserve ht)
      intro st' t' ht'
      dsimp only
      rw [hloggedIn, if_neg (by decide)]
      exact ⟨rfl, _, ht', rfl⟩
  | true =>
      have hserve : srv.serve p (encode b.userCmd) = srv.tell .needPassword (by simp) p :=
        (huser p).trans (by simp [FileServer.obey, hneeds])
      have hcode : (srv.say .needPassword p.turn).code = userOk := srv.say_code .needPassword p.turn
      apply wp_bind_ok (wp_cmd_tell hnet hconn hfuel (hb.cmd .user) hserve ht)
      intro st' t' ht'
      dsimp only
      rw [hcode, if_pos rfl]
      apply wp_bind_ok (wp_cmd_tell hnet hconn hfuel (hb.cmd .pass) (hpass _) ht')
      intro st₂ t₂ ht₂
      exact ⟨congrArg _ (hloggedIn _), _, ht₂, rfl⟩

theorem wp_enterRoot_files (ht : Serves f tree [] st t) :
    wp (session srv.peer net) (enterRoot fl.dialect fuel conn b)
      (exactly (.ok ()) (Serves f tree [])) st t := by
  unfold enterRoot
  split
  · exact ⟨rfl, ht⟩
  · next hroot =>
      obtain ⟨p, ht, rfl⟩ := ht
      have hserve : srv.serve p (encode b.cwdCmd) = srv.tell .entered (by simp) p :=
        FileServer.serve_command (show ' ' ∉ "CWD".toList by decide) rfl p ('/' :: b.root)
      apply wp_mono (wp_cmdExpect_tell hnet hconn hfuel (hb.cmd (.cwd (by simpa using hroot))) hserve
        rfl _ ht)
      rintro o st' t' ⟨rfl, ht'⟩
      exact ⟨rfl, _, ht', rfl⟩

theorem wp_login_files (k : Nat) (ht : At f p false (srv.say .greeting k).bytes st t) :
    wp (session srv.peer net) (login fl.dialect fuel conn b)
      (exactly (.ok ()) (Serves f p.tree [])) st t := by
  unfold login
  apply wp_bind_ok (wp_expect_say hnet hconn hfuel .greeting k rfl
    (by rwa [List.append_nil]))
  intro st₁ t₁ ht₁
  apply wp_bind_ok (wp_authenticate_files hnet hfuel hb hconn ⟨p, ht₁, rfl⟩)
  intro st₂ t₂ ht₂
  rw [if_neg (not_not.mpr rfl)]
  apply wp_bind_ok (wp_enterRoot_files hnet hfuel hb hconn ht₂)
  rintro st₃ t₃ ⟨p₃, ht₃, htree⟩
  have hserve : srv.serve p₃ (encode typeCmd) = srv.tell .binary (by simp) p₃ :=
    FileServer.serve_command (show ' ' ∉ "TYPE".toList by decide) rfl p₃ ['I']
  apply wp_mono (wp_cmdExpect_tell hnet hconn hfuel (hb.cmd .type) hserve rfl _ ht₃)
  rintro o st₄ t₄ ⟨rfl, ht₄⟩
  exact ⟨rfl, _, ht₄, htree⟩

end

omit hnet hfuel in
theorem wp_tcpConnect_files (hretries : 0 < b.retries) :
    wp (session srv.peer net) b.tcpConnect
      (exactly (.ok ⟨t.peer.turn⟩) fun st' t' => st' = st ∧ t' = t.opened srv.peer t.peer) st t := by
  obtain ⟨m, hm⟩ : ∃ m, b.retries.toNat = m + 1 := ⟨b.retries.toNat - 1, by omega⟩
  unfold tcpConnect
  rw [hm, attempts, bind_eq, wp_bind, wp_connect_session]
  exact ⟨rfl, rfl, rfl⟩

omit hnet hfuel in
/-- A connection that has been opened. -/
theorem Unconnected.opened (ht : Unconnected b f tree st t) :
    At f (srv.peer.greet t.peer).2 false (srv.say .greeting t.peer.turn).bytes
      { st with conn := some ⟨t.peer.turn⟩ } (t.opened srv.peer t.peer) := by
  refine ⟨⟨⟨t.peer.turn⟩, rfl, rfl, ?_, ⟨[], by simp, ?_⟩, ht.sound.matched, ht.sound.clear⟩,
    ht.features, rfl, rfl⟩
  · show st.responseBuffer ++ _ = _
    rw [ht.buffer]
    rfl
  · show [] = [] ++ st.responseBuffer
    rw [ht.buffer]
    rfl

/-- The first use of the property `connection` opens a connection and logs in. -/
theorem wp_connection_unconnected (ht : Unconnected b f tree st t) :
    wp (session srv.peer net) (fl.connection b fuel)
      (fun o st t => ∃ s, o = .ok (some s) ∧ st.conn = some s ∧ Serves f tree [] st t) st t := by
  have hlength : 2 ≤ srv.limit := by
    have hreply := (srv.say .greeting 0).length
    have hlimit := srv.say_limit .greeting 0
    unfold Reply.bytes Reply.lines at hlimit
    rw [List.flatMap_cons, List.length_append, frame, List.length_append] at hlimit
    unfold minFtpResponse at hreply
    omega
  obtain ⟨n, rfl⟩ : ∃ n, fuel = n + 2 := ⟨fuel - 2, by omega⟩
  have hconn : ∀ s, Holds (session srv.peer net) (connection fl.dialect b (n + 2) (n + 1)) s :=
    connection_holds fl.dialect b (n + 2) n
  unfold Flavour.connection FTPBlob.connection connectAndLogin
  rw [bind_eq, wp_bind, wp_read, bindPost_ok, ht.conn]
  dsimp only
  rw [bind_eq, wp_bind, bind_eq]
  apply wp_bind_ok (wp_tcpConnect_files ht.retries)
  rintro st₁ t₁ ⟨rfl, rfl⟩
  rw [bind_eq, wp_bind, wp_setConn, bindPost_ok]
  apply wp_mono (wp_tryCatch_ok (wp_login_files hnet hfuel ht.plain hconn _ ht.opened))
  rintro o st₂ t₂ ⟨rfl, p₂, ht₂, htree⟩
  obtain ⟨s, hreading⟩ := ht₂.reading
  rw [bindPost_ok, bind_eq, wp_bind, wp_read, bindPost_ok]
  exact ⟨s, congrArg _ hreading.held, hreading.held, p₂, ht₂, htree.trans ht.tree⟩

end Login

/-! ## Operations -/

/-- The program begins with a command. -/
def Begins (d : Dialect) (fuel : Nat) (conn : FtpProg (Option (Sock .control))) {α : Type}
    (q : FtpProg α) : Prop := ∃ c k, q = (cmd d fuel conn c).bind k

section Begins

variable {d : Dialect} {fuel : Nat} {conn : FtpProg (Option (Sock .control))} {α β : Type}

theorem begins_cmd (c : Str) : Begins d fuel conn (cmd d fuel conn c) :=
  ⟨c, .pure, (bind_pure' _).symm⟩

theorem Begins.bind {q : FtpProg α} (hq : Begins d fuel conn q) (k : α → FtpProg β) :
    Begins d fuel conn (q.bind k) := by
  obtain ⟨c, k', rfl⟩ := hq
  exact ⟨c, _, bind_assoc' _ _ _⟩

end Begins

/-- Between two operations: the files are those of `tree`, and the client knows or is going to learn
the features `g`. -/
def Serving {N : Type} (srv : FileServer) (b : FTPBlob) (g : FTPFeatures) (tree : RemoteTree)
    (st : State) (t : Session ServerState N) : Prop := ∃ f, Learns srv g f ∧ Ready b f tree st t

section Operations

variable {N : Type} {net : N → Option Nat × N} {srv : FileServer} {fl : Flavour} {fuel : Nat}
  {f : Option FTPFeatures} {g : FTPFeatures} {tree : RemoteTree} {st : State}
  {t : Session ServerState N} {b : FTPBlob} (hnet : ∀ n, (net n).1 ≠ none)
  (hfuel : srv.limit < fuel)

include hnet hfuel

/-- The first command of an operation logs in, if that has not been done. -/
theorem wp_cmd_ready {c : Str}
    {Q : Outcome PyExc (Int × List Bytes) → State → Session ServerState N → Prop}
    (h : ∀ st t, Serves f tree [] st t →
      wp (session srv.peer net) (cmd fl.dialect fuel (fl.connection b fuel) c) Q st t)
    (ht : Ready b f tree st t) :
    wp (session srv.peer net) (cmd fl.dialect fuel (fl.connection b fuel) c) Q st t := by
  rcases ht with ht | ht
  · exact h st t ht
  · obtain ⟨n, rfl⟩ : ∃ n, fuel = n + 1 := ⟨fuel - 1, by omega⟩
    have hconn : ∀ s, Holds (session srv.peer net) (fl.connection b (n + 1)) s :=
      connection_holds fl.dialect b (n + 1) n
    unfold cmd sendCmd at h ⊢
    rw [bind_eq, wp_bind, wp_tryCatch, bind_eq, wp_bind]
    apply wp_mono (wp_connection_unconnected hnet hfuel ht)
    rintro o st' t' ⟨s, rfl, hheld, ht'⟩
    have hcmd := h st' t' ht'
    rw [bind_eq, wp_bind, wp_tryCatch, bind_eq, wp_bind, hconn s _ _ _ hheld] at hcmd
    exact hcmd

theorem wp_begins_ready {α : Type} {q : FtpProg α}
    (hq : Begins fl.dialect fuel (fl.connection b fuel) q)
    {Q : Outcome PyExc α → State → Session ServerState N → Prop}
    (h : ∀ st t, Serves f tree [] st t → wp (session srv.peer net) q Q st t)
    (ht : Ready b f tree st t) : wp (session srv.peer net) q Q st t := by
  obtain ⟨c, k, rfl⟩ := hq
  rw [wp_bind]
  apply wp_cmd_ready hnet hfuel _ ht
  intro st' t' ht'
  rw [← wp_bind]
  exact h st' t' ht'

omit hnet in
theorem connection_files_holds (s : Sock .control) :
    Holds (session srv.peer net) (fl.connection b fuel) s := by
  obtain ⟨n, rfl⟩ : ∃ n, fuel = n + 1 := ⟨fuel - 1, by omega⟩
  exact connection_holds fl.dialect b (n + 1) n s

/-- A program that begins with a command, from the states in which a connection is at rest. -/
theorem ends_of_begins {α : Type} {q : FtpProg α} {R : α → Prop}
    (hq : Begins fl.dialect fuel (fl.connection b fuel) q)
    (h : ∀ f p st t, Learns srv g f → p.tree = tree → At f p false [] st t →
      wp (session srv.peer net) q
        (endsPost False (Serving srv b g tree) (fun _ _ _ => False) R) st t) :
    Ends False (session srv.peer net) (Serving srv b g tree) (fun _ _ _ => False) R q := by
  rintro st t ⟨f, hf, ht⟩
  apply wp_begins_ready hnet hfuel hq _ ht
  rintro st' t' ⟨p, ht', htree⟩
  exact h f p st' t' hf htree ht'

/-- A command that is answered by one reply; the files are those of `tree'` after it. -/
theorem wp_told {c : Str} (hc : ¬ BreaksLine c) {n : Note} {hn : n ≠ .opening}
    {tree' : RemoteTree} (hserve : ∀ p : ServerState, p.tree = tree →
      ∃ p', p'.tree = tree' ∧ srv.serve p (encode c) = srv.tell n hn p')
    (ht : Serving srv b g tree st t) :
    wp (session srv.peer net) (cmd fl.dialect fuel (fl.connection b fuel) c)
      (endsPost False (Serving srv b g tree') (fun _ _ _ => False) fun r => n.Allows r.1) st t := by
  obtain ⟨f, hf, ht⟩ := ht
  apply wp_cmd_ready hnet hfuel _ ht
  rintro st₁ t₁ ⟨p, ht₁, htree⟩
  obtain ⟨p', htree', htell⟩ := hserve p htree
  apply wp_mono (wp_cmd_tell hnet (connection_files_holds hfuel) hfuel hc htell ht₁)
  rintro o st₂ t₂ ⟨rfl, ht₂⟩
  exact ⟨srv.say_code n p'.turn, f, hf, .inl ⟨_, ht₂, htree'⟩⟩

/-- A command that is answered by one reply, and changes no file. -/
theorem ends_told {c : Str} (hc : ¬ BreaksLine c) {n : Note} {hn : n ≠ .opening}
    (hserve : ∀ p : ServerState, p.tree = tree → srv.serve p (encode c) = srv.tell n hn p) :
    Ends False (session srv.peer net) (Serving srv b g tree) (fun _ _ _ => False)
      (fun r => n.Allows r.1) (cmd fl.dialect fuel (fl.connection b fuel) c) :=
  fun _ _ ht => wp_told hnet hfuel hc (fun p hp => ⟨p, hp, hserve p hp⟩) ht

/-- A command whose reply is `r`. -/
theorem ends_answered {c : Str} (hc : ¬ BreaksLine c) {r : Reply} (hr : startsTransfer r.code = false)
    (hlength : r.bytes.length < fuel)
    (hserve : ∀ p : ServerState, p.tree = tree → srv.serve p (encode c) = (.final r hr, p)) :
    EndsWith (session srv.peer net) (Serving srv b g tree) (r.code, r.lines)
      (cmd fl.dialect fuel (fl.connection b fuel) c) := by
  apply ends_of_begins hnet hfuel (begins_cmd c)
  rintro f p st t hf rfl ht
  have hreceive : srv.peer.receive p (encode c) = ⟨r, [], false, p⟩ := by
    unfold Peer.receive
    rw [show srv.peer.serve p (encode c) = _ from hserve p rfl]
  apply wp_mono (wp_cmd_at (srv.punctual hnet) (connection_files_holds hfuel) hc hreceive
    hlength ht)
  rintro o st' t' ⟨rfl, ht'⟩
  exact ⟨rfl, f, hf, .inl ⟨p, ht', rfl⟩⟩

/-- A download returns the data. -/
theorem ends_pasvCmd {c : Str} (hc : ¬ BreaksLine c) {path : List Str} {data : Bytes}
    (hserve : ∀ p : ServerState, p.tree = tree →
      srv.serve p (encode c) = srv.sendOut path data p) (hdata : data.length < fuel) :
    EndsWith (session srv.peer net) (Serving srv b g tree) data
      (pasvCmd fl.dialect fuel (fl.connection b fuel) c) := by
  apply ends_of_begins hnet hfuel (((begins_cmd pasvCmdText).bind _).bind _)
  rintro f p st t hf rfl ht
  apply wp_mono (wp_pasvCmd_files hnet (connection_files_holds hfuel) hfuel hc hserve hdata ht)
  rintro o st' t' ⟨rfl, ht'⟩
  exact ⟨rfl, f, hf, .inl ht'⟩

/-- The property `features`. -/
theorem ends_features :
    EndsWith (session srv.peer net) (Serving srv b g tree) g
      (features fl.dialect fuel (fl.connection b fuel)) := by
  rintro st t ⟨f, hf, ht⟩
  have hst : st.features = f := by
    rcases ht with ⟨p, ht, -⟩ | ht
    · exact ht.features
    · exact ht.features
  cases f with
  | some g' =>
      -- set by the caller, or learned before
      obtain rfl : g' = g := hf
      exact (wp_features_known hst _).mpr ⟨rfl, some g', rfl, ht⟩
  | none =>
      have hlearns : (if srv.feat.code = status then fromFeat srv.feat.lines else .ok {}) = .ok g :=
        hf
      unfold features
      rw [bind_eq, wp_bind, wp_read, bindPost_ok, hst]
      dsimp only
      rw [bind_eq, wp_bind]
      apply wp_cmd_ready hnet hfuel _ ht
      rintro st' t' ⟨p, ht', rfl⟩
      have hreceive : srv.peer.receive p (encode featCmd) = ⟨srv.feat, [], false, p⟩ := by
        unfold Peer.receive
        rw [show srv.peer.serve p (encode featCmd) = (.final srv.feat srv.feat_final, p) from
          FileServer.serve_verb (show ' ' ∉ featCmd by decide) rfl p]
      apply wp_mono (wp_cmd_at (srv.punctual hnet) (connection_files_holds hfuel) (by decide)
        hreceive (srv.feat_limit.trans_lt hfuel) ht')
      rintro o st₂ t₂ ⟨rfl, ht₂⟩
      rw [bindPost_ok]
      dsimp only
      rw [hlearns, bind_eq, wp_bind, wp_ofExcept, bindPost_ok, bind_eq, wp_bind, wp_setFeatures,
        bindPost_ok]
      obtain ⟨⟨s, hreading⟩, -, hpeer, hpending⟩ := ht₂
      refine ⟨rfl, some g, rfl, .inl ⟨p, ⟨⟨s, ?_⟩, rfl, hpeer, hpending⟩, rfl⟩⟩
      exact ⟨hreading.held, hreading.book, hreading.unread, hreading.lines, hreading.sound⟩

end Operations

end GufoBlob.Ftp
