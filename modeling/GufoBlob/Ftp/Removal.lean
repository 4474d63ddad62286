import GufoBlob.Ftp.PutGet
import GufoBlob.Interaction.Simulation

/-!
# A server that also deletes

A `FileServer` does not know `DELE`. `keeper` is the same server with this command. The calls that send
no `DELE` do the same with both (`alike_perform`), so that what is known of the one holds of the other
(`wp_alike_iff`).

The rest of the operations on a server of files: `delete`, `get` of what is not there, `open`, and the
`close` of the synchronous class.
-/

namespace GufoBlob.Ftp

open Text Data Interaction Program FTPBlob

namespace FileServer

/-- The path of a `DELE` command. -/
def deleted (line : Bytes) : Option (List Str) :=
  (decode line).bind fun c =>
    if c.takeWhile (· ≠ ' ') = "DELE".toList then some (components (argumentOf c)) else none

theorem deleted_command {verb : Str} (hspace : ' ' ∉ verb) (arg : Str) :
    deleted (encode (verb ++ ' ' :: arg)) =
      if verb = "DELE".toList then some (components arg) else none := by
  have hverb : (verb ++ ' ' :: arg).takeWhile (· ≠ ' ') = verb := by
    rw [List.takeWhile_append_of_pos fun c hc => by
      rw [decide_eq_true_eq]
      rintro rfl
      exact hspace hc]
    simp
  unfold deleted
  rw [decode_encode, Option.bind_some, hverb, (command_append hspace arg).2]

theorem deleted_listCmd {verb : Str} (hspace : ' ' ∉ verb) (hverb : verb ≠ "DELE".toList)
    (hbare : deleted (encode verb) = none) (path : Str) :
    deleted (encode (listCmd verb path)) = none := by
  unfold listCmd
  split
  · exact hbare
  · rw [deleted_command hspace, if_neg hverb]

variable (srv : FileServer)

/-- The answer to `DELE`: 250 when the file is removed. -/
def remove (p : ServerState) (path : List Str) : Answer × ServerState :=
  match p.tree.unlink path with
  | .ok tree => srv.tell .entered (by simp) { p with tree }
  | .error _ => srv.tell .refused (by simp) p

theorem not_starts_remove {p : ServerState} {path : List Str} {r : Reply} {h early} :
    (srv.remove p path).1 ≠ .start r h early := by
  unfold remove tell
  split <;> simp

/-- The same server, with `DELE`. -/
def keeper : Peer ServerState where
  greet := srv.peer.greet
  serve p line := (deleted line).elim (srv.serve p line) (srv.remove p)
  finish := srv.finish
  other := srv.other
  starts p line r h early hstart := by
    cases hpath : deleted line with
    | none =>
        rw [hpath] at hstart
        exact srv.serve_starts hstart
    | some path =>
        rw [hpath] at hstart
        exact absurd hstart srv.not_starts_remove

theorem receive_keeper {line : Bytes} (h : deleted line = none) (p : ServerState) :
    srv.keeper.receive p line = srv.peer.receive p line := by
  have hserve : srv.keeper.serve p line = srv.peer.serve p line := by
    show (deleted line).elim _ _ = _
    rw [h]
    rfl
  unfold Peer.receive
  rw [hserve]
  rfl

end FileServer

open FileServer

/-! ## Calls that delete nothing -/

section Alike

variable {N : Type} (net : N → Option Nat × N) (srv : FileServer)

/-- The program does the same with both servers. -/
abbrev Alike {α : Type} (p : FtpProg α) : Prop :=
  Simulates (session srv.peer net) (session srv.keeper net) (· = ·) p

/-- The command is one line, and not `DELE`. -/
def Spares (c : Str) : Prop := ¬ BreaksLine c ∧ deleted (encode c) = none

variable {net srv}

/-- What is known of the one server holds of the other. -/
theorem wp_alike_iff {α : Type} {p : FtpProg α} (hp : Alike net srv p)
    {Q : Outcome PyExc α → State → Session ServerState N → Prop} {st : State}
    {t : Session ServerState N} :
    wp (session srv.keeper net) p Q st t ↔ wp (session srv.peer net) p Q st t := by
  obtain ⟨t', hrun, rfl⟩ := hp st t t rfl
  unfold wp
  rw [hrun]

/-- Only what is sent on the control connection is served. -/
theorem session_keeper {o : FtpOp} (hsend : ∀ s b, o ≠ @FtpOp.sendall .control s b)
    (hwrite : ∀ s b, o ≠ @FtpOp.write .control s b) (t : Session ServerState N) :
    session srv.keeper net t o = session srv.peer net t o := by
  cases o with
  | connect ch host port => cases ch <;> rfl
  | @sendall ch s b =>
      cases ch with
      | control => exact absurd rfl (hsend s b)
      | data => rfl
  | @write ch s b =>
      cases ch with
      | control => exact absurd rfl (hwrite s b)
      | data => rfl
  | @drain ch s => cases ch <;> rfl
  | @wait ch s => cases ch <;> rfl
  | @recv ch s => cases ch <;> rfl
  | @shutdown ch s => rfl
  | @close ch s => cases ch <;> rfl
  | @closeWriter ch s => cases ch <;> rfl
  | @waitClosed ch s => rfl
  | asked s c => rfl
  | answered c code lines => rfl

theorem alike_call {α : Type} {o : FtpOp} (hsend : ∀ s b, o ≠ @FtpOp.sendall .control s b)
    (hwrite : ∀ s b, o ≠ @FtpOp.write .control s b) {k : ftp.Ans o → FtpProg α}
    (hk : ∀ r, Alike net srv (k r)) : Alike net srv (.call o k) := by
  apply simulates_call _ hk
  rintro t _ rfl
  rw [session_keeper hsend hwrite]
  exact ⟨rfl, rfl⟩

theorem alike_sockets : Sockets (Alike net srv) where
  toCompositional := simulates_compositional _ _ _
  call o k ho hk := by
    apply alike_call _ _ hk
    · rintro s b rfl
      exact ho
    · rintro s b rfl
      exact ho

theorem alike_transmit (fl : Flavour) (s : Sock .control) {c : Str} (hc : Spares c) :
    Alike net srv ((asked s c).bind fun _ => fl.dialect.send s (encode c ++ crlf)) := by
  have hsent : ∀ t : Session ServerState N,
      t.sent srv.keeper (encode c ++ crlf) = t.sent srv.peer (encode c ++ crlf) := by
    intro t
    rw [sent_command hc.1, sent_command hc.1]
    unfold Session.serve
    rw [receive_keeper srv hc.2]
  have hraise : ∀ r : Except IOErr Unit, Alike net srv (raiseOnError r) :=
    raiseOnError_of alike_sockets
  have hdrain : Alike net srv (.call (.drain s) raiseOnError) :=
    alike_sockets.call (.drain s) _ trivial hraise
  apply simulates_bind (alike_call (by simp) (by simp) simulates_pure)
  intro _
  cases fl with
  | sync =>
      apply simulates_call _ hraise
      rintro t _ rfl
      exact ⟨rfl, (hsent t).symm⟩
  | aio =>
      apply simulates_bind _ fun _ => hdrain
      apply simulates_call _ simulates_pure
      rintro t _ rfl
      exact ⟨rfl, (hsent t).symm⟩

variable {fl : Flavour} {fuel : Nat} {conn : FtpProg (Option (Sock .control))} {b : FTPBlob}

theorem alike_connect (ch : Chan) (host : Str) (port : Nat) :
    Alike net srv (connect ch host port) :=
  alike_call (by simp) (by simp) simulates_pure

theorem alike_commands (hconn : Alike net srv conn) :
    Commands (Alike net srv) fl.dialect conn Spares where
  toCompositional := simulates_compositional _ _ _
  connection := hconn
  read := simulates_read
  setBuffer _ := simulates_modify _
  appendBuffer _ := simulates_modify _
  recv s := recv_of alike_sockets fl s
  transmit s _ hc := alike_transmit fl s hc
  answered _ _ _ := alike_call (by simp) (by simp) simulates_pure

theorem spares_login (hb : LoginPlain b) {c : Str} (hc : LoginCmd b c) : Spares c := by
  refine ⟨hb.cmd hc, ?_⟩
  cases hc with
  | user => exact deleted_command (show ' ' ∉ "USER".toList by decide) b.user
  | pass => exact deleted_command (show ' ' ∉ "PASS".toList by decide) b.password
  | cwd => exact deleted_command (show ' ' ∉ "CWD".toList by decide) ('/' :: b.root)
  | type => exact deleted_command (show ' ' ∉ "TYPE".toList by decide) ['I']

theorem alike_connection (hb : LoginPlain b) (depth : Nat) :
    Alike net srv (connection fl.dialect b fuel depth) :=
  connection_of (simulates_compositional _ _ _) (fun _ hconn => alike_commands hconn)
    (fun _ hc => spares_login hb hc) (alike_connect _ _ _) (fun _ => simulates_modify _)
    (dropConn_of alike_sockets fl) depth

theorem alike_methods (hconn : Alike net srv conn) :
    Methods (Alike net srv) fl.dialect fuel conn Spares := by
  have hcommands : Commands (Alike net srv) fl.dialect conn Spares := alike_commands hconn
  have htransfers : Transfers (Alike net srv) fl.dialect fuel conn Spares :=
    { toCompositional := simulates_compositional _ _ _
      cmd := fun _ hc => cmd_of hcommands hc
      expect := fun code => expect_of hcommands.toReads code
      connectData := fun host port _ => alike_connect .data host port
      recvData := fun s => recv_of alike_sockets fl s
      sendData := fun s x => sendData_of alike_sockets fl s x
      closeData := fun s => closeData_of alike_sockets fl s }
  apply methods_of htransfers hconn
  exact fun hfeat => features_of (simulates_compositional _ _ _) simulates_read
    (cmd_of hcommands hfeat) fun _ => simulates_modify _

/-- No command of another call is `DELE`. -/
theorem deleted_of_meant {c : Call} {x : Str} (hx : Meant c x) (hc : ∀ key, c ≠ .delete key) :
    deleted (encode x) = none := by
  have hscan : ∀ {pre x}, ScanCmd pre x → deleted (encode x) = none := by
    intro pre x hx
    cases hx with
    | feat => decide
    | pasv => decide
    | mlsd hpath => exact deleted_listCmd (by decide) (by decide) (by decide) _
    | list hpath => exact deleted_listCmd (by decide) (by decide) (by decide) _
  cases hx with
  | @mkd key data dir hdir => exact deleted_command (show ' ' ∉ "MKD".toList by decide) dir
  | storPasv => decide
  | @stor key data => exact deleted_command (show ' ' ∉ "STOR".toList by decide) key
  | retrPasv => decide
  | @retr key => exact deleted_command (show ' ' ∉ "RETR".toList by decide) key
  | @dele key => exact absurd rfl (hc key)
  | feat => decide
  | @size key => exact deleted_command (show ' ' ∉ "SIZE".toList by decide) key
  | @mlst key => exact deleted_command (show ' ' ∉ "MLST".toList by decide) key
  | fallback hx => exact hscan hx
  | scan hx => exact hscan hx
  | quit => decide

/-- A call that deletes nothing does the same with both servers. -/
theorem alike_perform (hb : LoginPlain b) {c : Call} (hc : c = .close ∨ Ordinary c)
    (hdelete : ∀ key, c ≠ .delete key) : Alike net srv ((fl.backend b fuel).perform c) := by
  have hconn : Alike net srv (fl.connection b fuel) := alike_connection hb fuel
  have hquit : Spares quitCmd := ⟨by decide, by decide⟩
  apply perform_of (alike_methods hconn)
  · rintro rfl
    exact close_of alike_sockets fl simulates_read (simulates_modify _)
      (cmd_of (alike_commands hconn) hquit)
  · intro x hx
    refine ⟨?_, deleted_of_meant hx hdelete⟩
    rcases hc with rfl | hc
    · cases hx with
      | quit => exact hquit.1
    · exact hc.meant hx

end Alike

/-! ## Deleting -/

section Operations

variable {N : Type} {net : N → Option Nat × N} {srv : FileServer} {fl : Flavour} {fuel : Nat}
  {g : FTPFeatures} {tree tree' : RemoteTree} {st : State} {t : Session ServerState N} {b : FTPBlob}
  {path : List Str} (hnet : ∀ n, (net n).1 ≠ none) (hfuel : srv.limit < fuel)

include hnet hfuel

/-- The first command of an operation on the server that deletes. -/
theorem wp_cmd_keeper {f : Option FTPFeatures} {c : Str}
    {Q : Outcome PyExc (Int × List Bytes) → State → Session ServerState N → Prop}
    (h : ∀ st t, Serves f tree [] st t →
      wp (session srv.keeper net) (cmd fl.dialect fuel (fl.connection b fuel) c) Q st t)
    (ht : Ready b f tree st t) :
    wp (session srv.keeper net) (cmd fl.dialect fuel (fl.connection b fuel) c) Q st t := by
  rcases ht with ht | ht
  · exact h st t ht
  · obtain ⟨n, rfl⟩ : ∃ n, fuel = n + 1 := ⟨fuel - 1, by omega⟩
    have hconn : ∀ s, Holds (session srv.keeper net) (fl.connection b (n + 1)) s :=
      connection_holds fl.dialect b (n + 1) n
    have halike : Alike net srv (fl.connection b (n + 1)) := alike_connection ht.plain (n + 1)
    unfold cmd sendCmd at h ⊢
    rw [bind_eq, wp_bind, wp_tryCatch, bind_eq, wp_bind, wp_alike_iff halike]
    apply wp_mono (wp_connection_unconnected hnet hfuel ht)
    rintro o st' t' ⟨s, rfl, hheld, ht'⟩
    have hcmd := h st' t' ht'
    rw [bind_eq, wp_bind, wp_tryCatch, bind_eq, wp_bind, hconn s _ _ _ hheld] at hcmd
    exact hcmd

/-- `DELE` is answered by one reply. -/
theorem wp_dele (hparts : ∀ x ∈ path, IsPart x) (hplain : ¬ BreaksLine (joinSlash path))
    {n : Note} {hn : n ≠ .opening} (hremove : ∀ p : ServerState, p.tree = tree →
      ∃ p', p'.tree = tree' ∧ srv.remove p path = srv.tell n hn p')
    (ht : Serving srv b g tree st t) :
    wp (session srv.keeper net)
      (cmd fl.dialect fuel (fl.connection b fuel) (deleCmd (joinSlash path)))
      (endsPost False (Serving srv b g tree') (fun _ _ _ => False) fun r => n.Allows r.1) st t := by
  obtain ⟨m, rfl⟩ : ∃ m, fuel = m + 1 := ⟨fuel - 1, by omega⟩
  have hconn : ∀ s, Holds (session srv.keeper net) (fl.connection b (m + 1)) s :=
    connection_holds fl.dialect b (m + 1) m
  have hpunctual : Punctual srv.keeper net :=
    { control := hnet
      recv := fun _ _ _ h => by cases h
      sendall := fun _ _ _ _ h => by cases h }
  have hkey : ¬ BreaksLine (deleCmd (joinSlash path)) := not_breaksLine_append (by decide) hplain
  have hpath : deleted (encode (deleCmd (joinSlash path))) = some path := by
    refine (deleted_command (show ' ' ∉ "DELE".toList by decide) (joinSlash path)).trans ?_
    rw [if_pos rfl, components_joinSlash hparts]
  obtain ⟨f, hf, ht⟩ := ht
  apply wp_cmd_keeper hnet hfuel _ ht
  rintro st₁ t₁ ⟨p, ht₁, htree⟩
  obtain ⟨p', htree', htell⟩ := hremove p htree
  have hreceive : srv.keeper.receive p (encode (deleCmd (joinSlash path))) =
      ⟨srv.say n p'.turn, [], false, { p' with turn := p'.turn + 1 }⟩ := by
    have hserve : srv.keeper.serve p (encode (deleCmd (joinSlash path))) = srv.tell n hn p' := by
      show (deleted _).elim _ _ = _
      rw [hpath]
      exact htell
    unfold Peer.receive
    rw [hserve]
    rfl
  apply wp_mono (wp_cmd_at hpunctual hconn hkey hreceive ((srv.say_limit n _).trans_lt hfuel) ht₁)
  rintro o st₂ t₂ ⟨rfl, ht₂⟩
  exact ⟨srv.say_code n p'.turn, f, hf, .inl ⟨_, ht₂, htree'⟩⟩

/-- A file is deleted. -/
theorem wp_delete_file (hparts : ∀ x ∈ path, IsPart x) (hplain : ¬ BreaksLine (joinSlash path))
    (hunlink : tree.unlink path = .ok tree') (ht : Serving srv b g tree st t) :
    wp (session srv.keeper net) (delete fl.dialect fuel (fl.connection b fuel) (joinSlash path))
      (exactly (.ok ()) (Serving srv b g tree')) st t := by
  have hremove : ∀ p : ServerState, p.tree = tree → ∃ p', p'.tree = tree' ∧
      srv.remove p path = srv.tell .entered (by simp) p' := by
    rintro p rfl
    refine ⟨{ p with tree := tree' }, rfl, ?_⟩
    unfold remove
    rw [hunlink]
  unfold delete
  rw [bind_eq, wp_bind]
  apply wp_mono (wp_dele hnet hfuel hparts hplain hremove ht)
  rintro (⟨code, lines⟩ | e | _) st' t' ho
  · obtain rfl : code = actionOk := ho.1
    rw [bindPost_ok]
    dsimp only
    rw [if_neg (by decide), if_neg (by decide)]
    exact ⟨rfl, ho.2⟩
  · exact ho.elim
  · exact ho.elim

/-- What is not there cannot be deleted. -/
theorem wp_delete_absent (hparts : ∀ x ∈ path, IsPart x) (hplain : ¬ BreaksLine (joinSlash path))
    {e : TreeError} (hunlink : tree.unlink path = .error e) (ht : Serving srv b g tree st t) :
    wp (session srv.keeper net) (delete fl.dialect fuel (fl.connection b fuel) (joinSlash path))
      (exactly (.error (.keyError (joinSlash path))) (Serving srv b g tree)) st t := by
  have hremove : ∀ p : ServerState, p.tree = tree → ∃ p', p'.tree = tree ∧
      srv.remove p path = srv.tell .refused (by simp) p' := by
    rintro p rfl
    refine ⟨p, rfl, ?_⟩
    unfold remove
    rw [hunlink]
  unfold delete
  rw [bind_eq, wp_bind]
  apply wp_mono (wp_dele hnet hfuel hparts hplain hremove ht)
  rintro (⟨code, lines⟩ | e | _) st' t' ho
  · obtain rfl : code = notFound := ho.1
    rw [bindPost_ok]
    dsimp only
    rw [if_pos rfl]
    exact ⟨rfl, ho.2⟩
  · exact ho.elim
  · exact ho.elim

/-! ## The other operations -/

/-- `get` of what is not there. -/
theorem wp_get_absent (hparts : ∀ x ∈ path, IsPart x) (hplain : ¬ BreaksLine (joinSlash path))
    {e : TreeError} (hread : tree.read path = .error e) (ht : Serving srv b g tree st t) :
    wp (session srv.peer net) (get fl.dialect fuel (fl.connection b fuel) (joinSlash path))
      (exactly (.error (.keyError (joinSlash path))) (Serving srv b g tree)) st t := by
  have hkey : ¬ BreaksLine (retrCmd (joinSlash path)) := not_breaksLine_append (by decide) hplain
  have hserve : ∀ p : ServerState, p.tree = tree →
      srv.serve p (encode (retrCmd (joinSlash path))) = srv.tell .refused (by simp) p := by
    rintro p rfl
    refine (srv.serve_path (show ' ' ∉ "RETR".toList by decide) rfl hparts p).trans ?_
    simp only [FileServer.obey, hread]
  have hspace : afterSpace (retrCmd (joinSlash path)) = joinSlash path := by
    simp [afterSpace, retrCmd]
  obtain ⟨f, hf, ht⟩ := ht
  apply wp_begins_ready hnet hfuel (((begins_cmd pasvCmdText).bind _).bind _) _ ht
  rintro st₁ t₁ ⟨p, ht₁, rfl⟩
  apply wp_bind_ok (wp_getPassive_files hnet (connection_files_holds hfuel) hfuel ht₁)
  intro st₂ t₂ ht₂
  rw [bind_eq, wp_bind]
  have hretrieve : wp (session srv.peer net)
      (retrieve fl.dialect fuel (fl.connection b fuel) ⟨p.turn + 1⟩ (retrCmd (joinSlash path)))
      (exactly (.error (.keyError (joinSlash path))) (Serves f p.tree [])) st₂ t₂ := by
    have hrefused := hserve { p with turn := p.turn + 1, upload := .opened srv.accepts } rfl
    apply wp_bind_ok (wp_cmd_tell hnet (connection_files_holds hfuel) hfuel hkey hrefused ht₂)
    intro st₃ t₃ ht₃
    dsimp only
    rw [show (srv.say .refused _).code = notFound from srv.say_code .refused _, if_pos rfl, hspace]
    exact ⟨rfl, _, ht₃, rfl⟩
  apply wp_tryFinally_of (R := fun o st t =>
    o = .error (.keyError (joinSlash path)) ∧ Serves f p.tree [] st t)
  · apply wp_mono hretrieve
    rintro o st₃ t₃ ⟨rfl, ht₃⟩
    exact ⟨by simp, rfl, ht₃⟩
  · rintro o st₃ t₃ ⟨rfl, p₃, ht₃, htree₃⟩
    apply wp_mono (wp_closeData_files _ (ht₃.shut _))
    rintro o st₄ t₄ ⟨rfl, ht₄⟩
    exact ⟨rfl, rfl, f, hf, .inl (htree₃ ▸ ht₄)⟩

/-- `open` connects. -/
theorem wp_open_files (ht : Serving srv b g tree st t) :
    wp (session srv.peer net) ((fl.backend b fuel).perform .open')
      (exactly (.ok .none) (Serving srv b g tree)) st t := by
  have hconnection : wp (session srv.peer net) (fl.connection b fuel)
      (fun o st t => ∃ s, o = .ok s ∧ Serving srv b g tree st t) st t := by
    obtain ⟨f, hf, ⟨p, ht, htree⟩ | ht⟩ := ht
    · obtain ⟨s, hreading⟩ := ht.reading
      rw [connection_files_holds hfuel s _ _ _ hreading.held]
      exact ⟨some s, rfl, f, hf, .inl ⟨p, ht, htree⟩⟩
    · apply wp_mono (wp_connection_unconnected hnet hfuel ht)
      rintro o st' t' ⟨s, rfl, -, ht'⟩
      exact ⟨some s, rfl, f, hf, .inl ht'⟩
  show wp _ (((fl.connection b fuel).bind fun _ => .pure ()).bind fun _ => .pure Value.none) _ _ _
  rw [wp_bind, wp_bind]
  apply wp_mono hconnection
  rintro o st' t' ⟨s, rfl, ht'⟩
  exact ⟨rfl, ht'⟩

/-- `close` of the synchronous class ends the connection. -/
theorem wp_close_files (hb : LoginPlain b) (hretries : 0 < b.retries)
    (ht : Serving srv b g tree st t) :
    wp (session srv.peer net) ((Flavour.sync.backend b fuel).perform .close)
      (exactly (.ok .none) (Serving srv b g tree)) st t := by
  have hserve : ∀ p : ServerState,
      srv.serve p (encode quitCmd) = srv.tell .unknown (by simp) p := by
    intro p
    unfold FileServer.serve
    rw [decode_encode]
    rfl
  obtain ⟨f, hf, ht⟩ := ht
  -- `None` is assigned to the connection in any case
  have hheld : wp (session srv.peer net) (Sync.FTPBlob.closeHeld fuel (Flavour.sync.connection b fuel))
      (exactly (.ok ()) fun st t => Unconnected b f tree { st with conn := none } t) st t := by
    unfold Sync.FTPBlob.closeHeld
    rw [bind_eq, wp_bind, wp_read, bindPost_ok]
    rcases ht with ⟨p, ht, htree⟩ | ht
    · obtain ⟨s, hreading⟩ := ht.reading
      rw [hreading.held]
      dsimp only
      have hquit : wp (session srv.peer net)
          (cmd Flavour.sync.dialect fuel (Flavour.sync.connection b fuel) quitCmd)
          (exactly (.ok _) (At f { p with turn := p.turn + 1 } false [])) st t :=
        wp_cmd_tell hnet (connection_files_holds hfuel) hfuel (by decide) (hserve p) ht
      apply wp_bind_ok
      · apply wp_tryCatch_ok
        apply wp_bind_ok hquit
        intro st₁ t₁ ht₁
        exact ⟨rfl, ht₁⟩
      · intro st₁ t₁ ht₁
        obtain ⟨s₁, hreading₁⟩ := ht₁.reading
        rw [bind_eq, wp_bind, wp_read, bindPost_ok, hreading₁.held]
        apply wp_tryCatch_ok
        rw [wp_call, wp_raiseOnError]
        exact ⟨rfl, hb, hretries, rfl, (List.append_eq_nil_iff.mp hreading₁.unread).1, ht₁.features,
          (congrArg ServerState.tree ht₁.peer).trans htree, hreading₁.sound.matched,
          hreading₁.sound.clear⟩
    · rw [ht.conn]
      exact ⟨rfl, hb, hretries, rfl, ht.buffer, ht.features, ht.tree, ht.sound⟩
  have hclose : wp (session srv.peer net) (Sync.FTPBlob.close fuel (Flavour.sync.connection b fuel))
      (exactly (.ok ()) (Serving srv b g tree)) st t := by
    apply wp_tryFinally_of
      (R := fun o st t => o = .ok () ∧ Unconnected b f tree { st with conn := none } t)
    · apply wp_mono hheld
      rintro o st₁ t₁ ⟨rfl, ht₁⟩
      exact ⟨by simp, rfl, ht₁⟩
    · rintro o st₁ t₁ ⟨rfl, ht₁⟩
      exact ⟨rfl, rfl, f, hf, .inr ht₁⟩
  apply wp_bind_ok hclose
  exact fun _ _ ht => ⟨rfl, ht⟩

end Operations

end GufoBlob.Ftp
