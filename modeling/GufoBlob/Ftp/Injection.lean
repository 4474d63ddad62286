import GufoBlob.Ftp.Framing

/-!
# Inputs that break a command

The converse of `framed_of_plain`. For every input that contains CR LF there is a server, the
scripted one, that lets the call come as far as sending it: the user, the password and the root
during the login of a new object, the key on a connection that is logged in.

* `framed_iff` — the octets of a call are the lines of its commands, for every server and after
  every run, exactly when its inputs are plain.
* `not_framed_delete` — one call of `delete` whose octets are two `DELE` lines.
-/

namespace GufoBlob.FTPBlob

open Text Interaction Program Ftp

variable {E : Type} {h : Handler ftp E} {fl : Flavour} {b : FTPBlob} {fuel : Nat}

/-! ## Commands that were announced -/

/-- `_cmd` was called with `x`. -/
def Asked (x : Str) (t : Transcript E) : Prop := ∃ id, x ∈ commands id t.log

theorem asked_stable (h : Handler ftp E) (x : Str) (t : Transcript E) (o : FtpOp)
    (ht : Asked x t) : Asked x (recording h t o).2 := by
  obtain ⟨id, hx⟩ := ht
  obtain ⟨evs, hevs⟩ := recording_log h t o
  refine ⟨id, ?_⟩
  rw [← hevs, commands_append]
  exact List.mem_append_left _ hx

/-- A call that announces a command with CR LF is not framed. -/
theorem not_framed_of_asked {c : Call} {st : State} {t : Transcript E} {x : Str}
    (hfeatures : ∀ f, b.pendingFeatures = some f → st.features = some f) (hx : BreaksLine x)
    (hasked : wp (recording h) ((fl.backend b fuel).perform c) (fun _ _ => Asked x) st
      ⟨t.env, t.next, []⟩) :
    ¬ Framed b c (callLog h (fl.backend b fuel) c st t) := by
  intro hframed
  have hstart : Sends (fun _ => True) b st (⟨t.env, t.next, []⟩ : Transcript E) :=
    ⟨fun _ => ⟨rfl, fun _ _ => trivial⟩, hfeatures⟩
  have hkeeps : KeepsSends h (fun _ => True) b ((fl.backend b fuel).perform c) :=
    keepsSends_perform (fun _ _ => trivial) fun _ _ => trivial
  have hlog : Aligned (fun _ => True) (callLog h (fl.backend b fuel) c st t) :=
    (hkeeps _ _ hstart).1
  obtain ⟨id, hmem⟩ := hasked
  exact (lines_iff_of_aligned hlog id).mp (hframed.lines id) x hmem hx

/-! ## The first thing that a call does -/

section First

variable {x : Str} {st : State} {t : Transcript E} {conn : FtpProg (Option (Sock .control))}
  {d : Dialect} (hconn : wp (recording h) conn (fun _ _ => Asked x) st t)

include hconn

theorem asked_of_cmd (c : Str) : wp (recording h) (cmd d fuel conn c) (fun _ _ => Asked x) st t := by
  apply wp_bind_of_stable (asked_stable h x)
  apply wp_tryCatch_of_stable (asked_stable h x)
  exact wp_bind_of_stable (asked_stable h x) hconn

theorem asked_of_pasvCmd (c : Str) :
    wp (recording h) (pasvCmd d fuel conn c) (fun _ _ => Asked x) st t := by
  apply wp_bind_of_stable (asked_stable h x)
  exact wp_bind_of_stable (asked_stable h x) (asked_of_cmd hconn pasvCmdText)

theorem asked_of_put (key : Str) (data : Bytes) :
    wp (recording h) (put d fuel conn key data) (fun _ _ => Asked x) st t := by
  unfold put ensureParentDirs
  cases iterParentDirs key with
  | nil =>
      rw [forEach, bind_eq, pure_bind']
      apply wp_bind_of_stable (asked_stable h x)
      exact wp_bind_of_stable (asked_stable h x) (asked_of_cmd hconn pasvCmdText)
  | cons dir dirs =>
      apply wp_bind_of_stable (asked_stable h x)
      apply wp_bind_of_stable (asked_stable h x)
      exact wp_bind_of_stable (asked_stable h x) (asked_of_cmd hconn (mkdCmd dir))

/-- The features are asked for, or the program that uses them runs at once. -/
theorem asked_of_features {α : Type} {k : FTPFeatures → FtpProg α}
    (hk : ∀ f, wp (recording h) (k f) (fun _ _ => Asked x) st t) :
    wp (recording h) ((features d fuel conn).bind k) (fun _ _ => Asked x) st t := by
  cases hf : st.features with
  | some f =>
      rw [wp_bind, wp_features_known hf]
      exact hk f
  | none =>
      apply wp_bind_of_stable (asked_stable h x)
      unfold features
      rw [bind_eq, wp_bind, wp_read, bindPost_ok, hf]
      exact wp_bind_of_stable (asked_stable h x) (asked_of_cmd hconn featCmd)

theorem asked_of_listData (verb path : Str) :
    wp (recording h) (listData d fuel conn verb path) (fun _ _ => Asked x) st t := by
  apply wp_tryCatch_of_stable (asked_stable h x)
  exact wp_bind_of_stable (asked_stable h x) (asked_of_pasvCmd hconn _)

theorem asked_of_scan (pre : Str) :
    wp (recording h) (scan d fuel conn pre).collect (fun _ _ => Asked x) st t ∧
      ∀ q, wp (recording h) ((scan d fuel conn pre).anyYield q) (fun _ _ => Asked x) st t := by
  have hlist : ∀ verb parser rest path,
      wp (recording h) (listDir d fuel conn verb parser rest path).collect
          (fun _ _ => Asked x) st t ∧
        ∀ q, wp (recording h) ((listDir d fuel conn verb parser rest path).anyYield q)
          (fun _ _ => Asked x) st t := by
    intro verb parser rest path
    unfold listDir
    refine ⟨?_, fun q => ?_⟩
    · rw [bind_eq, collect_embed_bind]
      exact wp_bind_of_stable (asked_stable h x) (asked_of_listData hconn _ _)
    · rw [bind_eq, anyYield_embed_bind]
      exact wp_bind_of_stable (asked_stable h x) (asked_of_listData hconn _ _)
  unfold scan
  refine ⟨?_, fun q => ?_⟩
  · rw [bind_eq, collect_embed_bind]
    apply asked_of_features hconn
    intro f
    split
    · exact (hlist _ _ _ _).1
    · exact (hlist _ _ _ _).1
  · rw [bind_eq, anyYield_embed_bind]
    apply asked_of_features hconn
    intro f
    split
    · exact (hlist _ _ _ _).2 q
    · exact (hlist _ _ _ _).2 q

theorem asked_of_exists (key : Str) :
    wp (recording h) (exists' d fuel conn key) (fun _ _ => Asked x) st t := by
  apply asked_of_features hconn
  intro f
  unfold sizeAnswer mlstAnswer
  by_cases hsize : f.supportsSize = true
  · rw [if_pos hsize]
    apply wp_bind_of_stable (asked_stable h x)
    exact wp_bind_of_stable (asked_stable h x) (asked_of_cmd hconn _)
  · rw [if_neg hsize, bind_eq, pure_eq, pure_bind']
    by_cases hmlst : f.supportsMlst = true
    · rw [if_pos hmlst]
      apply wp_bind_of_stable (asked_stable h x)
      exact wp_bind_of_stable (asked_stable h x) (asked_of_cmd hconn _)
    · rw [if_neg hmlst]
      exact (asked_of_scan hconn key).2 _

end First

/-- Every call of the API starts with `connection`. -/
theorem asked_of_connection {c : Call} (hc : c ≠ .close) {x : Str} {st : State} {t : Transcript E}
    (hconn : wp (recording h) (fl.connection b fuel) (fun _ _ => Asked x) st t) :
    wp (recording h) ((fl.backend b fuel).perform c) (fun _ _ => Asked x) st t := by
  cases c with
  | open' =>
      apply wp_bind_of_stable (asked_stable h x)
      exact wp_bind_of_stable (asked_stable h x) hconn
  | close => exact absurd rfl hc
  | put key data => exact wp_bind_of_stable (asked_stable h x) (asked_of_put hconn key data)
  | get key => exact wp_bind_of_stable (asked_stable h x) (asked_of_pasvCmd hconn _)
  | delete key =>
      apply wp_bind_of_stable (asked_stable h x)
      exact wp_bind_of_stable (asked_stable h x) (asked_of_cmd hconn _)
  | exists' key => exact wp_bind_of_stable (asked_stable h x) (asked_of_exists hconn key)
  | scan pre => exact wp_bind_of_stable (asked_stable h x) (asked_of_scan hconn pre).1

/-! ## During a login -/

section Login

variable {st : State} {l : List Bytes} {next : Nat} {log : List Event} {x : Str}

/-- A command is announced as soon as it is sent. -/
theorem asked_cmd {s : Sock .control} {conn : FtpProg (Option (Sock .control))}
    (hconn : Holds (recording scripted) conn s) (hst : st.conn = some s) (c : Str) :
    wp (recording scripted) (cmd fl.dialect fuel conn c) (fun _ _ => Asked c) st
      ⟨l, next, log⟩ := by
  apply wp_bind_of_stable (asked_stable scripted c)
  rw [wp_sendCmd_scripted hconn hst]
  exact ⟨s.id, by simp [commands, Event.command]⟩

/-- A new object connects and begins its login. -/
theorem asked_of_login {n : Nat} (hb : 0 < b.retries) (hst : st.conn = none)
    (hlogin : ∀ log, wp (recording scripted)
      (login fl.dialect (n + 2) (connection fl.dialect b (n + 2) (n + 1)) b) (fun _ _ => Asked x)
      { st with conn := some ⟨next⟩ } ⟨l, next + 1, log⟩) :
    wp (recording scripted) (fl.connection b (n + 2)) (fun _ _ => Asked x) st ⟨l, next, log⟩ := by
  unfold Flavour.connection FTPBlob.connection connectAndLogin
  rw [bind_eq, wp_bind, wp_read, bindPost_ok, hst, bind_eq]
  apply wp_bind_of_stable (asked_stable scripted x)
  rw [bind_eq, wp_bind, wp_tcpConnect_scripted hb, bindPost_ok, bind_eq, wp_bind, wp_setConn,
    bindPost_ok]
  exact wp_tryCatch_of_stable (asked_stable scripted x) (hlogin _)

variable {s : Sock .control} {conn : FtpProg (Option (Sock .control))}
  (hconn : Holds (recording scripted) conn s) (hst : st.conn = some s)
  (hbuf : st.responseBuffer = [])

include hconn hst hbuf

theorem asked_user : wp (recording scripted) (login fl.dialect (fuel + 2) conn b)
    (fun _ _ => Asked b.userCmd) st ⟨[line "220 ." ++ crlf], next, log⟩ := by
  unfold login
  rw [bind_eq, wp_bind, wp_expect_scripted hconn hst hbuf replyLine_ready, bindPost_ok]
  apply wp_bind_of_stable (asked_stable scripted _)
  exact wp_bind_of_stable (asked_stable scripted _) (asked_cmd hconn hst _)

theorem asked_pass : wp (recording scripted) (login fl.dialect (fuel + 2) conn b)
    (fun _ _ => Asked b.passCmd) st
    ⟨[line "220 ." ++ crlf, line "331 ." ++ crlf], next, log⟩ := by
  unfold login
  rw [bind_eq, wp_bind, wp_expect_scripted hconn hst hbuf replyLine_ready, bindPost_ok]
  apply wp_bind_of_stable (asked_stable scripted _)
  unfold authenticate
  rw [bind_eq, wp_bind, wp_cmd_scripted hconn hst hbuf replyLine_userOk, bindPost_ok]
  simp only [if_pos]
  exact wp_bind_of_stable (asked_stable scripted _) (asked_cmd hconn hst _)

theorem asked_cwd (hroot : b.root ≠ []) :
    wp (recording scripted) (login fl.dialect (fuel + 2) conn b)
      (fun _ _ => Asked b.cwdCmd) st
      ⟨[line "220 ." ++ crlf, line "230 ." ++ crlf], next, log⟩ := by
  unfold login enterRoot
  rw [bind_eq, wp_bind, wp_expect_scripted hconn hst hbuf replyLine_ready, bindPost_ok, bind_eq,
    wp_bind, wp_authenticate_scripted hconn hst hbuf, bindPost_ok, if_neg (by simp),
    if_neg (by simpa using hroot)]
  apply wp_bind_of_stable (asked_stable scripted _)
  exact wp_bind_of_stable (asked_stable scripted _) (asked_cmd hconn hst _)

end Login

/-- A login that sends CR LF breaks the framing of the call that it is part of. -/
theorem loginPlain_of_framed {c : Call} (hc : c ≠ .close) (hb : 0 < b.retries)
    (hframed : ∀ script, Framed b c
      (callLog scripted (fl.backend b 2) c b.start (.fresh script))) : LoginPlain b := by
  have hholds : Holds (recording scripted) (connection fl.dialect b 2 1) ⟨0⟩ :=
    connection_holds _ _ _ _ _
  have hpart : ∀ (x : Str) (script : List Bytes),
      (∀ log, wp (recording scripted) (login fl.dialect 2 (connection fl.dialect b 2 1) b)
        (fun _ _ => Asked x) { b.start with conn := some ⟨0⟩ } ⟨script, 1, log⟩) →
      ¬ BreaksLine x := by
    intro x script hlogin hx
    apply not_framed_of_asked (fun f hf => hf) hx _ (hframed script)
    exact asked_of_connection hc (asked_of_login (n := 0) hb rfl hlogin)
  constructor
  · intro hx
    apply hpart b.userCmd _ fun log => asked_user hholds rfl rfl
    exact (breaksLine_append_iff (by decide)).mpr hx
  · intro hx
    apply hpart b.passCmd _ fun log => asked_pass hholds rfl rfl
    exact (breaksLine_append_iff (by decide)).mpr hx
  · intro hx
    have hroot : b.root ≠ [] := by
      intro h
      rw [h] at hx
      simpa using hx.mem
    apply hpart b.cwdCmd _ fun log => asked_cwd hholds rfl rfl hroot
    exact (breaksLine_append_iff (by decide)).mpr hx

/-! ## On a connection that is logged in -/

section Key

variable {st : State} {next : Nat} {log : List Event} {s : Sock .control}
  {conn : FtpProg (Option (Sock .control))} (hconn : Holds (recording scripted) conn s)
  (hst : st.conn = some s) (hbuf : st.responseBuffer = [])

include hconn hst hbuf

theorem asked_retr (key : Str) : wp (recording scripted) (get fl.dialect (fuel + 2) conn key)
    (fun _ _ => Asked (retrCmd key)) st
    ⟨[line "227 (1,1,1,1,1,1)" ++ crlf], next, log⟩ := by
  unfold get pasvCmd
  rw [bind_eq, wp_bind]
  apply wp_getPassive_scripted hconn hst hbuf
  intro log
  apply wp_bind_of_stable (asked_stable scripted _)
  apply wp_tryFinally_of_stable (asked_stable scripted _)
  exact wp_bind_of_stable (asked_stable scripted _) (asked_cmd hconn hst _)

theorem asked_stor (key : Str) (data : Bytes) :
    wp (recording scripted) (put fl.dialect (fuel + 2) conn key data)
      (fun _ _ => Asked (storCmd key)) st
      ⟨(iterParentDirs key).map (fun _ => line "257 ." ++ crlf) ++
        [line "227 (1,1,1,1,1,1)" ++ crlf], next, log⟩ := by
  unfold put
  rw [bind_eq, wp_bind]
  apply wp_ensureParentDirs_scripted hconn hst hbuf
  intro log
  rw [bindPost_ok, bind_eq, wp_bind]
  apply wp_getPassive_scripted hconn hst hbuf
  intro log
  apply wp_bind_of_stable (asked_stable scripted _)
  apply wp_tryFinally_of_stable (asked_stable scripted _)
  exact wp_bind_of_stable (asked_stable scripted _) (asked_cmd hconn hst _)

omit hbuf in
/-- With features that are set, the key is asked for at once. -/
theorem asked_exists_known {f : FTPFeatures} (hf : st.features = some f)
    (hasks : f.supportsSize = true ∨ f.supportsMlst = true) (key : Str) :
    wp (recording scripted) (exists' fl.dialect (fuel + 2) conn key)
      (fun _ _ t => Asked (sizeCmd key) t ∨ Asked (mlstCmd key) t) st ⟨[], next, log⟩ := by
  have hstable : ∀ t o, (Asked (sizeCmd key) t ∨ Asked (mlstCmd key) t) →
      Asked (sizeCmd key) (recording scripted t o).2 ∨
        Asked (mlstCmd key) (recording scripted t o).2 :=
    fun t o => Or.imp (asked_stable _ _ t o) (asked_stable _ _ t o)
  unfold exists'
  rw [bind_eq, wp_bind, wp_features_known hf, bindPost_ok]
  unfold sizeAnswer mlstAnswer
  by_cases hsize : f.supportsSize = true
  · rw [if_pos hsize]
    apply wp_bind_of_stable hstable
    apply wp_bind_of_stable hstable
    exact wp_mono (asked_cmd hconn hst _) fun _ _ _ => Or.inl
  · have hmlst : f.supportsMlst = true := hasks.resolve_left hsize
    rw [if_neg hsize, if_pos hmlst, bind_eq, pure_eq, pure_bind']
    apply wp_bind_of_stable hstable
    apply wp_bind_of_stable hstable
    exact wp_mono (asked_cmd hconn hst _) fun _ _ _ => Or.inr

/-- A server that knows `SIZE` is asked for the key. -/
theorem asked_exists_unknown (hf : st.features = none) (key : Str) :
    wp (recording scripted) (exists' fl.dialect (fuel + 2) conn key)
      (fun _ _ => Asked (sizeCmd key)) st ⟨[featReply], next, log⟩ := by
  unfold exists'
  rw [bind_eq, wp_bind]
  apply wp_features_scripted hconn hst hbuf hf
  intro log
  unfold sizeAnswer
  rw [bindPost_ok, if_pos rfl]
  have hst' : ({ st with features := some { supportsSize := true } } : State).conn = some s := hst
  apply wp_bind_of_stable (asked_stable scripted _)
  exact wp_bind_of_stable (asked_stable scripted _) (asked_cmd hconn hst' _)

end Key

/-- A key that has CR LF breaks the framing of the call that sends it. -/
theorem keyPlain_of_framed {c : Call} (hb : 0 < b.retries)
    (hframed : ∀ st t, Run scripted fl b 2 st t →
      Framed b c (callLog scripted (fl.backend b 2) c st t)) : KeyPlain b c := by
  have hholds : Holds (recording scripted) (fl.connection b 2) ⟨0⟩ := connection_holds _ _ _ 1 _
  have hpart : ∀ (x : Str) (script : List Bytes),
      wp (recording scripted) ((fl.backend b 2).perform c) (fun _ _ => Asked x)
        { b.start with conn := some ⟨0⟩ } ⟨script, 1, []⟩ → ¬ BreaksLine x := by
    intro x script hasked hx
    obtain ⟨log, hrun⟩ : ∃ log, Run scripted fl b 2 _ ⟨script, 1, log⟩ :=
      exists_run_connected hb 0 script
    exact not_framed_of_asked (fun f hf => hf) hx hasked (hframed _ _ hrun)
  cases c with
  | put key data =>
      intro hx
      apply hpart (storCmd key) _ (wp_bind_of_stable (asked_stable scripted _)
        (asked_stor hholds rfl rfl key data))
      exact (breaksLine_append_iff (by decide)).mpr hx
  | get key =>
      intro hx
      apply hpart (retrCmd key) _ (wp_bind_of_stable (asked_stable scripted _)
        (asked_retr hholds rfl rfl key))
      exact (breaksLine_append_iff (by decide)).mpr hx
  | delete key =>
      intro hx
      apply hpart (deleCmd key) [] (wp_bind_of_stable (asked_stable scripted _)
        (wp_bind_of_stable (asked_stable scripted _) (asked_cmd hholds rfl _)))
      exact (breaksLine_append_iff (by decide)).mpr hx
  | exists' key =>
      intro hasks hx
      cases hf : b.pendingFeatures with
      | none =>
          apply hpart (sizeCmd key) _ (wp_bind_of_stable (asked_stable scripted _)
            (asked_exists_unknown hholds rfl rfl hf key))
          exact (breaksLine_append_iff (by decide)).mpr hx
      -- which of the two it asks depends on the features
      | some f =>
          have hstable : ∀ t o, (Asked (sizeCmd key) t ∨ Asked (mlstCmd key) t) →
              Asked (sizeCmd key) (recording scripted t o).2 ∨
                Asked (mlstCmd key) (recording scripted t o).2 :=
            fun t o => Or.imp (asked_stable _ _ t o) (asked_stable _ _ t o)
          have hask : wp (recording scripted) ((fl.backend b 2).perform (.exists' key))
              (fun _ _ t => Asked (sizeCmd key) t ∨ Asked (mlstCmd key) t)
              { b.start with conn := some ⟨0⟩ } ⟨[], 1, []⟩ :=
            wp_bind_of_stable hstable (asked_exists_known hholds rfl hf (hasks f hf) key)
          rcases hask with hsize | hmlst
          · exact hpart (sizeCmd key) [] hsize ((breaksLine_append_iff (by decide)).mpr hx)
          · exact hpart (mlstCmd key) [] hmlst ((breaksLine_append_iff (by decide)).mpr hx)
  | open' => trivial
  | close => trivial
  | scan pre => trivial

/-! ## One command, one line -/

/-- **One command, one line**: the octets of a call on each control connection, split at CR LF, are
the commands it means to send, for every server and after every run of an object, exactly when the
login data and, for the calls that send it, the key contain no CR LF. -/
theorem framed_iff (fl : Flavour) (b : FTPBlob) {c : Call} (hc : c ≠ .close) :
    (∀ (fuel : Nat) (E : Type) (h : Handler ftp E) (st : State) (t : Transcript E),
      Run h fl b fuel st t → Framed b c (callLog h (fl.backend b fuel) c st t)) ↔ Plain b c := by
  constructor
  · intro hframed hb
    constructor
    · apply loginPlain_of_framed hc hb
      exact fun script => hframed 2 _ scripted _ _ (.init ⟨rfl, script, rfl⟩)
    · exact keyPlain_of_framed hb fun st t hrun => hframed 2 _ scripted st t hrun
  · intro hplain fuel E h st t hrun
    by_cases hb : 0 < b.retries
    · have hstart : ∀ e : E, Sends (fun _ => True) b b.start (.fresh e : Transcript E) :=
        fun e => ⟨fun _ => ⟨rfl, fun _ _ => trivial⟩, fun f hf => hf⟩
      have hsends : Sends (fun _ => True) b st t :=
        hrun.invariant hstart fun c => keepsSends_perform (fun _ _ => trivial) fun _ _ => trivial
      exact framed_of_plain (hplain hb).1 (hplain hb).2 hsends.2
    · exact framed_of_unconnected (Int.not_lt.mp hb) (unsent_run (Int.not_lt.mp hb) hrun)

theorem loginPlain_anonymous : LoginPlain anonymous where
  user := by decide
  password := by decide
  root := by decide

/-- Reading the key `a` is framed, in every run. -/
theorem framed_iff_get : KeyPlain anonymous (.get ['a']) ∧
    ∀ (fuel : Nat) (E : Type) (h : Handler ftp E) (st : State) (t : Transcript E),
      Run h .sync anonymous fuel st t →
        Framed anonymous (.get ['a']) (callLog h (Flavour.sync.backend anonymous fuel) (.get ['a']) st t) := by
  have hkey : ¬ BreaksLine ['a'] := by decide
  have hne : Call.get ['a'] ≠ .close := by simp
  exact ⟨hkey, (framed_iff .sync anonymous hne).mpr fun _ => ⟨loginPlain_anonymous, hkey⟩⟩

/-- A key that contains a command. -/
def injected : Str := "a\r\nDELE b".toList

/-- What a new object sends when it deletes that key. -/
def injectedLog (fl : Flavour) : List Event :=
  callLog scripted (fl.backend anonymous 2) (.delete injected) anonymous.start
    (.fresh (loginScript anonymous))

theorem splitCrlf_injectedLog (fl : Flavour) : splitCrlf (octets 0 (injectedLog fl)) =
    ["USER anonymous", "TYPE I", "DELE a", "DELE b", ""].map line := by
  cases fl <;> decide

theorem commands_injectedLog (fl : Flavour) : commands 0 (injectedLog fl) =
    ["USER anonymous", "TYPE I", "DELE a\r\nDELE b"].map String.toList := by
  cases fl <;> decide

/-- One call of `delete` with one key sends two `DELE` lines, in both classes. -/
theorem not_framed_delete :
    ¬ Framed anonymous (.delete injected) (injectedLog .sync) ∧
      ¬ Framed anonymous (.delete injected) (injectedLog .aio) := by
  have hlength : ∀ fl, ¬ Framed anonymous (.delete injected) (injectedLog fl) := by
    intro fl hframed
    have hlines := congrArg List.length (hframed.lines 0)
    rw [splitCrlf_injectedLog, commands_injectedLog] at hlines
    simp at hlines
  exact ⟨hlength .sync, hlength .aio⟩

end GufoBlob.FTPBlob
