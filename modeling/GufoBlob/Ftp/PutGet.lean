import GufoBlob.Ftp.PlainServer
import GufoBlob.Ftp.Walk

/-!
# Putting and getting

A `put` to a server of files makes the directories that the key lies in, one `MKD` after another,
and then uploads the data; a `get` downloads it again.

`put_get_iff` — the file that is read is the one that was put, and nothing else has changed but the
directories on the way, exactly when the whole upload arrives.
-/

namespace GufoBlob.Ftp

open Text Data Interaction Program FTPBlob

/-! ## The directories on the way -/

theorem strip_joinSlash {path : List Str} (h : ∀ x ∈ path, IsPart x) :
    strip isSlash (joinSlash path) = joinSlash path := by
  have hleft : lstrip isSlash (joinSlash path) = joinSlash path := by
    by_cases hpath : path = []
    · subst hpath
      rfl
    · obtain ⟨c, u, hc, hu⟩ := exists_joinSlash_eq_cons hpath h
      rw [hu, lstrip, List.dropWhile_cons_of_neg (by simpa [isSlash] using hc)]
  rw [strip, hleft, rstrip_joinSlash h]

theorem iterParentDirs_joinSlash {path : List Str} (h : ∀ x ∈ path, IsPart x) :
    iterParentDirs (joinSlash path) =
      (List.range' 0 (path.length - 1)).map fun n => joinSlash (path.take (n + 1)) := by
  unfold iterParentDirs
  rw [strip_joinSlash h, ← List.range_eq_range']
  by_cases hpath : path = []
  · subst hpath
    rfl
  · have hsplit : (joinSlash path).splitOn '/' = path :=
      List.splitOn_intercalate '/' (fun x hx => (h x hx).2) hpath
    dsimp only
    rw [hsplit]

/-- One iteration of `_ensure_parent_dirs`. -/
def makeDir (d : Dialect) (fuel : Nat) (conn : FtpProg (Option (Sock .control))) (dir : Str) :
    FtpProg Unit := do
  let (code, _) ← cmd d fuel conn (mkdCmd dir)
  if code ≠ created && code ≠ notFound then
    .raise (.blobError ("cannot create " ++ fmt dir ++ ": " ++ toString code))
  else
    return ()

section Commands

variable {N : Type} {net : N → Option Nat × N} {srv : FileServer} {fl : Flavour} {fuel : Nat}
  {g : FTPFeatures} {tree : RemoteTree} {st : State} {t : Session ServerState N} {b : FTPBlob}
  {path : List Str} (hnet : ∀ n, (net n).1 ≠ none) (hfuel : srv.limit < fuel)
  (hparts : ∀ x ∈ path, IsPart x) (hplain : ¬ BreaksLine (joinSlash path))

/-- The files are those of some tree in `R`. -/
def ServingSome {N : Type} (srv : FileServer) (b : FTPBlob) (g : FTPFeatures)
    (R : RemoteTree → Prop) (st : State) (t : Session ServerState N) : Prop :=
  ∃ tree, R tree ∧ Serving srv b g tree st t

include hplain in
theorem command_plain (verb : Str) (hverb : '\r' ∉ verb) (n : Nat) :
    ¬ BreaksLine (verb ++ ' ' :: joinSlash (path.take n)) := by
  have hpre := (intercalate_take_isPrefix ['/'] n path).isInfix
  rw [breaksLine_append_iff hverb, breaksLine_cons_iff]
  rintro (⟨heq, -⟩ | h)
  · exact absurd heq (by decide)
  · exact hplain (h.of_infix hpre)

include hnet hfuel hparts hplain

/-- `MKD` makes the next directory, unless it is there. -/
theorem wp_mkd {tree₁ : RemoteTree} {n : Nat} (hn : n < path.length)
    (hreaches : tree.Reaches tree₁ (path.take n))
    (hfile : tree.isFile (path.take (n + 1)) = false) (ht : Serving srv b g tree₁ st t) :
    wp (session srv.peer net)
      (cmd fl.dialect fuel (fl.connection b fuel) (mkdCmd (joinSlash (path.take (n + 1)))))
      (endsPost False (ServingSome srv b g fun tree' => tree.Reaches tree' (path.take (n + 1)))
        (fun _ _ _ => False) fun r => r.1 = created ∨ r.1 = notFound) st t := by
  have hcmd : ¬ BreaksLine (mkdCmd (joinSlash (path.take (n + 1)))) :=
    command_plain hplain "MKD".toList (by decide) (n + 1)
  have hobey : ∀ p, srv.serve p (encode (mkdCmd (joinSlash (path.take (n + 1))))) =
      srv.obey p .mkd (path.take (n + 1)) :=
    srv.serve_path (show ' ' ∉ "MKD".toList by decide) rfl
      fun x hx => hparts x (List.mem_of_mem_take hx)
  have htake : path.take (n + 1) = path.take n ++ [path.get ⟨n, hn⟩] := List.take_succ_eq_append_getElem hn
  rw [htake] at hfile
  obtain ⟨tree₂, hreaches₂, hmkdir⟩ := hreaches.mkdir hfile
  rw [← htake] at hreaches₂ hmkdir
  -- 257 when the directory is made, 550 when it is there
  obtain ⟨note, hnote, hcode, hserve⟩ : ∃ (note : Note) (hnote : note ≠ .opening),
      (∀ c, note.Allows c → c = created ∨ c = notFound) ∧ ∀ p : ServerState, p.tree = tree₁ →
        ∃ p', p'.tree = tree₂ ∧ srv.serve p (encode (mkdCmd (joinSlash (path.take (n + 1))))) =
          srv.tell note hnote p' := by
    rcases hmkdir with hok | ⟨rfl, e, herror⟩
    · refine ⟨.created, by simp, fun c hc => .inl hc, ?_⟩
      rintro p rfl
      refine ⟨{ p with tree := tree₂ }, rfl, (hobey p).trans ?_⟩
      simp only [FileServer.obey, hok]
    · refine ⟨.refused, by simp, fun c hc => .inr hc, ?_⟩
      rintro p rfl
      refine ⟨p, rfl, (hobey p).trans ?_⟩
      simp only [FileServer.obey, herror]
  apply wp_mono (wp_told hnet hfuel hcmd hserve ht)
  rintro (r | e | _) st' t' ho
  · exact ⟨hcode _ ho.1, tree₂, hreaches₂, ho.2⟩
  · exact ho
  · exact ho

/-- `_ensure_parent_dirs`: the iterations that are left. -/
theorem wp_makeDirs (hclear : ∀ q, q <+: path → q ≠ path → tree.isFile q = false) (k n : Nat)
    (hlength : n + k < path.length) {tree₁ : RemoteTree}
    (hreaches : tree.Reaches tree₁ (path.take n)) (ht : Serving srv b g tree₁ st t) :
    wp (session srv.peer net)
      (Program.forEach ((List.range' n k).map fun i => joinSlash (path.take (i + 1)))
        (makeDir fl.dialect fuel (fl.connection b fuel)))
      (exactly (.ok ()) (ServingSome srv b g fun tree' => tree.Reaches tree' (path.take (n + k))))
      st t := by
  induction k generalizing n tree₁ st t with
  | zero => exact ⟨rfl, tree₁, hreaches, ht⟩
  | succ k ih =>
      -- the next directory is a proper ancestor of the key
      have hfile : tree.isFile (path.take (n + 1)) = false := by
        apply hclear _ (List.take_prefix _ _)
        intro heq
        have hall := congrArg List.length heq
        rw [List.length_take] at hall
        omega
      rw [List.range'_succ, List.map_cons, Program.forEach]
      apply wp_bind_ok
      · unfold makeDir
        rw [bind_eq, wp_bind]
        apply wp_mono (wp_mkd hnet hfuel hparts hplain (by omega) hreaches hfile ht)
        rintro (⟨code, lines⟩ | e | _) st' t' ho
        · have hcode : ¬ (code ≠ created && code ≠ notFound) = true := by
            have hcases : code = created ∨ code = notFound := ho.1
            simpa [or_iff_not_imp_left] using hcases
          rw [bindPost_ok]
          dsimp only
          rw [if_neg hcode]
          exact ⟨rfl, ho.2⟩
        · exact ho.elim
        · exact ho.elim
      · rintro st' t' ⟨tree₂, hreaches₂, ht'⟩
        have hrest := ih (n + 1) (by omega) hreaches₂ ht'
        rwa [Nat.add_right_comm, Nat.add_assoc] at hrest

end Commands

/-! ## An upload -/

/-- How much of an upload does not arrive, when it does not time out. -/
def missing (srv : FileServer) (data : Bytes) : Flavour → Option Nat
  | .sync => some 0
  | .aio => Transport.leftOf srv.mark srv.accepts data.length

section Uploads

variable {N : Type} {net : N → Option Nat × N} {srv : FileServer} {fl : Flavour} {fuel : Nat}
  {conn : FtpProg (Option (Sock .control))} {f : Option FTPFeatures} {p : ServerState}
  {rest : Bytes} {st : State} {t : Session ServerState N} {path : List Str} {data : Bytes} {r : Nat}

/-- All but the last `r` octets of the data are with the server, or on the way. -/
def Uploaded (data : Bytes) (r : Nat) (τ : Transport UInt8) : Prop :=
  τ.shutdown.stored = some (data.take (data.length - r))

/-- The data is sent. -/
theorem wp_send_data (s : Sock .data) (hr : missing srv data fl = some r)
    (hopened : p.upload = .opened srv.accepts) (ht : At f p true rest st t) :
    wp (session srv.peer net) (fl.dialect.send s data)
      (exactly (.ok ()) fun st t => ∃ τ, Uploaded data r τ ∧
        At f { p with upload := τ } true rest st t) st t := by
  cases fl with
  | sync =>
      obtain rfl : 0 = r := Option.some.inj hr
      show wp (session srv.peer net) (.call (.sendall s data) raiseOnError) _ st t
      rw [wp_call, wp_raiseOnError]
      refine ⟨rfl, _, ?_, At.transferred (P := srv.peer) (o := FtpOp.sendall s data) ht (.inr rfl)⟩
      unfold Uploaded
      rw [hopened]
      simp [Transport.shutdown, Transport.opened]
  | aio =>
      obtain ⟨hdrain, -, hstored⟩ := Transport.drain_of_leftOf hr
      rw [← hopened] at hdrain hstored
      -- the data is written, and then drained
      have hwritten := At.transferred (P := srv.peer) (o := FtpOp.write s data) ht (.inr rfl)
      have hanswer : srv.peer.other (srv.peer.other p (.write s data)).2 (.drain s) =
          (.ok (), { p with upload := ((p.upload.write data).drain srv.mark).2 }) :=
        Prod.ext (if_pos hdrain) rfl
      have hok : (session srv.peer net (t.transferred srv.peer (.write s data)) (.drain s)).1 =
          .ok () := by
        show (srv.peer.other (t.transferred srv.peer (.write s data)).peer (.drain s)).1 = _
        rw [hwritten.peer, hanswer]
      have hdrained := At.transferred (P := srv.peer) (o := FtpOp.drain s) hwritten
        (.inr (congrArg (endsData (FtpOp.drain s)) (congrArg Prod.fst hanswer)))
      rw [hanswer] at hdrained
      show wp (session srv.peer net) (Program.bind (.call (.write s data) .pure) fun _ =>
        .call (.drain s) raiseOnError) _ st t
      rw [wp_bind, wp_call, wp_pure, bindPost_ok, wp_call, wp_raiseOnError]
      show exactly _ _ (raised (session srv.peer net
        (t.transferred srv.peer (.write s data)) (.drain s)).1) st _
      rw [hok]
      exact ⟨rfl, _, hstored, hdrained⟩

section Store

variable (hnet : ∀ n, (net n).1 ≠ none) (hconn : ∀ s, Holds (session srv.peer net) conn s)
  (hfuel : srv.limit < fuel) {key : Str} (hkey : ¬ BreaksLine (storCmd key))
  (hserve : ∀ p, srv.serve p (encode (storCmd key)) = srv.obey p .stor path)
  (hr : missing srv data fl = some r)

include hnet hconn hfuel hkey hserve hr

theorem wp_store_files (s : Sock .data) {tree : RemoteTree} (hopened : p.upload = .opened srv.accepts)
    (hwrite : p.tree.write path [] = .ok tree) (ht : At f p false [] st t) :
    wp (session srv.peer net) (store fl.dialect fuel conn s key data)
      (exactly (.ok ()) fun st t => ∃ p', p'.transfer = .receiving path ∧ p'.tree = p.tree ∧
        Uploaded data r p'.upload ∧ At f p' true [] st t) st t := by
  have hstarts := srv.opening_starts p.turn
  have hreceive : srv.peer.receive p (encode (storCmd key)) = ⟨srv.say .opening p.turn, [], true,
      { p with turn := p.turn + 1, transfer := .receiving path }⟩ := by
    have hobey : srv.serve p (encode (storCmd key)) =
        (.start (srv.say .opening p.turn) hstarts false,
          { p with turn := p.turn + 1, transfer := .receiving path }) := by
      rw [hserve p]
      simp only [FileServer.obey, hwrite]
    unfold Peer.receive
    rw [show srv.peer.serve p _ = _ from hobey]
  unfold store
  apply wp_bind_ok (wp_cmd_at (srv.punctual hnet) hconn hkey hreceive
    ((srv.say_limit _ _).trans_lt hfuel) ht)
  intro st₁ t₁ ht₁
  dsimp only
  rw [hstarts, if_neg (by decide)]
  apply wp_tryCatch_ok
  apply wp_mono (wp_send_data s hr (p := { p with turn := p.turn + 1, transfer := .receiving path })
    hopened ht₁)
  rintro o st₂ t₂ ⟨rfl, τ, hτ, ht₂⟩
  exact ⟨rfl, { p with turn := p.turn + 1, transfer := .receiving path, upload := τ }, rfl, rfl,
    hτ, ht₂⟩

/-- What `put` does when the directories are there. -/
theorem wp_upload_files (hpath : path ≠ []) (hdir : p.tree.node path.dropLast = some .dir)
    (hnot : p.tree.isDir path = false) (ht : At f p false [] st t) :
    wp (session srv.peer net)
      ((getPassive fl.dialect fuel conn).bind fun sock =>
        ((store fl.dialect fuel conn sock key data).tryFinally (fl.dialect.closeData sock)).bind
          fun _ => expect fl.dialect fuel conn transferDone)
      (exactly (.ok ()) fun st t => ∃ tree, Serves f tree [] st t ∧ ∀ q, tree.node q =
        if q = path then some (.file (data.take (data.length - r))) else p.tree.node q) st t := by
  -- `STOR` is accepted when a write would succeed; the data is written at the end
  obtain ⟨tree, hwrite, -⟩ := FileTree.write_of_dir hpath hdir hnot []
  obtain ⟨tree', hwrite', htree'⟩ :=
    FileTree.write_of_dir hpath hdir hnot (data.take (data.length - r))
  apply wp_bind_ok (wp_getPassive_files hnet hconn hfuel ht)
  intro st₁ t₁ ht₁
  have hstore := wp_store_files (p := { p with turn := p.turn + 1, upload := .opened srv.accepts })
    hnet hconn hfuel hkey hserve hr ⟨p.turn + 1⟩ rfl hwrite ht₁
  apply wp_bind_ok
  · apply wp_tryFinally_of
      (R := fun o st t => o = .ok () ∧ ∃ p', p'.transfer = .receiving path ∧ p'.tree = p.tree ∧
        Uploaded data r p'.upload ∧ At f p' true [] st t)
      (Q := exactly (.ok ()) fun st t => ∃ k, Serves f tree' (srv.say .complete k).bytes st t)
    · apply wp_mono hstore
      rintro o st₂ t₂ ⟨rfl, hstored⟩
      exact ⟨by simp, rfl, hstored⟩
    · rintro o st₂ t₂ ⟨rfl, p', htransfer, htree, hup, ht₂⟩
      have hfinish : (srv.finish { p' with upload := p'.upload.shutdown }).2.tree = tree' := by
        unfold FileServer.finish
        dsimp only
        rw [htransfer, show p'.upload.shutdown.stored = _ from hup]
        dsimp only
        rw [htree, hwrite']
      have hshut : Serves f tree' (srv.say .complete p'.turn).bytes st₂
          (t₂.transferred srv.peer (.shutdown ⟨p.turn + 1⟩)) :=
        hfinish ▸ ht₂.shut_ends ⟨p.turn + 1⟩
      apply wp_mono (wp_closeData_files _ hshut)
      rintro o st₃ t₃ ⟨rfl, ht₃⟩
      exact ⟨rfl, rfl, _, ht₃⟩
  · rintro st₂ t₂ ⟨k, p₂, ht₂, rfl⟩
    apply wp_mono (wp_expect_say hnet hconn hfuel .complete k rfl (by rwa [List.append_nil]))
    rintro o st₃ t₃ ⟨rfl, ht₃⟩
    exact ⟨rfl, _, ⟨p₂, ht₃, rfl⟩, htree'⟩

end Store

end Uploads

theorem missing_le {srv : FileServer} {data : Bytes} {fl : Flavour} {r : Nat}
    (hr : missing srv data fl = some r) : r ≤ data.length := by
  cases fl with
  | sync =>
      obtain rfl : 0 = r := Option.some.inj hr
      exact Nat.zero_le _
  | aio =>
      exact (Transport.drain_of_leftOf hr).2.1

/-! ## The two calls -/

/-- The data is at `path`, below directories, and nothing else has changed. -/
structure Stored (tree tree' : RemoteTree) (path : List Str) (data : Bytes) : Prop where
  file : tree'.node path = some (.file data)
  dirs : ∀ q, q <+: path → q ≠ path → tree'.node q = some .dir
  others : ∀ q, ¬ q <+: path → tree'.node q = tree.node q

/-- With enough fuel, `put` returns, the files that it leaves are in `R`, and then `get` returns the
data. -/
def PutThenGet {N : Type} (srv : FileServer) (net : N → Option Nat × N) (fl : Flavour)
    (b : FTPBlob) (st : State) (t : Session ServerState N) (key : Str) (data : Bytes)
    (R : RemoteTree → Prop) : Prop :=
  ∃ least, ∀ fuel, least < fuel → ∃ st' t',
    ((fl.backend b fuel).perform (.put key data)).run (session srv.peer net) st t =
      (.ok .none, st', t') ∧ R t'.peer.tree ∧
    (((fl.backend b fuel).perform (.get key)).run (session srv.peer net) st' t').1 =
      .ok (.data data)

theorem Serving.tree_eq {N : Type} {srv : FileServer} {b : FTPBlob} {g : FTPFeatures}
    {tree : RemoteTree} {st : State} {t : Session ServerState N} (h : Serving srv b g tree st t) :
    t.peer.tree = tree := by
  obtain ⟨f, -, ⟨p, ht, rfl⟩ | ht⟩ := h
  · rw [ht.peer]
  · exact ht.tree

section Calls

variable {N : Type} {net : N → Option Nat × N} {srv : FileServer} {fl : Flavour} {fuel : Nat}
  {g : FTPFeatures} {tree : RemoteTree} {st : State} {t : Session ServerState N} {b : FTPBlob}
  {path : List Str} {data : Bytes} {r : Nat} (hnet : ∀ n, (net n).1 ≠ none)
  (hfuel : srv.limit < fuel) (hpath : path ≠ []) (hparts : ∀ x ∈ path, IsPart x)
  (hplain : ¬ BreaksLine (joinSlash path))

include hnet hfuel hpath hparts hplain

theorem wp_put_files (hclear : ∀ q, q <+: path → q ≠ path → tree.isFile q = false)
    (hnot : tree.isDir path = false) (hr : missing srv data fl = some r)
    (ht : Serving srv b g tree st t) :
    wp (session srv.peer net) (put fl.dialect fuel (fl.connection b fuel) (joinSlash path) data)
      (exactly (.ok ()) (ServingSome srv b g fun tree' =>
        Stored tree tree' path (data.take (data.length - r)))) st t := by
  have hlength := List.length_pos_of_ne_nil hpath
  have hkey : ¬ BreaksLine (storCmd (joinSlash path)) := by
    have hall := command_plain hplain "STOR".toList (by decide) path.length
    rwa [List.take_length] at hall
  have hserve : ∀ p, srv.serve p (encode (storCmd (joinSlash path))) = srv.obey p .stor path :=
    srv.serve_path (show ' ' ∉ "STOR".toList by decide) rfl hparts
  have hshorter : ¬ path <+: path.dropLast := by
    intro h
    have hle := h.length_le
    rw [List.length_dropLast] at hle
    omega
  unfold put ensureParentDirs
  rw [iterParentDirs_joinSlash hparts]
  apply wp_bind_ok (wp_makeDirs hnet hfuel hparts hplain hclear (path.length - 1) 0 (by omega)
    (FileTree.reaches_nil tree) ht)
  rintro st₁ t₁ ⟨tree₁, hreaches, f, hf, ht₁⟩
  rw [Nat.zero_add, ← List.dropLast_eq_take] at hreaches
  -- now the parent is there, and the key itself names what it did before
  have hdir : tree₁.node path.dropLast = some .dir :=
    (hreaches _).trans (if_pos (List.prefix_refl _))
  have hsame : tree₁.isDir path = tree.isDir path := by
    unfold FileTree.isDir
    rw [(hreaches path).trans (if_neg hshorter)]
  apply wp_begins_ready hnet hfuel (((begins_cmd pasvCmdText).bind _).bind _) _ ht₁
  rintro st₂ t₂ ⟨p, ht₂, rfl⟩
  apply wp_mono (wp_upload_files hnet (connection_files_holds hfuel) hfuel hkey hserve hr hpath
    hdir (hsame.trans hnot) ht₂)
  rintro o st₃ t₃ ⟨rfl, tree', ht₃, htree'⟩
  refine ⟨rfl, tree', ⟨?_, fun q hq hne => ?_, fun q hq => ?_⟩, f, hf, .inl ht₃⟩
  · rw [htree', if_pos rfl]
  · rw [htree', if_neg hne, hreaches, if_pos (prefix_dropLast hq hne)]
  · have hne : q ≠ path := fun heq => hq (heq ▸ List.prefix_refl _)
    have habove : ¬ q <+: path.dropLast := fun h => hq (h.trans (List.dropLast_prefix path))
    rw [htree', if_neg hne, hreaches, if_neg habove]

omit hpath in
theorem ends_get (hnode : tree.node path = some (.file data)) (hdata : data.length < fuel) :
    EndsWith (session srv.peer net) (Serving srv b g tree) data
      (get fl.dialect fuel (fl.connection b fuel) (joinSlash path)) := by
  have hkey : ¬ BreaksLine (retrCmd (joinSlash path)) := by
    have hall := command_plain hplain "RETR".toList (by decide) path.length
    rwa [List.take_length] at hall
  have hserve : ∀ p : ServerState, p.tree = tree →
      srv.serve p (encode (retrCmd (joinSlash path))) = srv.sendOut path data p := by
    rintro p rfl
    refine (srv.serve_path (show ' ' ∉ "RETR".toList by decide) rfl hparts p).trans ?_
    simp only [FileServer.obey, FileTree.read_of_file hnode]
  exact ends_pasvCmd hnet hfuel hkey hserve hdata

/-- `put` and then `get`. -/
theorem run_put_get (hclear : ∀ q, q <+: path → q ≠ path → tree.isFile q = false)
    (hnot : tree.isDir path = false) (hr : missing srv data fl = some r) (hdata : data.length < fuel)
    (ht : Serving srv b g tree st t) : ∃ st' t',
      ((fl.backend b fuel).perform (.put (joinSlash path) data)).run (session srv.peer net) st t =
        (.ok .none, st', t') ∧
      Stored tree t'.peer.tree path (data.take (data.length - r)) ∧
      (((fl.backend b fuel).perform (.get (joinSlash path))).run (session srv.peer net) st' t').1 =
        .ok (.data (data.take (data.length - r))) := by
  have hput : wp (session srv.peer net) ((fl.backend b fuel).perform (.put (joinSlash path) data))
      (exactly (.ok .none) (ServingSome srv b g fun tree' =>
        Stored tree tree' path (data.take (data.length - r)))) st t :=
    wp_bind_ok (wp_put_files hnet hfuel hpath hparts hplain hclear hnot hr ht)
      fun _ _ hstored => ⟨rfl, hstored⟩
  -- the run itself, since `get` starts from the state that it leaves
  unfold wp at hput
  generalize hrun : ((fl.backend b fuel).perform (.put (joinSlash path) data)).run
    (session srv.peer net) st t = result at hput
  obtain ⟨o, st', t'⟩ := result
  obtain ⟨rfl, tree', hstored, ht'⟩ := hput
  have hget : EndsWith (session srv.peer net) (Serving srv b g tree')
      (Value.data (data.take (data.length - r)))
      ((fl.backend b fuel).perform (.get (joinSlash path))) := by
    have hshort : (data.take (data.length - r)).length < fuel := by
      rw [List.length_take]
      omega
    have hdownload : EndsWith (session srv.peer net) (Serving srv b g tree')
        (data.take (data.length - r))
        (FTPBlob.get fl.dialect fuel (fl.connection b fuel) (joinSlash path)) :=
      ends_get hnet hfuel hparts hplain hstored.file hshort
    exact hdownload.bind (ends_pure rfl)
  exact ⟨st', t', rfl, ht'.tree_eq ▸ hstored, hget.run ht'⟩

omit hfuel in
/-- When the data that is read is the data that was put, all of it had arrived. -/
theorem PutThenGet.missing {R : RemoteTree → Prop}
    (hclear : ∀ q, q <+: path → q ≠ path → tree.isFile q = false) (hnot : tree.isDir path = false)
    (hr : missing srv data fl = some r) (ht : Serving srv b g tree st t)
    (h : PutThenGet srv net fl b st t (joinSlash path) data R) : r = 0 := by
  obtain ⟨least, hleast⟩ := h
  have hmore : srv.limit < least + srv.limit + data.length + 1 := by omega
  obtain ⟨st₁, t₁, hput, -, hget⟩ := hleast (least + srv.limit + data.length + 1) (by omega)
  obtain ⟨st₂, t₂, hput', -, hget'⟩ :=
    run_put_get hnet hmore hpath hparts hplain hclear hnot hr (by omega) ht
  obtain ⟨-, hsame⟩ := Prod.mk.inj (hput.symm.trans hput')
  obtain ⟨rfl, rfl⟩ := Prod.mk.inj hsame
  have hdata := Value.data.inj (Outcome.ok.inj (hget.symm.trans hget'))
  have hlength := congrArg List.length hdata
  have hle := missing_le hr
  rw [List.length_take] at hlength
  omega

end Calls

/-- **What was put is read back**, and nothing else has changed but the directories on the way,
exactly when the whole upload arrives; in the synchronous client it always does. -/
theorem put_get_iff {N : Type} {net : N → Option Nat × N} {srv : FileServer} (fl : Flavour)
    {b : FTPBlob} {g : FTPFeatures} {tree : RemoteTree} {st : State} {t : Session ServerState N}
    {path : List Str} (data : Bytes) (hnet : ∀ n, (net n).1 ≠ none)
    (htime : missing srv data fl ≠ none) (ht : Serving srv b g tree st t) (hpath : path ≠ [])
    (hparts : ∀ x ∈ path, IsPart x) (hplain : ¬ BreaksLine (joinSlash path))
    (hclear : ∀ q, q <+: path → q ≠ path → tree.isFile q = false)
    (hnot : tree.isDir path = false) :
    PutThenGet srv net fl b st t (joinSlash path) data
      (fun tree' => Stored tree tree' path data) ↔ missing srv data fl = some 0 := by
  obtain ⟨r, hr⟩ := Option.ne_none_iff_exists'.mp htime
  constructor
  · intro h
    rw [hr, h.missing hnet hpath hparts hplain hclear hnot hr ht]
  · intro hzero
    refine ⟨srv.limit + data.length, fun fuel hfuel => ?_⟩
    have hrun := run_put_get hnet (show srv.limit < fuel by omega) hpath hparts hplain hclear hnot
      hzero (by omega) ht
    rwa [Nat.sub_zero, List.take_length] at hrun

/-- The key `d/f` in a tree with nothing in it. The network takes one octet at first; what the
asynchronous client then leaves in its buffer is too much, so it waits. -/
theorem put_get_nested :
    PutThenGet (plainServer [1, 2] 1) prompt .sync (knowing {}) (knowing {}).start
        (.start (idleServer .empty) ()) (joinSlash [['d'], ['f']]) [1, 2, 3]
        (fun tree => Stored .empty tree [['d'], ['f']] [1, 2, 3]) ∧
      PutThenGet (plainServer [1, 2] 1) prompt .aio (knowing {}) (knowing {}).start
        (.start (idleServer .empty) ()) (joinSlash [['d'], ['f']]) [1, 2, 3]
        (fun tree => Stored .empty tree [['d'], ['f']] [1, 2, 3]) :=
  ⟨(put_get_iff .sync [1, 2, 3] prompt_ne_none (by decide) (serving_start _ {} .empty _)
      (by decide) (by simp [IsPart]) (by decide) (fun q _ _ => FileTree.isFile_empty q)
      (by decide)).mpr (by decide),
    (put_get_iff .aio [1, 2, 3] prompt_ne_none (by decide) (serving_start _ {} .empty _)
      (by decide) (by simp [IsPart]) (by decide) (fun q _ _ => FileTree.isFile_empty q)
      (by decide)).mpr (by decide)⟩

/-- The network takes one octet at first, and the asynchronous client does not wait for the rest. -/
theorem not_put_get :
    ¬ PutThenGet (plainServer [1, 2] 16384) prompt .aio (knowing {}) (knowing {}).start
      (.start (idleServer .empty) ()) (joinSlash [['k']]) [1, 2, 3]
      (fun tree => Stored .empty tree [['k']] [1, 2, 3]) := by
  intro h
  have hmissing : missing (plainServer [1, 2] 16384) [1, 2, 3] .aio = some 2 := by decide
  have hzero := h.missing prompt_ne_none (by decide) (by simp [IsPart]) (by decide)
    (fun q _ _ => FileTree.isFile_empty q) (by decide) hmissing (serving_start _ {} .empty _)
  exact absurd hzero (by decide)

end GufoBlob.Ftp
