import GufoBlob.Ftp.FileServer
import Mathlib.Data.List.TakeWhile

/-!
# Commands to a server of files

What the methods of an `FTPBlob` do with a server of files, whatever the network makes of the
replies: the rules for a command that is answered by one reply, for opening a data connection, and
for a download. All of them need fuel for the longest reply, and a download for its data.
-/

namespace GufoBlob.Ftp

open Text Data Interaction Program FTPBlob

/-! ## What the server receives -/

theorem command_append {verb : Str} (hverb : ' ' ∉ verb) (arg : Str) :
    verbOf (verb ++ ' ' :: arg) = verbs.lookup verb ∧ argumentOf (verb ++ ' ' :: arg) = arg := by
  have htake : (verb ++ ' ' :: arg).takeWhile (· ≠ ' ') = verb ∧
      (verb ++ ' ' :: arg).dropWhile (· ≠ ' ') = ' ' :: arg := by
    induction verb with
    | nil => simp
    | cons c verb ih =>
        have hc : c ≠ ' ' := fun h => hverb (h ▸ List.mem_cons_self)
        have hrest := ih fun h => hverb (List.mem_cons_of_mem c h)
        simpa [hc] using hrest
  unfold verbOf argumentOf
  rw [htake.1, htake.2]
  exact ⟨rfl, rfl⟩

namespace FileServer

variable {srv : FileServer}

/-- A command with an argument. -/
theorem serve_command {verb : Str} {v : Verb} (hspace : ' ' ∉ verb)
    (hv : verbs.lookup verb = some v) (p : ServerState) (arg : Str) :
    srv.serve p (encode (verb ++ ' ' :: arg)) = srv.obey p v (components arg) := by
  obtain ⟨hverb, harg⟩ := command_append hspace arg
  unfold serve
  rw [decode_encode]
  dsimp only
  rw [hverb, hv, harg]

/-- A command without one. -/
theorem serve_verb {verb : Str} {v : Verb} (hspace : ' ' ∉ verb)
    (hv : verbs.lookup verb = some v) (p : ServerState) :
    srv.serve p (encode verb) = srv.obey p v [] := by
  have hall : ∀ c ∈ verb, (decide (c ≠ ' ')) = true := by
    intro c hc
    rw [decide_eq_true_eq]
    rintro rfl
    exact hspace hc
  unfold serve verbOf argumentOf
  rw [decode_encode]
  dsimp only
  rw [List.takeWhile_eq_self_iff.mpr hall, List.dropWhile_eq_nil_iff.mpr hall, hv]
  rfl

theorem receive_tell {p p' : ServerState} {line : Bytes} {n : Note} {hn : n ≠ .opening}
    (h : srv.serve p line = srv.tell n hn p') :
    srv.peer.receive p line = ⟨srv.say n p'.turn, [], false, { p' with turn := p'.turn + 1 }⟩ := by
  unfold Peer.receive
  rw [show srv.peer.serve p line = _ from h]
  rfl

end FileServer

/-! ## Replies -/

section Rules

variable {N : Type} {net : N → Option Nat × N} {srv : FileServer} {fl : Flavour} {fuel : Nat}
  {conn : FtpProg (Option (Sock .control))} {f : Option FTPFeatures} {p p' : ServerState}
  {pending : Bool} {rest : Bytes} {st : State} {t : Session ServerState N}

/-- The server is never late, when the network is not. -/
theorem FileServer.punctual (srv : FileServer) (hnet : ∀ n, (net n).1 ≠ none) :
    Punctual srv.peer net where
  control := hnet
  recv _ _ _ h := by cases h
  sendall _ _ _ _ h := by cases h

variable (hnet : ∀ n, (net n).1 ≠ none) (hconn : ∀ s, Holds (session srv.peer net) conn s)
  (hfuel : srv.limit < fuel)

include hnet hconn hfuel

/-- A command that is answered by one reply. -/
theorem wp_cmd_tell {c : Str} (hc : ¬ BreaksLine c) {n : Note} {hn : n ≠ .opening}
    (h : srv.serve p (encode c) = srv.tell n hn p') (ht : At f p false [] st t) :
    wp (session srv.peer net) (cmd fl.dialect fuel conn c)
      (exactly (.ok ((srv.say n p'.turn).code, (srv.say n p'.turn).lines))
        (At f { p' with turn := p'.turn + 1 } false [])) st t := by
  exact wp_cmd_at (srv.punctual hnet) hconn hc (FileServer.receive_tell h)
    ((srv.say_limit n p'.turn).trans_lt hfuel) ht

theorem wp_cmdExpect_tell {c : Str} (hc : ¬ BreaksLine c) {n : Note} {hn : n ≠ .opening}
    (h : srv.serve p (encode c) = srv.tell n hn p') {want : Int} (hwant : n.Allows = (· = want))
    (msg : String) (ht : At f p false [] st t) :
    wp (session srv.peer net) (cmdExpect fl.dialect fuel conn c want msg)
      (exactly (.ok ()) (At f { p' with turn := p'.turn + 1 } false [])) st t := by
  have hcode : (srv.say n p'.turn).code = want := by
    have hallows := srv.say_code n p'.turn
    rwa [hwant] at hallows
  apply wp_bind_ok (wp_cmd_tell hnet hconn hfuel hc h ht)
  intro st' t' ht'
  dsimp only
  rw [hcode, if_neg (not_not.mpr rfl)]
  exact ⟨rfl, ht'⟩

theorem wp_expect_say (n : Note) (k : Nat) {code : Int} (hcode : n.Allows = (· = code))
    (ht : At f p pending ((srv.say n k).bytes ++ rest) st t) :
    wp (session srv.peer net) (expect fl.dialect fuel conn code)
      (exactly (.ok ()) (At f p pending rest)) st t := by
  have hallows := srv.say_code n k
  rw [hcode] at hallows
  rw [← hallows]
  exact wp_expect_at (srv.punctual hnet) hconn _ ((srv.say_limit n k).trans_lt hfuel) ht

end Rules

/-! ## Data connections -/

section Data

variable {N : Type} {net : N → Option Nat × N} {srv : FileServer} {fl : Flavour}
  {f : Option FTPFeatures} {p : ServerState} {pending : Bool} {rest : Bytes} {st : State}
  {t : Session ServerState N}

/-- A receive on a data connection is what the server makes of it. -/
theorem wp_recv_data (s : Sock .data) (ht : At f p pending rest st t)
    {Q : Outcome PyExc Bytes → State → Session ServerState N → Prop}
    (hQ : ∀ t : Session ServerState N, At f p pending rest st t →
      Q (.ok (srv.sendPiece p).1) st (t.transferred srv.peer (.recv s))) :
    wp (session srv.peer net) (fl.dialect.recv s) Q st t := by
  have hrecv : ∀ t : Session ServerState N, At f p pending rest st t →
      wp (session srv.peer net) (.call (.recv s) raiseOnError) Q st t := by
    intro t ht
    rw [wp_call, wp_raiseOnError]
    have hok := hQ t ht
    obtain rfl := ht.peer
    exact hok
  cases fl with
  | sync => exact hrecv t ht
  | aio =>
      show wp (session srv.peer net) (.call (.wait s) fun r => (raiseOnError r).bind fun _ => _) _ _ _
      rw [wp_call, wp_bind, wp_raiseOnError]
      exact hrecv _ (At.transferred (P := srv.peer) (o := FtpOp.wait s) ht (.inr rfl))

/-- A download: `left` is still to be sent, and the final reply is pending, or it is there. -/
def Downloading (srv : FileServer) (f : Option FTPFeatures) (tree : RemoteTree) (left : Bytes)
    (st : State) (t : Session ServerState N) : Prop :=
  ∃ p pending rest path, At f p pending rest st t ∧ p.tree = tree ∧
    p.transfer = .sending path left ∧
    (pending = true ∧ rest = [] ∨ pending = false ∧ ∃ k, rest = (srv.say .complete k).bytes)

/-- The final reply of a download is there. -/
def Downloaded (srv : FileServer) (f : Option FTPFeatures) (tree : RemoteTree) (st : State)
    (t : Session ServerState N) : Prop :=
  ∃ p k, At f p false (srv.say .complete k).bytes st t ∧ p.tree = tree

theorem FileServer.finish_sending (srv : FileServer) {path : List Str} {left : Bytes}
    (h : p.transfer = .sending path left) :
    srv.finish p = (srv.say .complete p.turn, { p with turn := p.turn + 1 }) := by
  unfold FileServer.finish
  rw [h]

theorem FileServer.sendPiece_sending (srv : FileServer) {path : List Str} {left : Bytes}
    (h : p.transfer = .sending path left) :
    srv.sendPiece p = (left.take (srv.piece path left.length + 1),
      { p with transfer := .sending path (left.drop (srv.piece path left.length + 1)) }) := by
  unfold FileServer.sendPiece
  rw [h]

/-- The end of the file is received. -/
theorem At.downloaded (s : Sock .data) {path : List Str} (ht : At f p pending rest st t)
    (htransfer : p.transfer = .sending path [])
    (hrest : pending = true ∧ rest = [] ∨ pending = false ∧ ∃ k, rest = (srv.say .complete k).bytes) :
    Downloaded srv f p.tree st (t.transferred srv.peer (.recv s)) := by
  have hpiece := srv.sendPiece_sending htransfer
  have htree : (srv.sendPiece p).2.tree = p.tree := by rw [hpiece]
  rcases hrest with ⟨rfl, rfl⟩ | ⟨rfl, k, rfl⟩
  · have hend : endsData (.recv s) (srv.peer.other p (.recv s)).1 = true := by
      show (srv.sendPiece p).1.isEmpty = true
      rw [hpiece]
      rfl
    have hsending : (srv.sendPiece p).2.transfer = .sending path [] := by
      rw [hpiece, List.drop_nil]
    have hfinish := srv.finish_sending hsending
    have ht' := ht.transferred_ends hend
    rw [show srv.peer.finish (srv.peer.other p (.recv s)).2 = _ from hfinish] at ht'
    exact ⟨_, _, ht', htree⟩
  · exact ⟨_, k, ht.transferred (.inl rfl), htree⟩

/-- A piece is received. -/
theorem At.downloading (s : Sock .data) {path : List Str} {left : Bytes} (hleft : left ≠ [])
    (ht : At f p pending rest st t) (htransfer : p.transfer = .sending path left)
    (hrest : pending = true ∧ rest = [] ∨ pending = false ∧ ∃ k, rest = (srv.say .complete k).bytes) :
    Downloading srv f p.tree (left.drop (srv.piece path left.length + 1)) st
      (t.transferred srv.peer (.recv s)) := by
  have hpiece := srv.sendPiece_sending htransfer
  have hmore : endsData (.recv s) (srv.peer.other p (.recv s)).1 = false := by
    show (srv.sendPiece p).1.isEmpty = false
    rw [hpiece]
    cases left with
    | nil => exact absurd rfl hleft
    | cons x left => rfl
  refine ⟨_, pending, rest, path, ht.transferred (.inr hmore), ?_, ?_, hrest⟩
  · show (srv.sendPiece p).2.tree = p.tree
    rw [hpiece]
  · show (srv.sendPiece p).2.transfer = _
    rw [hpiece]

/-- All pieces of a download are received. -/
theorem wp_recvAll_download {fuel : Nat} {conn : FtpProg (Option (Sock .control))} (s : Sock .data)
    {tree : RemoteTree} {n : Nat} {left : Bytes} (hn : left.length < n) (chunks : List Bytes)
    (ht : Downloading srv f tree left st t) :
    wp (session srv.peer net) (recvAll fl.dialect fuel conn s n chunks)
      (fun o st t => ∃ cs, o = .ok (chunks ++ cs) ∧ cs.flatten = left ∧
        Downloaded srv f tree st t) st t := by
  induction n generalizing left chunks st t with
  | zero => exact absurd hn (Nat.not_lt_zero _)
  | succ n ih =>
      obtain ⟨p, pending, rest, path, ht, rfl, htransfer, hrest⟩ := ht
      unfold recvAll
      rw [bind_eq, wp_bind, wp_tryCatch]
      apply wp_recv_data s ht
      intro t ht
      rw [catchPost_ok, bindPost_ok, srv.sendPiece_sending htransfer]
      dsimp only
      by_cases hleft : left = []
      · -- the end of the file
        subst hleft
        rw [List.take_nil, List.isEmpty_nil, if_pos rfl]
        exact ⟨[], congrArg _ (List.append_nil chunks).symm, rfl, ht.downloaded s htransfer hrest⟩
      · have htake : left.take (srv.piece path left.length + 1) ≠ [] := by
          cases left with
          | nil => exact absurd rfl hleft
          | cons x left => exact List.cons_ne_nil _ _
        -- every piece has an octet, so less is left than before
        have hshort : (left.drop (srv.piece path left.length + 1)).length < n := by
          have hpos := List.length_pos_of_ne_nil hleft
          rw [List.length_drop]
          omega
        rw [if_neg (by simpa using htake)]
        apply wp_mono (ih hshort (chunks ++ [left.take (srv.piece path left.length + 1)])
          (ht.downloading s hleft htransfer hrest))
        rintro o st' t' ⟨cs, rfl, hcs, ht'⟩
        refine ⟨left.take (srv.piece path left.length + 1) :: cs, ?_, ?_, ht'⟩
        · rw [List.append_assoc]
          rfl
        · rw [List.flatten_cons, hcs, List.take_append_drop]

/-- The files are the ones of `tree`. -/
def Serves (f : Option FTPFeatures) (tree : RemoteTree) (rest : Bytes) (st : State)
    (t : Session ServerState N) : Prop :=
  ∃ p, At f p false rest st t ∧ p.tree = tree

theorem Serves.transferred (srv : FileServer) {tree : RemoteTree} {o : FtpOp} (ht : Serves f tree rest st t)
    (htree : ∀ p : ServerState, (srv.other p o).2.tree = p.tree) :
    Serves f tree rest st (t.transferred srv.peer o) := by
  obtain ⟨p, ht, rfl⟩ := ht
  exact ⟨_, ht.transferred (.inl rfl), htree p⟩

/-- A data connection on which nothing is awaited is closed. -/
theorem wp_closed_files (s : Sock .data) {tree : RemoteTree} (ht : Serves f tree rest st t) :
    wp (session srv.peer net) (Sync.FTPBlob.closeSock s)
        (exactly (.ok ()) (Serves f tree rest)) st t ∧
      wp (session srv.peer net) (suppressOSError (Aio.FTPBlob.closeConn s))
        (exactly (.ok ()) (Serves f tree rest)) st t := by
  constructor
  · apply wp_tryCatch_ok
    rw [wp_call, wp_raiseOnError]
    exact ⟨rfl, ht.transferred srv (o := FtpOp.close s) fun _ => rfl⟩
  · apply wp_tryCatch_ok
    unfold Aio.FTPBlob.closeConn
    rw [bind_eq, wp_bind, wp_call, wp_pure, bindPost_ok, wp_call, wp_raiseOnError]
    have ht' := ht.transferred srv (o := FtpOp.closeWriter s) fun _ => rfl
    exact ⟨rfl, ht'.transferred srv (o := FtpOp.waitClosed s) fun _ => rfl⟩

/-- A data connection is shut down and closed: at the end of an upload this ends the transfer. -/
theorem wp_closeData_files (s : Sock .data) {tree : RemoteTree} {rest' : Bytes}
    (hshutdown : Serves f tree rest' st (t.transferred srv.peer (.shutdown s))) :
    wp (session srv.peer net) (fl.dialect.closeData s)
      (exactly (.ok ()) (Serves f tree rest')) st t := by
  have hfirst : wp (session srv.peer net) (suppressOSError (.call (.shutdown s) raiseOnError))
      (exactly (.ok ()) (Serves f tree rest')) st t := by
    apply wp_tryCatch_ok
    rw [wp_call, wp_raiseOnError]
    exact ⟨rfl, hshutdown⟩
  cases fl with
  | sync => exact wp_bind_ok hfirst fun _ _ ht => (wp_closed_files s ht).1
  | aio => exact wp_bind_ok hfirst fun _ _ ht => (wp_closed_files s ht).2

theorem At.shut (s : Sock .data) (ht : At f p false rest st t) :
    Serves f p.tree rest st (t.transferred srv.peer (.shutdown s)) :=
  ⟨_, At.transferred (P := srv.peer) (o := FtpOp.shutdown s) ht (.inl rfl), rfl⟩

/-- The end of an upload. -/
theorem At.shut_ends (s : Sock .data) (ht : At f p true rest st t) :
    Serves f (srv.finish { p with upload := p.upload.shutdown }).2.tree
      (rest ++ (srv.say .complete p.turn).bytes) st (t.transferred srv.peer (.shutdown s)) :=
  ⟨_, At.transferred_ends (P := srv.peer) (o := FtpOp.shutdown s) ht rfl, rfl⟩

end Data

/-! ## Downloads -/

/-- The server begins a download, and may have sent its final reply already. -/
theorem FileServer.receive_sendOut {srv : FileServer} {p : ServerState} {line : Bytes}
    {path : List Str} {data : Bytes} (h : srv.serve p line = srv.sendOut path data p) :
    ∃ rest pending p', srv.peer.receive p line = ⟨srv.say .opening p.turn, rest, pending, p'⟩ ∧
      p'.tree = p.tree ∧ p'.transfer = .sending path data ∧
      (pending = true ∧ rest = [] ∨ pending = false ∧ ∃ k, rest = (srv.say .complete k).bytes) := by
  unfold Peer.receive
  rw [show srv.peer.serve p line = _ from h]
  unfold FileServer.sendOut
  cases srv.early path with
  | true =>
      have hfinish := srv.finish_sending (p := { p with turn := p.turn + 1, transfer := .sending path data }) rfl
      refine ⟨_, _, _, rfl, ?_, ?_, .inr ⟨rfl, _, rfl⟩⟩
      · rw [show srv.peer.finish _ = _ from hfinish]
      · rw [show srv.peer.finish _ = _ from hfinish]
  | false => exact ⟨_, _, _, rfl, rfl, rfl, .inl ⟨rfl, rfl⟩⟩

section Downloads

variable {N : Type} {net : N → Option Nat × N} {srv : FileServer} {fl : Flavour} {fuel : Nat}
  {conn : FtpProg (Option (Sock .control))} {f : Option FTPFeatures} {p : ServerState}
  {pending : Bool} {rest : Bytes} {st : State} {t : Session ServerState N}
  (hnet : ∀ n, (net n).1 ≠ none) (hconn : ∀ s, Holds (session srv.peer net) conn s)
  (hfuel : srv.limit < fuel)

include hnet hconn hfuel

theorem wp_getPassive_files (ht : At f p false [] st t) :
    wp (session srv.peer net) (getPassive fl.dialect fuel conn)
      (exactly (.ok ⟨p.turn + 1⟩)
        (At f { p with turn := p.turn + 1, upload := .opened srv.accepts } false [])) st t := by
  have hserve : srv.serve p (encode pasvCmdText) = srv.tell .passive (by simp) p :=
    FileServer.serve_verb (show ' ' ∉ pasvCmdText by decide) rfl p
  have hcode : (srv.say .passive p.turn).code = pasv := srv.say_code .passive p.turn
  obtain ⟨⟨host, port⟩, haddress⟩ := srv.address p.turn
  unfold getPassive
  apply wp_bind_ok (wp_cmd_tell hnet hconn hfuel (by decide) hserve ht)
  intro st' t' ht'
  dsimp only
  rw [hcode, if_neg (not_not.mpr rfl), bind_eq, wp_bind, wp_ofExcept, haddress, bindPost_ok]
  dsimp only
  rw [bind_eq, wp_bind, wp_connect, bindPost_ok]
  have hsock : (session srv.peer net t' (.connect .data host port)).1 = .ok ⟨p.turn + 1⟩ := by
    show Except.ok (Sock.mk t'.peer.turn) = _
    rw [ht'.peer]
  rw [hsock]
  exact ⟨rfl, At.transferred (P := srv.peer) (o := FtpOp.connect .data host port) ht' (.inl rfl)⟩

/-- A download returns the data. -/
theorem wp_retrieve_files (s : Sock .data) {c : Str} (hc : ¬ BreaksLine c) {path : List Str}
    {data : Bytes} (hserve : srv.serve p (encode c) = srv.sendOut path data p)
    (hdata : data.length < fuel) (ht : At f p false [] st t) :
    wp (session srv.peer net) (retrieve fl.dialect fuel conn s c)
      (fun o st t => ∃ cs, o = .ok cs ∧ cs.flatten = data ∧ Serves f p.tree [] st t) st t := by
  obtain ⟨rest, pending, p', hreceive, htree, htransfer, hrest⟩ :=
    FileServer.receive_sendOut hserve
  have hstarts := srv.opening_starts p.turn
  unfold retrieve
  apply wp_bind_ok (wp_cmd_at (srv.punctual hnet) hconn hc hreceive
    ((srv.say_limit _ _).trans_lt hfuel) ht)
  intro st' t' ht'
  dsimp only at ht' ⊢
  have hnot : (srv.say .opening p.turn).code ≠ notFound := by
    intro h
    rw [h] at hstarts
    exact absurd hstarts (by decide)
  rw [if_neg hnot, hstarts, if_neg (by decide), bind_eq, wp_bind]
  apply wp_mono (wp_recvAll_download s hdata [] ⟨p', pending, rest, path, ht', rfl, htransfer, hrest⟩)
  rintro o st'' t'' ⟨cs, rfl, hcs, p'', k, ht'', htree''⟩
  rw [bindPost_ok, List.nil_append]
  apply wp_bind_ok (wp_expect_say hnet hconn hfuel .complete k rfl
    (by rwa [List.append_nil]))
  intro st₃ t₃ ht₃
  exact ⟨cs, rfl, hcs, p'', ht₃, htree''.trans htree⟩

theorem wp_pasvCmd_files {c : Str} (hc : ¬ BreaksLine c) {path : List Str} {data : Bytes}
    (hserve : ∀ p', p'.tree = p.tree → srv.serve p' (encode c) = srv.sendOut path data p')
    (hdata : data.length < fuel) (ht : At f p false [] st t) :
    wp (session srv.peer net) (pasvCmd fl.dialect fuel conn c)
      (exactly (.ok data) (Serves f p.tree [])) st t := by
  have hopened := hserve { p with turn := p.turn + 1, upload := .opened srv.accepts } rfl
  unfold pasvCmd
  apply wp_bind_ok (wp_getPassive_files hnet hconn hfuel ht)
  intro st' t' ht'
  rw [bind_eq, wp_bind]
  apply wp_tryFinally_of
    (R := fun o st t => ∃ cs, o = .ok cs ∧ cs.flatten = data ∧ Serves f p.tree [] st t)
  · apply wp_mono (wp_retrieve_files hnet hconn hfuel _ hc hopened hdata ht')
    rintro o st'' t'' ⟨cs, rfl, hcs, ht''⟩
    exact ⟨by simp, cs, rfl, hcs, ht''⟩
  · rintro o st'' t'' ⟨cs, rfl, hcs, p'', ht'', htree''⟩
    apply wp_mono (wp_closeData_files _ (ht''.shut _))
    rintro o st₃ t₃ ⟨rfl, ht₃⟩
    refine ⟨rfl, ?_⟩
    rw [bindPost_ok, hcs]
    exact ⟨rfl, htree'' ▸ ht₃⟩

end Downloads

end GufoBlob.Ftp
