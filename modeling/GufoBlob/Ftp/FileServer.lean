import GufoBlob.Common.Listings
import GufoBlob.Data.FileTree
import GufoBlob.Data.Transport
import GufoBlob.Ftp.Exchange

/-!
# A server of files

A fault-free server with a tree of files, as a `Peer`. `FileServer` is what such servers differ in:
the texts of their replies, the commands that they know, the order and the lines of their listings,
when the final reply of a download is sent, how the data is cut into pieces, and how much of an
upload the network takes at a time.
-/

namespace GufoBlob.Ftp

open Text Data Interaction Program FTPBlob

/-- The files of a server, under the directory that a login enters. -/
abbrev RemoteTree := FileTree Str Bytes

theorem isDir_emptyTree : (FileTree.empty : RemoteTree).isDir [] = true := rfl

/-! ## Commands -/

inductive Verb where
  | user
  | pass
  | cwd
  | type
  | feat
  | pasv
  | mkd
  | stor
  | retr
  | list
  | mlsd
  | size
  | mlst

def verbs : List (Str × Verb) :=
  [("USER".toList, .user), ("PASS".toList, .pass), ("CWD".toList, .cwd), ("TYPE".toList, .type),
    ("FEAT".toList, .feat), ("PASV".toList, .pasv), ("MKD".toList, .mkd), ("STOR".toList, .stor),
    ("RETR".toList, .retr), ("LIST".toList, .list), ("MLSD".toList, .mlsd), ("SIZE".toList, .size),
    ("MLST".toList, .mlst)]

/-- The first word of a command. -/
def verbOf (c : Str) : Option Verb := verbs.lookup (c.takeWhile (· ≠ ' '))

/-- What follows the first word. -/
def argumentOf (c : Str) : Str := (c.dropWhile (· ≠ ' ')).drop 1

/-- The names in a path. -/
def components (path : Str) : List Str := (path.splitOn '/').filter fun x => !x.isEmpty

/-- The two commands that list a directory. -/
inductive Lister where
  | list
  | mlsd

namespace Lister

def verb : Lister → Str
  | .list => listVerb
  | .mlsd => mlsdVerb

def parser : Lister → Bytes → Except PyExc (Str × Bool)
  | .list => parseListLine
  | .mlsd => parseMlsdLine

end Lister

/-- A name in a listing: not empty, and without `/`, `;` and white space. -/
structure EntryName (name : Str) : Prop where
  ne_nil : name ≠ []
  slash : '/' ∉ name
  semicolon : ';' ∉ name
  space : ∀ c ∈ name, c ∉ [' ', '\t', '\n', '\x0b', '\x0c', '\r']

/-- A name, checked by evaluation. -/
theorem entryName_of_decide {name : Str} (h : (!name.isEmpty && name.all fun c =>
      decide (c ∉ ['/', ';', ' ', '\t', '\n', '\x0b', '\x0c', '\r'])) = true) :
    EntryName name := by
  obtain ⟨hne, hplain⟩ := (Bool.and_eq_true _ _).mp h
  have hall : ∀ c ∈ name, c ∉ ['/', ';', ' ', '\t', '\n', '\x0b', '\x0c', '\r'] :=
    List.all_iff_forall_prop.mp hplain
  refine ⟨by simpa using hne, ?_, ?_, fun c hc hmem => hall c hc ?_⟩
  · exact fun hmem => hall '/' hmem (by decide)
  · exact fun hmem => hall ';' hmem (by decide)
  · exact List.mem_cons_of_mem _ (List.mem_cons_of_mem _ hmem)

/-! ## Servers -/

/-- What a reply is for. -/
inductive Note where
  | greeting
  | needPassword
  | loggedIn
  | entered
  | binary
  | passive
  | opening
  | complete
  | created
  | sized
  | refused
  | unknown

/-- The codes of a reply. -/
def Note.Allows : Note → Int → Prop
  | .greeting, c => c = ready
  | .needPassword, c => c = userOk
  | .loggedIn, c => c = loginOk
  | .entered, c => c = actionOk
  | .binary, c => c = ok
  | .passive, c => c = pasv
  | .opening, c => startsTransfer c = true
  | .complete, c => c = transferDone
  | .created, c => c = Ftp.created
  | .sized, c => c = sizeOk
  | .refused, c => c = notFound
  | .unknown, c => c = 502

/-- What a server may choose. The second argument of `say` counts its replies. -/
structure FileServer where
  say : Note → Nat → Reply
  say_code : ∀ (n : Note) k, n.Allows (say n k).code
  address : ∀ k, ∃ a, parsePasv ((say .passive k).lines.getLastD []) = .ok a
  needsPassword : Bool
  supports : FTPFeatures
  feat : Reply
  feat_final : startsTransfer feat.code = false
  /-- The answer to `MLST`: of a file, or of a directory. -/
  facts : List Str → Bool → Reply
  facts_code : ∀ path isDir, (facts path isDir).code = actionOk
  facts_file : ∀ path, (facts path false).lines.any (fun l => decide (typeFile <:+: l)) = true
  /-- No other reply is longer. -/
  limit : Nat
  say_limit : ∀ n k, (say n k).bytes.length ≤ limit
  feat_limit : feat.bytes.length ≤ limit
  /-- The final reply of a download is sent with the first one. -/
  early : List Str → Bool
  line : Lister → List Str → Str → Bool → Bytes
  line_parsed : ∀ (l : Lister) path name isDir, EntryName name →
    l.parser (line l path name isDir) = .ok (name, isDir)
  line_oneLine : ∀ l path name isDir, EntryName name → OneLine (line l path name isDir)
  order : Lister → List Str → List (Str × Bool) → List (Str × Bool)
  order_perm : ∀ l path es, (order l path es).Perm es
  /-- How much of what is left of a file or a listing is sent at a time, less one. -/
  piece : List Str → Nat → Nat
  /-- How much of an upload the network takes at each attempt. -/
  accepts : List Nat
  mark : Nat

/-- What is done with the data connection. -/
inductive Transfer where
  | idle
  | sending (path : List Str) (left : Bytes)
  | receiving (path : List Str)

structure ServerState where
  tree : RemoteTree
  turn : Nat
  transfer : Transfer
  upload : Transport UInt8

namespace FileServer

variable (srv : FileServer)

/-- The entries of a directory, as they are listed. -/
def entries (l : Lister) (t : RemoteTree) (path : List Str) : List (Str × Bool) :=
  srv.order l path (t.entries path)

/-- The text of a listing. -/
def listing (l : Lister) (t : RemoteTree) (path : List Str) : Bytes :=
  Ftp.listing ((srv.entries l t path).map fun e => srv.line l path e.1 e.2)

theorem not_startsTransfer {n : Note} (hn : n ≠ .opening) (k : Nat) :
    startsTransfer (srv.say n k).code = false := by
  have hcode := srv.say_code n k
  cases n with
  | opening => exact absurd rfl hn
  | _ =>
      rw [show (srv.say _ k).code = _ from hcode]
      rfl

theorem facts_final (path : List Str) (isDir : Bool) :
    startsTransfer (srv.facts path isDir).code = false :=
  (congrArg startsTransfer (srv.facts_code path isDir)).trans (by decide)

theorem opening_starts (k : Nat) : startsTransfer (srv.say .opening k).code = true :=
  srv.say_code .opening k

/-! ### Answers -/

/-- The server says something, and goes on in the state `p`. -/
def tell (n : Note) (hn : n ≠ .opening) (p : ServerState) : Answer × ServerState :=
  (.final (srv.say n p.turn) (srv.not_startsTransfer hn p.turn), { p with turn := p.turn + 1 })

/-- The server begins to send `data`. -/
def sendOut (path : List Str) (data : Bytes) (p : ServerState) : Answer × ServerState :=
  (.start (srv.say .opening p.turn) (srv.opening_starts p.turn) (srv.early path),
    { p with turn := p.turn + 1, transfer := .sending path data })

def list (l : Lister) (path : List Str) (p : ServerState) : Answer × ServerState :=
  if p.tree.isDir path then srv.sendOut path (srv.listing l p.tree path) p
  else srv.tell .refused nofun p

/-- The answer to a command. -/
def obey (p : ServerState) : Verb → List Str → Answer × ServerState
  | .user, _ =>
      if srv.needsPassword then srv.tell .needPassword nofun p else srv.tell .loggedIn nofun p
  | .pass, _ => srv.tell .loggedIn nofun p
  | .cwd, _ => srv.tell .entered nofun p
  | .type, _ => srv.tell .binary nofun p
  | .feat, _ => (.final srv.feat srv.feat_final, p)
  | .pasv, _ => srv.tell .passive nofun p
  | .mkd, path =>
      match p.tree.mkdir path with
      | .ok tree => srv.tell .created nofun { p with tree }
      | .error _ => srv.tell .refused nofun p
  | .stor, path =>
      match p.tree.write path [] with
      | .ok _ =>
          (.start (srv.say .opening p.turn) (srv.opening_starts p.turn) false,
            { p with turn := p.turn + 1, transfer := .receiving path })
      | .error _ => srv.tell .refused nofun p
  | .retr, path =>
      match p.tree.read path with
      | .ok data => srv.sendOut path data p
      | .error _ => srv.tell .refused nofun p
  | .list, path => srv.list .list path p
  | .mlsd, path =>
      if srv.supports.supportsMlsd then srv.list .mlsd path p else srv.tell .unknown nofun p
  | .size, path =>
      if srv.supports.supportsSize then
        if p.tree.isFile path then srv.tell .sized nofun p else srv.tell .refused nofun p
      else srv.tell .unknown nofun p
  | .mlst, path =>
      if srv.supports.supportsMlst then
        match p.tree.node path with
        | some n => (.final (srv.facts path (n = .dir)) (srv.facts_final path _), p)
        | none => srv.tell .refused nofun p
      else srv.tell .unknown nofun p

def serve (p : ServerState) (line : Bytes) : Answer × ServerState :=
  match decode line with
  | some c =>
      match verbOf c with
      | some v => srv.obey p v (components (argumentOf c))
      | none => srv.tell .unknown nofun p
  | none => srv.tell .unknown nofun p

/-- The end of a transfer: what was uploaded is stored. -/
def finish (p : ServerState) : Reply × ServerState :=
  (srv.say .complete p.turn,
    match p.transfer, p.upload.stored with
    | .receiving path, some data =>
        { p with
          turn := p.turn + 1, transfer := .idle
          tree := match p.tree.write path data with
            | .ok tree => tree
            | .error _ => p.tree }
    | _, _ => { p with turn := p.turn + 1 })

/-- The next piece of a download. -/
def sendPiece (p : ServerState) : Bytes × ServerState :=
  match p.transfer with
  | .sending path left =>
      (left.take (srv.piece path left.length + 1),
        { p with transfer := .sending path (left.drop (srv.piece path left.length + 1)) })
  | _ => ([], p)

/-- The data connections. -/
def other : Handler ftp ServerState
  | p, .connect .control _ _ => (.ok ⟨p.turn⟩, p)
  | p, .connect .data _ _ => (.ok ⟨p.turn⟩, { p with upload := .opened srv.accepts })
  | p, @FtpOp.sendall _ _ b =>
      (.ok (), { p with upload := { p.upload with delivered := p.upload.delivered ++ b } })
  | p, @FtpOp.write _ _ b => ((), { p with upload := p.upload.write b })
  | p, @FtpOp.drain _ _ =>
      (if (p.upload.drain srv.mark).1 then .ok () else .error (.timeout ""),
        { p with upload := (p.upload.drain srv.mark).2 })
  | p, .wait _ => (.ok (), p)
  | p, .recv _ => (.ok (srv.sendPiece p).1, (srv.sendPiece p).2)
  | p, .shutdown _ => (.ok (), { p with upload := p.upload.shutdown })
  | p, .close _ => (.ok (), p)
  | p, @FtpOp.closeWriter .data _ => ((), { p with upload := p.upload.close })
  | p, @FtpOp.closeWriter .control _ => ((), p)
  | p, .waitClosed _ => (.ok (), p)
  | p, .asked _ _ => ((), p)
  | p, .answered _ _ _ => ((), p)

/-! ### The peer -/

theorem obey_starts {p : ServerState} {v : Verb} {path : List Str} {r : Reply} {h early}
    (hstart : (srv.obey p v path).1 = .start r h early) :
    v = .stor ∨ v = .retr ∨ v = .list ∨ v = .mlsd := by
  cases v with
  | stor => simp
  | retr => simp
  | list => simp
  | mlsd => simp
  | _ =>
      unfold obey tell at hstart
      grind

theorem serve_starts {p : ServerState} {line : Bytes} {r : Reply} {h early}
    (hstart : (srv.serve p line).1 = .start r h early) : isTransfer line = true := by
  unfold serve at hstart
  split at hstart
  · next c hc =>
      split at hstart
      · next v hv =>
          have hverb : (c.takeWhile (· ≠ ' '), v) ∈ verbs := by
            obtain ⟨l₁, l₂, hverbs, -⟩ := List.lookup_eq_some_iff.mp hv
            rw [hverbs]
            exact List.mem_append_right l₁ List.mem_cons_self
          have hline : line = encode (c.takeWhile (· ≠ ' ')) ++ encode (c.dropWhile (· ≠ ' ')) := by
            rw [← encode_append, List.takeWhile_append_dropWhile, encode_of_decode hc]
          rw [hline]
          generalize c.takeWhile (· ≠ ' ') = verb at hverb ⊢
          -- the transfers are four verbs of four letters
          simp only [verbs, List.mem_cons, Prod.mk.injEq, List.not_mem_nil, or_false] at hverb
          rcases srv.obey_starts hstart with rfl | rfl | rfl | rfl <;> simp at hverb <;>
            subst hverb <;> rfl
      · cases hstart
  · cases hstart

def peer : Peer ServerState where
  greet p := (srv.say .greeting p.turn, { p with turn := p.turn + 1 })
  serve := srv.serve
  finish := srv.finish
  other := srv.other
  starts _ _ _ _ _ hstart := srv.serve_starts hstart

end FileServer

end GufoBlob.Ftp
