import GufoBlob.Ftp.Errors
import GufoBlob.Interaction.Unless

/-!
# Sessions with a server

A server that answers: it greets every connection, and it answers every line with one final reply,
or with a reply that starts a transfer and, later, the final reply of that transfer. The codes and
the texts are its own, and so is what happens on the data connections.

The network is apart from the server. It says at every `recv` on the control connection how many of
the octets that the server has sent are there, or that none is there in time.

A `Session` keeps, beside these, what an observer of the two marks of `_cmd` knows: whether every
reply that `_cmd` returned is the one that the server gave to the command.
-/

namespace GufoBlob.Ftp

open Text Interaction FTPBlob

/-! ## Servers -/

/-- The lines that follow the first line of a reply. -/
def Completes (first : Bytes) (more : List Bytes) : Prop :=
  if (first.drop 3).take 1 = [45] then
    ∃ between last, more = between ++ [last] ∧ (∀ l ∈ between, endsReply first l = false) ∧
      endsReply first last = true
  else more = []

/-- A well-formed reply, of one line or of several. -/
structure Reply where
  code : Int
  first : Bytes
  more : List Bytes
  noBreak : ∀ l ∈ first :: more, ¬ HasCrlf l
  length : minFtpResponse ≤ first.length
  hcode : bytesToIntRange (first.take 3) 0 999 = .ok code
  completes : Completes first more

namespace Reply

def lines (r : Reply) : List Bytes := r.first :: r.more

/-- The reply as it is sent. -/
def bytes (r : Reply) : Bytes := r.lines.flatMap frame

end Reply

/-- The answer to a line: the final reply, or the reply that starts a transfer. `early` says that
the final reply is then sent at once, and not at the end of the data connection. -/
inductive Answer where
  | final (r : Reply) (h : startsTransfer r.code = false)
  | start (r : Reply) (h : startsTransfer r.code = true) (early : Bool)

/-- The line is one of the commands that may start a transfer. -/
def isTransfer (line : Bytes) : Bool :=
  ["RETR", "STOR", "LIST", "MLSD"].any fun verb => line.take 4 = encode verb.toList

/-- A server with the state `S`. -/
structure Peer (S : Type) where
  greet : S → Reply × S
  serve : S → Bytes → Answer × S
  /-- The final reply of a transfer. -/
  finish : S → Reply × S
  /-- What the calls answer that open a connection, or that are made on a data connection. -/
  other : Handler ftp S
  starts : ∀ p line r h early, (serve p line).1 = .start r h early → isTransfer line = true

variable {S N : Type}

/-- What the server does with a line: the reply, what it sends after the reply, and whether the
final reply of a transfer is still to come. -/
structure Reception (S : Type) where
  reply : Reply
  after : Bytes
  pending : Bool
  peer : S

def Peer.receive (P : Peer S) (p : S) (line : Bytes) : Reception S :=
  match P.serve p line with
  | (.final r _, p) => ⟨r, [], false, p⟩
  | (.start r _ true, p) => ⟨r, (P.finish p).1.bytes, false, (P.finish p).2⟩
  | (.start r _ false, p) => ⟨r, [], true, p⟩

/-! ## The environment -/

/-- A line that was served: the reply to it, and how many octets the server sent after that. -/
structure Served where
  line : Bytes
  code : Int
  lines : List Bytes
  after : Nat
  deriving DecidableEq

/-- What the server and the observer know. -/
@[ext]
structure Book (S : Type) where
  peer : S
  /-- The final reply of a transfer follows when the data connection has ended. -/
  pending : Bool
  /-- The last connection has been opened and not been logged in. -/
  loggingIn : Bool
  last : Option Served
  /-- Every reply that `_cmd` returned is the one to its command. -/
  matched : Bool
  /-- Whenever a command was sent, the replies to the earlier ones had been delivered. -/
  clear : Bool

/-- A book, and the control connection that was opened last. -/
structure Session (S N : Type) extends Book S where
  net : N
  /-- What the server has sent and the network has not delivered. -/
  wire : Bytes
  delivered : Bytes
  /-- A receive has timed out, other than in a login and after a whole line. -/
  late : Bool

/-- Nothing comes after the last line. -/
def endsLine (b : Bytes) : Bool := (splitCrlf b).getLast? = some []

namespace Session

/-- Before the first connection. -/
def start (p : S) (n : N) : Session S N :=
  { peer := p, pending := false, loggingIn := false, last := none, matched := true, clear := true,
    net := n, wire := [], delivered := [], late := false }

/-- A connection is opened. -/
def opened (t : Session S N) (P : Peer S) (p : S) : Session S N :=
  { t with
    peer := (P.greet p).2, pending := false, loggingIn := true, last := none
    wire := (P.greet p).1.bytes, delivered := [] }

/-- The connection is closed: what is on the wire gets lost. -/
def hungUp (t : Session S N) (p : S) : Session S N :=
  { t with peer := p, pending := false, wire := [], delivered := [] }

/-- The server answers a line. -/
def serve (P : Peer S) (t : Session S N) (line : Bytes) : Session S N :=
  { t with
    peer := (P.receive t.peer line).peer
    pending := t.pending || (P.receive t.peer line).pending
    last := some
      ⟨line, (P.receive t.peer line).reply.code, (P.receive t.peer line).reply.lines,
        (P.receive t.peer line).after.length⟩
    wire := t.wire ++ ((P.receive t.peer line).reply.bytes ++ (P.receive t.peer line).after) }

/-- The server answers the lines that were sent to it. -/
def sent (t : Session S N) (P : Peer S) (b : Bytes) : Session S N :=
  (splitCrlf b).dropLast.foldl (serve P) t

/-- A receive on the control connection. -/
def deliver (t : Session S N) (net : N → Option Nat × N) : Except IOErr Bytes × Session S N :=
  match (net t.net).1, t.wire with
  | some n, x :: wire =>
      (.ok (x :: wire.take n),
        { t with
          net := (net t.net).2, wire := wire.drop n
          delivered := t.delivered ++ x :: wire.take n })
  | _, _ =>
      (.error (.timeout "timed out"),
        { t with
          net := (net t.net).2, late := t.late || !(t.loggingIn && endsLine t.delivered) })

/-- The end of the data connection, which a pending reply waits for. -/
def finished (t : Session S N) (P : Peer S) : Session S N :=
  if t.pending then
    { t with
      peer := (P.finish t.peer).2, pending := false
      wire := t.wire ++ (P.finish t.peer).1.bytes }
  else t

/-- `_cmd` is about to send a command. -/
def asked (t : Session S N) : Session S N :=
  { t with clear := t.clear && t.wire.isEmpty && !t.pending }

/-- The reply is the one to the command, and all of it was delivered. -/
def answers (t : Session S N) (cmd : Str) (code : Int) (lines : List Bytes) : Bool :=
  match t.last with
  | some x => x.line = encode cmd && x.code = code && x.lines = lines && t.wire.length ≤ x.after
  | none => false

/-- `_cmd` returns a reply. -/
def answered (t : Session S N) (cmd : Str) (code : Int) (lines : List Bytes) : Session S N :=
  { t with
    matched := t.matched && t.answers cmd code lines
    loggingIn := t.loggingIn && !(cmd = typeCmd && code = ok) }

end Session

/-- A timeout is the one exception that does not end the connection. -/
def isTimeout : IOErr → Bool
  | .timeout _ => true
  | _ => false

/-- After the call, the data connection has ended. -/
def endsData : (o : FtpOp) → ftp.Ans o → Bool
  | .recv _, .ok b => b.isEmpty
  | .recv _, .error e => !isTimeout e
  | .sendall _ _, .error e => !isTimeout e
  | .drain _, .error e => !isTimeout e
  | .wait _, .error e => !isTimeout e
  | .shutdown _, _ => true
  | .close _, _ => true
  | .closeWriter _, _ => true
  | _, _ => false

/-- A call on a data connection. -/
def Session.transferred (t : Session S N) (P : Peer S) (o : FtpOp) : Session S N :=
  let t' := { t with peer := (P.other t.peer o).2 }
  if endsData o (P.other t.peer o).1 then t'.finished P else t'

/-- The server `P` behind the network `net`. -/
def session (P : Peer S) (net : N → Option Nat × N) : Handler ftp (Session S N)
  | t, .connect .control host port =>
      ((P.other t.peer (.connect .control host port)).1,
        match (P.other t.peer (.connect .control host port)).1 with
        | .ok _ => t.opened P (P.other t.peer (.connect .control host port)).2
        | .error _ => { t with peer := (P.other t.peer (.connect .control host port)).2 })
  | t, @FtpOp.sendall .control _ b => (.ok (), t.sent P b)
  | t, @FtpOp.write .control _ b => ((), t.sent P b)
  | t, @FtpOp.drain .control _ => (.ok (), t)
  | t, @FtpOp.wait .control _ => (.ok (), t)
  | t, @FtpOp.recv .control _ => t.deliver net
  | t, @FtpOp.close .control s =>
      ((P.other t.peer (.close s)).1, t.hungUp (P.other t.peer (.close s)).2)
  | t, @FtpOp.closeWriter .control s => ((), t.hungUp (P.other t.peer (.closeWriter s)).2)
  | t, .asked _ _ => ((), t.asked)
  | t, .answered cmd code lines => ((), t.answered cmd code lines)
  | t, o => ((P.other t.peer o).1, t.transferred P o)

end GufoBlob.Ftp
