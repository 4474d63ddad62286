import GufoBlob.Base
import GufoBlob.Common.Ftp

/-!
# The FTP backend

`FTPBlob` of `sync/ftp.py` and `aio/ftp.py`. Both classes run the same protocol; what they do
differently with a socket (how octets are sent and received, and how a connection is closed) is a
`Dialect`, and `close` is written out for each.

The methods of the source call each other through the property `connection`, which logs in, and
`_login` calls them again. Here every method takes the property as its argument `conn`, and
`connection` passes itself, one level less deep, to `login`. Every loop takes its fuel as an
argument.

Two calls, `asked` and `answered`, do nothing: they mark where `_cmd` is about to send its command
and where it returns the reply.
-/

namespace GufoBlob

open Text Interaction

namespace Ftp

/-- The two kinds of connection. -/
inductive Chan where
  | control
  | data
  deriving DecidableEq

/-- A socket, or the reader and the writer of one, by its number. -/
structure Sock (ch : Chan) where
  id : Nat
  deriving DecidableEq

inductive FtpOp where
  | connect (ch : Chan) (host : Str) (port : Nat)
  /-- `sock.sendall(b)`. -/
  | sendall {ch : Chan} (s : Sock ch) (b : Bytes)
  /-- `writer.write(b)`. -/
  | write {ch : Chan} (s : Sock ch) (b : Bytes)
  | drain {ch : Chan} (s : Sock ch)
  /-- The first half of `reader.read(n)`: the task registers as the one that waits for octets. -/
  | wait {ch : Chan} (s : Sock ch)
  /-- `sock.recv(n)`, or the second half of `reader.read(n)`. -/
  | recv {ch : Chan} (s : Sock ch)
  | shutdown {ch : Chan} (s : Sock ch)
  /-- `sock.close()`. -/
  | close {ch : Chan} (s : Sock ch)
  /-- `writer.close()`. -/
  | closeWriter {ch : Chan} (s : Sock ch)
  | waitClosed {ch : Chan} (s : Sock ch)
  | asked (s : Sock .control) (cmd : Str)
  | answered (cmd : Str) (code : Int) (lines : List Bytes)

/-- The network, and the two marks. No octets are the end of the file. -/
abbrev ftp : Interface where
  Op := FtpOp
  Ans
    | .connect ch _ _ => Except IOErr (Sock ch)
    | .sendall _ _ => Except IOErr Unit
    | .write _ _ => Unit
    | .drain _ => Except IOErr Unit
    | .wait _ => Except IOErr Unit
    | .recv _ => Except IOErr Bytes
    | .shutdown _ => Except IOErr Unit
    | .close _ => Except IOErr Unit
    | .closeWriter _ => Unit
    | .waitClosed _ => Except IOErr Unit
    | .asked _ _ => Unit
    | .answered _ _ _ => Unit

end Ftp

open Ftp

/-- The fields of an `FTPBlob` that never change; the features are those the caller set. The
timeouts, which only the libraries read, are not among them (`Ftp.Timeouts`). -/
structure FTPBlob where
  host : Str
  port : Nat
  user : Str
  password : Str
  root : Str
  retries : Int
  pendingFeatures : Option FTPFeatures

/-- The fields that do: `_sock` or `_conn`, `_response_buffer`, and the features once known. -/
structure FTPBlob.State where
  conn : Option (Sock .control)
  responseBuffer : Bytes
  features : Option FTPFeatures
  deriving DecidableEq

abbrev FtpProg := Program ftp FTPBlob.State PyExc

abbrev FtpGen := Gen ftp FTPBlob.State PyExc Str

namespace FTPBlob

/-- `FTPBlob(host, port, user, password, root, retries=retries, features=features)`. -/
def init (host : Str) (port : Nat) (user password root : Str) (retries : Int)
    (features : Option FTPFeatures) : FTPBlob :=
  { host, port, user, password, root := strip isSlash root, retries, pendingFeatures := features }

/-- The state of a new object. -/
def start (b : FTPBlob) : State := ⟨none, [], b.pendingFeatures⟩

/-- An `OSError`, a `TimeoutError` or a `RuntimeError` of a call. -/
def raiseOnError {α : Type} : Except IOErr α → FtpProg α
  | .ok a => .pure a
  | .error e => .raise (.ioError e)

/-- `with suppress(OSError): p`. -/
def suppressOSError (p : FtpProg Unit) : FtpProg Unit :=
  p.tryCatch fun
    | .ioError (.runtime e) => .raise (.ioError (.runtime e))
    | .ioError _ => .pure ()
    | e => .raise e

/-- `with suppress(BlobError): p`. -/
def suppressBlobError (p : FtpProg Unit) : FtpProg Unit :=
  p.tryCatch fun
    | .blobError _ => .pure ()
    | e => .raise e

def setConn (c : Option (Sock .control)) : FtpProg Unit :=
  Program.modify fun st => { st with conn := c }

def setBuffer (b : Bytes) : FtpProg Unit :=
  Program.modify fun st => { st with responseBuffer := b }

/-- `self._response_buffer = self._response_buffer + data`. -/
def appendBuffer (data : Bytes) : FtpProg Unit :=
  Program.modify fun st => { st with responseBuffer := st.responseBuffer ++ data }

def setFeatures (f : FTPFeatures) : FtpProg Unit :=
  Program.modify fun st => { st with features := some f }

def connect (ch : Chan) (host : Str) (port : Nat) : FtpProg (Except IOErr (Sock ch)) :=
  .call (.connect ch host port) .pure

def asked (s : Sock .control) (cmd : Str) : FtpProg Unit := .call (.asked s cmd) .pure

def answered (cmd : Str) (code : Int) (lines : List Bytes) : FtpProg Unit :=
  .call (.answered cmd code lines) .pure

end FTPBlob

/-- What one of the two classes does with a socket. -/
structure Ftp.Dialect where
  send : {ch : Chan} → Sock ch → Bytes → FtpProg Unit
  recv : {ch : Chan} → Sock ch → FtpProg Bytes
  /-- The message when sending a command fails, if `_cmd` catches the exception. -/
  sendError : IOErr → Option String
  /-- Closing the control connection when the login failed. -/
  dropConn : Sock .control → FtpProg Unit
  /-- Closing a data connection. -/
  closeData : Sock .data → FtpProg Unit

namespace FTPBlob

/-! ## Connecting -/

section Connect

variable (b : FTPBlob)

/-- The iterations of `_connect` (`_tcp_connect`) that are left. -/
def attempts : Nat → String → FtpProg (Sock .control)
  | 0, lastError =>
      .raise (.blobError
        ("failed to connect after " ++ toString b.retries ++ ": " ++ lastError))
  | n + 1, _ => do
      match ← connect .control b.host b.port with
      | .ok s => return s
      | .error (.timeout e) => attempts n ("FTP connection timeout: " ++ e)
      | .error (.refused e) => attempts n ("FTP connection refused: " ++ e)
      | .error (.os e) => attempts n ("FTP OS error during connect: " ++ e)
      | .error (.runtime e) => .raise (.ioError (.runtime e))

/-- `_connect`, `_tcp_connect`. -/
def tcpConnect : FtpProg (Sock .control) := b.attempts b.retries.toNat ""

end Connect

section Protocol

variable (d : Dialect) (fuel : Nat) (conn : FtpProg (Option (Sock .control)))

/-! ## Commands and replies -/

/-- The `except` clauses of `_read_line`. -/
def readError : PyExc → FtpProg Bytes
  | .ioError (.timeout _) => .raise (.blobError "timed out")
  | .ioError (.refused e) => .raise (.blobError ("OS error: " ++ e))
  | .ioError (.os e) => .raise (.blobError ("OS error: " ++ e))
  | e => .raise e

/-- The `try` of `_read_line`. -/
def receive : FtpProg Bytes :=
  (do match ← conn with
      | some s => d.recv s
      | none => .raise .attributeError).tryCatch readError

/-- The loop of `_read_line`. -/
def readLineLoop : Nat → FtpProg Bytes
  | 0 => .spin
  | n + 1 => do
      let st ← Program.read
      match cutLine st.responseBuffer with
      | some (line, rest) => do
          setBuffer rest
          return line
      | none => do
          let data ← receive d conn
          if data.isEmpty then
            .raise (.blobError "server closed connection")
          else do
            appendBuffer data
            readLineLoop n

/-- `_read_line`. -/
def readLine : FtpProg Bytes := readLineLoop d conn fuel

def minFtpResponse : Nat := 4

/-- The line ends a multi-line reply that began with `first`. -/
def endsReply (first line : Bytes) : Bool :=
  minFtpResponse ≤ line.length && line.take 3 = first.take 3 && (line.drop 3).take 1 = [32]

/-- The loop of `_read_response` over the further lines of a multi-line reply. -/
def moreLines (first : Bytes) : Nat → List Bytes → FtpProg (List Bytes)
  | 0, _ => .spin
  | n + 1, lines => do
      let line ← readLine d fuel conn
      if endsReply first line then
        return lines ++ [line]
      else
        moreLines first n (lines ++ [line])

/-- `_read_response`. -/
def readResponse : FtpProg (Int × List Bytes) := do
  let first ← readLine d fuel conn
  if first.length < minFtpResponse then
    .raise (.blobError "response too short")
  else do
    let code ← Program.ofExcept (bytesToIntRange (first.take 3) 0 999)
    if (first.drop 3).take 1 = [45] then do
      let lines ← moreLines d fuel conn first fuel [first]
      return (code, lines)
    else
      return (code, [first])

/-- The `except` clauses of `_cmd`. -/
def sendFailed : PyExc → FtpProg Unit
  | .ioError e =>
      match d.sendError e with
      | some msg => .raise (.blobError msg)
      | none => .raise (.ioError e)
  | e => .raise e

/-- The `try` of `_cmd`. -/
def sendCmd (cmd : Str) : FtpProg Unit :=
  (do match ← conn with
      | some s => do
          asked s cmd
          d.send s (encode cmd ++ crlf)
      | none => .raise .attributeError).tryCatch (sendFailed d)

/-- `_cmd`. -/
def cmd (c : Str) : FtpProg (Int × List Bytes) := do
  sendCmd d conn c
  let r ← readResponse d fuel conn
  answered c r.1 r.2
  return r

/-- `_expect`. -/
def expect (code : Int) : FtpProg Unit := do
  let (got, _) ← readResponse d fuel conn
  if got ≠ code then
    .raise (.blobError ("expected " ++ toString code ++ ", got " ++ toString got))
  else
    return ()

/-- A command whose reply must have the code `want`. -/
def cmdExpect (c : Str) (want : Int) (msg : String) : FtpProg Unit := do
  let (code, _) ← cmd d fuel conn c
  if code ≠ want then .raise (.blobError (msg ++ toString code)) else return ()

/-! ## Logging in -/

section Login

variable (b : FTPBlob)

def userCmd : Str := "USER ".toList ++ b.user

def passCmd : Str := "PASS ".toList ++ b.password

def cwdCmd : Str := "CWD /".toList ++ b.root

def typeCmd : Str := "TYPE I".toList

/-- The code that decides whether the user is logged in. -/
def authenticate : FtpProg Int := do
  let (code, _) ← cmd d fuel conn b.userCmd
  if code = userOk then do
    let (code, _) ← cmd d fuel conn b.passCmd
    return code
  else
    return code

/-- `CWD` to the root directory, if one is set. -/
def enterRoot : FtpProg Unit :=
  if b.root.isEmpty then return ()
  else cmdExpect d fuel conn b.cwdCmd actionOk ("CWD /" ++ fmt b.root ++ " failed: ")

/-- `_login`. -/
def login : FtpProg Unit := do
  expect d fuel conn ready
  let code ← authenticate d fuel conn b
  if code ≠ loginOk then
    .raise (.blobError ("LOGIN failed: " ++ toString code))
  else do
    enterRoot d fuel conn b
    cmdExpect d fuel conn typeCmd ok "Failed to set binary transfer mode: "

/-- Closing what `_sock` (`_conn`) holds; `None` has no `close`. -/
def dropHeld : FtpProg Unit := do
  let st ← Program.read
  match st.conn with
  | some s => d.dropConn s
  | none => .raise .attributeError

/-- The `except BlobError` of `connection`. -/
def loginFailed : PyExc → FtpProg Unit
  | .blobError msg => do
      dropHeld d
      setConn none
      .raise (.blobError msg)
  | e => .raise e

/-- `if not self._sock`, and its body. -/
def connectAndLogin (held : Option (Sock .control)) : FtpProg Unit :=
  match held with
  | some _ => return ()
  | none => do
      let s ← b.tcpConnect
      setConn (some s)
      (login d fuel conn b).tryCatch (loginFailed d)

end Login

/-! ## Data transfers -/

def pasvCmdText : Str := "PASV".toList

/-- The data connection failed to open. -/
def dataConnectFailed : IOErr → FtpProg (Sock .data)
  | .timeout e => .raise (.blobError ("FTP data connection failed: " ++ e))
  | .refused e => .raise (.blobError ("FTP data connection failed: " ++ e))
  | .os e => .raise (.blobError ("FTP data connection failed: " ++ e))
  | .runtime e => .raise (.ioError (.runtime e))

/-- `_get_passive_socket`, `_get_passive_connection`. -/
def getPassive : FtpProg (Sock .data) := do
  let (code, lines) ← cmd d fuel conn pasvCmdText
  if code ≠ pasv then
    .raise (.blobError ("PASV failed: " ++ toString code))
  else do
    let (host, port) ← Program.ofExcept (parsePasv (lines.getLastD []))
    match ← connect .data host port with
    | .ok s => return s
    | .error e => dataConnectFailed e

/-- The `except` clauses around the use of a data connection. -/
def dataFailed {α : Type} : PyExc → FtpProg α
  | .ioError (.timeout _) => do
      suppressBlobError (expect d fuel conn transferDone)
      .raise (.blobError "timed out")
  | .ioError (.refused e) => do
      suppressBlobError (expect d fuel conn transferDone)
      .raise (.blobError ("OS error: " ++ e))
  | .ioError (.os e) => do
      suppressBlobError (expect d fuel conn transferDone)
      .raise (.blobError ("OS error: " ++ e))
  | e => .raise e

/-- The code of a reply that starts a transfer. -/
def startsTransfer (code : Int) : Bool := code = transferAlreadyOpen || code = transferReady

/-- `while True` of `_pasv_cmd`: what was received until the end of the file. -/
def recvAll (sock : Sock .data) : Nat → List Bytes → FtpProg (List Bytes)
  | 0, _ => .spin
  | n + 1, chunks => do
      let data ← (d.recv sock).tryCatch (dataFailed d fuel conn)
      if data.isEmpty then
        return chunks
      else
        recvAll sock n (chunks ++ [data])

/-- `cmd.split(" ", 1)[-1]`. -/
def afterSpace (c : Str) : Str :=
  match c.dropWhile (· ≠ ' ') with
  | [] => c
  | _ :: rest => rest

/-- The body of the `try` of `_pasv_cmd`. -/
def retrieve (sock : Sock .data) (c : Str) : FtpProg (List Bytes) := do
  let (code, _) ← cmd d fuel conn c
  if code = notFound then
    .raise (.keyError (afterSpace c))
  else if !startsTransfer code then
    .raise (.blobError ("unexpected response: " ++ toString code))
  else do
    let chunks ← recvAll d fuel conn sock fuel []
    expect d fuel conn transferDone
    return chunks

/-- `_pasv_cmd`. -/
def pasvCmd (c : Str) : FtpProg Bytes := do
  let sock ← getPassive d fuel conn
  let chunks ← (retrieve d fuel conn sock c).tryFinally (d.closeData sock)
  return chunks.flatten

/-! ## Operations -/

def retrCmd (key : Str) : Str := "RETR ".toList ++ key

def storCmd (key : Str) : Str := "STOR ".toList ++ key

def mkdCmd (dir : Str) : Str := "MKD ".toList ++ dir

def deleCmd (key : Str) : Str := "DELE ".toList ++ key

def sizeCmd (key : Str) : Str := "SIZE ".toList ++ key

def mlstCmd (key : Str) : Str := "MLST ".toList ++ key

def featCmd : Str := "FEAT".toList

def quitCmd : Str := "QUIT".toList

def get (key : Str) : FtpProg Bytes := pasvCmd d fuel conn (retrCmd key)

/-- `_ensure_parent_dirs`. -/
def ensureParentDirs (key : Str) : FtpProg Unit :=
  Program.forEach (iterParentDirs key) fun dir => do
    let (code, _) ← cmd d fuel conn (mkdCmd dir)
    if code ≠ created && code ≠ notFound then
      .raise (.blobError ("cannot create " ++ fmt dir ++ ": " ++ toString code))
    else
      return ()

/-- The body of the `try` of `put`. -/
def store (sock : Sock .data) (key : Str) (data : Bytes) : FtpProg Unit := do
  let (code, _) ← cmd d fuel conn (storCmd key)
  if !startsTransfer code then
    .raise (.blobError ("unexpected response: " ++ toString code))
  else
    (d.send sock data).tryCatch (dataFailed d fuel conn)

def put (key : Str) (data : Bytes) : FtpProg Unit := do
  ensureParentDirs d fuel conn key
  let sock ← getPassive d fuel conn
  (store d fuel conn sock key data).tryFinally (d.closeData sock)
  expect d fuel conn transferDone

def delete (key : Str) : FtpProg Unit := do
  let (code, _) ← cmd d fuel conn (deleCmd key)
  if code = notFound then
    .raise (.keyError key)
  else if code ≠ actionOk then
    .raise (.blobError ("DELE failed: " ++ toString code))
  else
    return ()

/-- `features`: what the caller set, or what the server answered to `FEAT` the first time. -/
def features : FtpProg FTPFeatures := do
  let st ← Program.read
  match st.features with
  | some f => return f
  | none => do
      let (code, lines) ← cmd d fuel conn featCmd
      let f ← Program.ofExcept (if code = status then fromFeat lines else .ok {})
      setFeatures f
      return f

/-! ## Listings -/

/-- A command with its path, if there is one. -/
def listCmd (verb path : Str) : Str := if path.isEmpty then verb else verb ++ ' ' :: path

/-- `full_path` of `list_dir`. -/
def fullPath (path name : Str) : Str := if path.isEmpty then name else path ++ '/' :: name

/-- The `try` of `list_dir`; `none` for a directory that is not there. -/
def listData (verb path : Str) : FtpProg (Option Bytes) :=
  ((pasvCmd d fuel conn (listCmd verb path)).bind fun data => .pure (some data)).tryCatch fun
    | .keyError _ => .pure none
    | e => .raise e

/-- `list_dir`; the recursion is on `rest`. -/
def listDir (verb : Str) (parser : Bytes → Except PyExc (Str × Bool)) :
    List Str → Str → FtpGen Unit
  | rest, path => do
      let path := rstrip isSlash path
      match ← (listData d fuel conn verb path).embed with
      | none => return ()
      | some data =>
          Program.forEach (splitlines data) fun line => do
            let (name, isDir) ← Program.ofExcept (parser line)
            let fullPath := fullPath path name
            match rest with
            | [] => if isDir then return () else Program.yield fullPath
            | part :: rest =>
                if name = part then
                  if isDir then listDir verb parser rest fullPath else Program.yield fullPath
                else
                  return ()

/-- `parts` of `_scan`. -/
def parts (pre : Str) : List Str := (pre.splitOn '/').filter fun p => !p.isEmpty

def mlsdVerb : Str := "MLSD".toList

def listVerb : Str := "LIST".toList

def scan (pre : Str) : FtpGen Unit := do
  let f ← (features d fuel conn).embed
  if f.supportsMlsd then
    listDir d fuel conn mlsdVerb parseMlsdLine (parts pre) []
  else
    listDir d fuel conn listVerb parseListLine (parts pre) []

/-! ## Looking a key up -/

/-- `b"type=file"`. -/
def typeFile : Bytes := encode "type=file".toList

/-- The answer of `SIZE`, if the server knows it and it decides. -/
def sizeAnswer (f : FTPFeatures) (key : Str) : FtpProg (Option Bool) :=
  if f.supportsSize then do
    let (code, _) ← cmd d fuel conn (sizeCmd key)
    if code = sizeOk then return some true
    else if code = notFound then return some false
    else return none
  else
    return none

/-- The answer of `MLST`, if the server knows it and it decides. -/
def mlstAnswer (f : FTPFeatures) (key : Str) : FtpProg (Option Bool) :=
  if f.supportsMlst then do
    let (code, lines) ← cmd d fuel conn (mlstCmd key)
    if code = actionOk then return some (lines.any fun line => decide (typeFile <:+: line))
    else if code = notFound then return some false
    else return none
  else
    return none

def exists' (key : Str) : FtpProg Bool := do
  let f ← features d fuel conn
  match ← sizeAnswer d fuel conn f key with
  | some found => return found
  | none =>
      match ← mlstAnswer d fuel conn f key with
      | some found => return found
      | none => (scan d fuel conn key).anyYield (· = key)

end Protocol

/-- The property `connection`. -/
def connection (d : Dialect) (b : FTPBlob) (fuel : Nat) : Nat → FtpProg (Option (Sock .control))
  | 0 => .spin
  | depth + 1 => do
      let st ← Program.read
      connectAndLogin d fuel (connection d b fuel depth) b st.conn
      let st ← Program.read
      return st.conn

/-- The methods that the two classes share, and their `close`. -/
def backend (d : Dialect) (fuel : Nat) (conn : FtpProg (Option (Sock .control)))
    (close : FtpProg Unit) : BlobBase ftp State where
  open' := conn.bind fun _ => .pure ()
  close := close
  put := put d fuel conn
  get := get d fuel conn
  delete := delete d fuel conn
  exists' := exists' d fuel conn
  scan := scan d fuel conn

end FTPBlob

namespace Sync.FTPBlob

open GufoBlob.FTPBlob

/-- `sock.close()`, with its `OSError` suppressed. -/
def closeSock {ch : Chan} (s : Sock ch) : FtpProg Unit :=
  suppressOSError (.call (.close s) raiseOnError)

/-- Blocking sockets. -/
def dialect : Dialect where
  send s b := .call (.sendall s b) raiseOnError
  recv s := .call (.recv s) raiseOnError
  sendError
    | .timeout e => some ("FTP send error: " ++ e)
    | .refused e => some ("FTP send error: " ++ e)
    | .os e => some ("FTP send error: " ++ e)
    | .runtime _ => none
  dropConn s := closeSock s
  closeData s := do
    suppressOSError (.call (.shutdown s) raiseOnError)
    closeSock s

/-- The `try` of `close`. -/
def closeHeld (fuel : Nat) (conn : FtpProg (Option (Sock .control))) : FtpProg Unit := do
  let st ← Program.read
  match st.conn with
  | none => return ()
  | some _ => do
      suppressBlobError ((cmd dialect fuel conn quitCmd).bind fun _ => .pure ())
      let st ← Program.read
      match st.conn with
      | some s => closeSock s
      | none => .raise .attributeError

/-- `close`. -/
def close (fuel : Nat) (conn : FtpProg (Option (Sock .control))) : FtpProg Unit :=
  (closeHeld fuel conn).tryFinally (setConn none)

end Sync.FTPBlob

namespace Aio.FTPBlob

open GufoBlob.FTPBlob

/-- `_Conn.close`. -/
def closeConn {ch : Chan} (s : Sock ch) : FtpProg Unit := do
  .call (.closeWriter s) .pure
  .call (.waitClosed s) raiseOnError

/-- `asyncio` streams. -/
def dialect : Dialect where
  send s b := do
    .call (.write s b) .pure
    .call (.drain s) raiseOnError
  recv s := do
    .call (.wait s) raiseOnError
    .call (.recv s) raiseOnError
  sendError
    | .timeout _ => some "timed out during send"
    | .refused e => some ("FTP send error: " ++ e)
    | .os e => some ("FTP send error: " ++ e)
    | .runtime _ => none
  dropConn s := closeConn s
  closeData s := do
    suppressOSError (.call (.shutdown s) raiseOnError)
    suppressOSError (closeConn s)

/-- `close`. -/
def close (fuel : Nat) (conn : FtpProg (Option (Sock .control))) : FtpProg Unit := do
  let st ← Program.read
  setConn none
  (suppressBlobError ((cmd dialect fuel conn quitCmd).bind fun _ => .pure ())).tryFinally
    (match st.conn with
    | some s => closeConn s
    | none => return ())

end Aio.FTPBlob

/-- The two classes. -/
inductive Ftp.Flavour where
  | sync
  | aio

namespace Ftp.Flavour

def dialect : Flavour → Dialect
  | .sync => Sync.FTPBlob.dialect
  | .aio => Aio.FTPBlob.dialect

/-- `self.connection`. -/
def connection (fl : Flavour) (b : FTPBlob) (fuel : Nat) : FtpProg (Option (Sock .control)) :=
  FTPBlob.connection fl.dialect b fuel fuel

def close : Flavour → Nat → FtpProg (Option (Sock .control)) → FtpProg Unit
  | .sync => Sync.FTPBlob.close
  | .aio => Aio.FTPBlob.close

/-- `gufo.blob.sync.ftp.FTPBlob` and `gufo.blob.aio.ftp.FTPBlob`. -/
def backend (fl : Flavour) (b : FTPBlob) (fuel : Nat) : BlobBase ftp FTPBlob.State :=
  FTPBlob.backend fl.dialect fuel (fl.connection b fuel) (fl.close fuel (fl.connection b fuel))

end Ftp.Flavour

end GufoBlob
