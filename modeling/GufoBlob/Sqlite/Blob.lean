import GufoBlob.Base
import GufoBlob.Utils

/-!
# The SQLite backend

`SQLiteBlob` of `sync/sqlite.py`. The object holds one mutable field, `_conn`, which is the state of
the programs below; a read of it is one step and so is an assignment. The lock and the driver are
the environment: `sqlite3.connect` makes a connection, `execute` runs one statement on it. Every
`SELECT` here has a single column, so a row is its value.

`aio/sqlite.py` runs the same object on threads (`AsyncWrapper`), so its callers are callers of this
one.
-/

namespace GufoBlob

open Text Interaction

/-- A value in a row or a parameter. -/
inductive SqlValue where
  | text (s : Str)
  | blob (b : Bytes)
  | int (n : Int)

/-- What `execute` returns: the rows of a query, and the number of rows a change touched. The rows are
fetched with it, so that an error of `fetchone` is an error of the statement. -/
structure Cursor where
  rows : List SqlValue
  rowcount : Int

/-- A connection, by the number of the `sqlite3.connect` call that made it. -/
abbrev Conn := Nat

inductive SqliteOp where
  | acquire
  | release
  | connect (path : Str)
  | execute (conn : Conn) (sql : Str) (params : List SqlValue)
  | close (conn : Conn)

/-- The lock and the driver. Each driver call may raise a `sqlite3.Error`. -/
abbrev sqlite : Interface where
  Op := SqliteOp
  Ans
    | .acquire => Unit
    | .release => Unit
    | .connect _ => Except String Conn
    | .execute _ _ _ => Except String Cursor
    | .close _ => Except String Unit

/-- Code of a `SQLiteBlob`; the state is `_conn`. -/
abbrev SqliteProg := Program sqlite (Option Conn) PyExc

/-- An `sqlite3.Error` becomes the exception of the program. -/
def raising {α : Type} : Except String α → SqliteProg α
  | .ok a => .pure a
  | .error e => .raise (.sqliteError e)

namespace Driver

/-- `_conn_lock.acquire()`. -/
def acquire : SqliteProg Unit := .call .acquire fun _ => .pure ()

/-- `_conn_lock.release()`. -/
def release : SqliteProg Unit := .call .release fun _ => .pure ()

/-- `sqlite3.connect(path, isolation_level=None, check_same_thread=False)`. -/
def connect (path : Str) : SqliteProg Conn := .call (.connect path) raising

/-- `conn.execute(sql, params)`. -/
def execute (conn : Conn) (sql : Str) (params : List SqlValue) : SqliteProg Cursor :=
  .call (.execute conn sql params) raising

/-- `conn.close()`. -/
def close (conn : Conn) : SqliteProg Unit := .call (.close conn) raising

end Driver

/-- The first character of a name that `rx_db_item` accepts. -/
def isDbStart (c : Char) : Bool := c.isAlpha || c = '_'

/-- `rx_db_item`, `^[A-Za-z_][A-Za-z0-9_]*$`, matched against the whole name. -/
def rxDbItem : Str → Bool
  | [] => false
  | c :: cs => isDbStart c && cs.all fun d => isDbStart d || d.isDigit

/-- A name that passed `clean_db_item`. -/
abbrev DbItem := { name : Str // rxDbItem name = true }

/-- `clean_db_item`. -/
def cleanDbItem (name : Str) : Except PyExc DbItem :=
  if h : rxDbItem name = true then .ok ⟨name, h⟩
  else .error (.blobError ("Invalid database identifier: " ++ reprText name))

/-- The fields of a `SQLiteBlob` that never change. -/
structure SQLiteBlob where
  path : Str
  table : DbItem
  keyCol : DbItem
  valueCol : DbItem
  busyTimeout : Int

namespace SQLiteBlob

/-- `SQLiteBlob(path, table, key_col, value_col, busy_timeout)`. -/
def init (path table keyCol valueCol : Str) (busyTimeout : Int) : Except PyExc SQLiteBlob := do
  let table ← cleanDbItem table
  let keyCol ← cleanDbItem keyCol
  let valueCol ← cleanDbItem valueCol
  return { path, table, keyCol, valueCol, busyTimeout }

/-! ## Statements -/

/-- The three PRAGMAs of `connection`. -/
def pragmas (b : SQLiteBlob) : List Str :=
  ["PRAGMA journal_mode=WAL;".toList, "PRAGMA synchronous=NORMAL;".toList,
    "PRAGMA busy_timeout=".toList ++ (toString b.busyTimeout).toList ++ ";".toList]

def iterInitSql (b : SQLiteBlob) : List Str :=
  ["\n        CREATE TABLE IF NOT EXISTS ".toList ++ b.table.1 ++ " (\n            ".toList ++
    b.keyCol.1 ++ " TEXT PRIMARY KEY,\n            ".toList ++ b.valueCol.1 ++
    " BLOB NOT NULL\n        ) WITHOUT ROWID\n        ".toList]

/-- `q` of `put`. -/
def putSql (b : SQLiteBlob) : Str :=
  "\n        INSERT INTO ".toList ++ b.table.1 ++ " (".toList ++ b.keyCol.1 ++ ", ".toList ++
    b.valueCol.1 ++ ")\n        VALUES (?, ?)\n        ON CONFLICT(".toList ++ b.keyCol.1 ++
    ") DO UPDATE SET\n            ".toList ++ b.valueCol.1 ++ "=excluded.".toList ++ b.valueCol.1 ++
    "\n        ".toList

/-- `q` of `get`. -/
def getSql (b : SQLiteBlob) : Str :=
  "\n        SELECT ".toList ++ b.valueCol.1 ++ "\n        FROM ".toList ++ b.table.1 ++
    "\n        WHERE ".toList ++ b.keyCol.1 ++ "=?\n        ".toList

/-- `q` of `delete`. -/
def deleteSql (b : SQLiteBlob) : Str :=
  "\n        DELETE FROM ".toList ++ b.table.1 ++ "\n        WHERE ".toList ++ b.keyCol.1 ++
    "=?\n        ".toList

/-- `q` of `exists`. -/
def existsSql (b : SQLiteBlob) : Str :=
  "\n        SELECT 1\n        FROM ".toList ++ b.table.1 ++ "\n        WHERE ".toList ++
    b.keyCol.1 ++ "=?\n        LIMIT 1\n        ".toList

/-- `q` of `scan`. -/
def scanSql (b : SQLiteBlob) : Str :=
  "\n        SELECT ".toList ++ b.keyCol.1 ++ "\n        FROM ".toList ++ b.table.1 ++
    "\n        WHERE ".toList ++ b.keyCol.1 ++ " >= ?\n          AND ".toList ++ b.keyCol.1 ++
    " < ?\n        ORDER BY ".toList ++ b.keyCol.1 ++ "\n        ".toList

/-! ## The connection -/

/-- `conn.execute(sql, params)`, where `conn` may be `None`. -/
def execute (conn : Option Conn) (sql : Str) (params : List SqlValue) : SqliteProg Cursor :=
  match conn with
  | none => .raise .attributeError
  | some c => Driver.execute c sql params

/-- `self._conn.execute(sql)`. -/
def executeConn (sql : Str) : SqliteProg Unit := do
  let conn ← Program.read
  let _ ← execute conn sql []

/-- `with self._conn_lock: p`. -/
def withConnLock {α : Type} (p : SqliteProg α) : SqliteProg α := do
  Driver.acquire
  p.tryFinally Driver.release

/-- The body of `connection` under the lock. -/
def connectLocked (b : SQLiteBlob) : SqliteProg (Option Conn) := do
  let conn ← Program.read
  -- rechecked under the lock
  if conn.isSome then
    Program.read
  else do
    let conn ← Driver.connect b.path
    Program.write (some conn)
    Program.forEach b.pragmas executeConn
    Program.forEach b.iterInitSql executeConn
    Program.read

/-- The property `connection`. -/
def connection (b : SQLiteBlob) : SqliteProg (Option Conn) := do
  let conn ← Program.read
  -- hot path
  if conn.isSome then
    Program.read
  else
    withConnLock b.connectLocked

/-- `self.connection.execute(q, params)`. -/
def query (b : SQLiteBlob) (q : Str) (params : List SqlValue) : SqliteProg Cursor := do
  let conn ← b.connection
  execute conn q params

/-! ## Operations -/

def open' (b : SQLiteBlob) : SqliteProg Unit := do
  let _ ← b.connection

def close : SqliteProg Unit :=
  withConnLock do
    let conn ← Program.read
    if conn.isSome then do
      match ← Program.read with
      | none => .raise .attributeError
      | some c => Driver.close c
      Program.write none

def put (b : SQLiteBlob) (key : Str) (data : Bytes) : SqliteProg Unit := do
  let _ ← b.query b.putSql [.text key, .blob data]

/-- `cast(bytes, v)`: the value column holds nothing but what `put` wrote, which is a blob. -/
def castBytes : SqlValue → Bytes
  | .blob d => d
  | _ => []

/-- The key column is `TEXT`. -/
def castText : SqlValue → Str
  | .text s => s
  | _ => []

def get (b : SQLiteBlob) (key : Str) : SqliteProg Bytes := do
  let cursor ← b.query b.getSql [.text key]
  match cursor.rows with
  | [] => .raise (.keyError key)
  | v :: _ => return castBytes v

def delete (b : SQLiteBlob) (key : Str) : SqliteProg Unit := do
  let cursor ← b.query b.deleteSql [.text key]
  if cursor.rowcount = 0 then
    .raise (.keyError key)

def exists' (b : SQLiteBlob) (key : Str) : SqliteProg Bool := do
  let cursor ← b.query b.existsSql [.text key]
  return !cursor.rows.isEmpty

/-- `scan`. The source fetches the rows one by one from a live cursor; here they all come with the
statement, which is the same as long as nothing changes the table before the last one is fetched. -/
def scan (b : SQLiteBlob) (pre : Str) : Gen sqlite (Option Conn) PyExc Str Unit := do
  let upper := pre ++ [Char.ofNat 0x10FFFF]
  let cursor ← (b.query b.scanSql [.text pre, .text upper]).embed
  Program.yieldAll (cursor.rows.map castText)

/-- `gufo.blob.sync.sqlite.SQLiteBlob`. -/
def backend (b : SQLiteBlob) : BlobBase sqlite (Option Conn) where
  open' := b.open'
  close := close
  put := b.put
  get := b.get
  delete := b.delete
  exists' := b.exists'
  scan := b.scan

end SQLiteBlob

end GufoBlob
