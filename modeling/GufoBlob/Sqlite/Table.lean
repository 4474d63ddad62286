import GufoBlob.Data.Dict
import GufoBlob.Sqlite.Blob
import Mathlib.Data.Char
import Mathlib.Data.List.Lex
import Mathlib.Data.List.Sort

/-!
# The table of the SQLite backend

A driver that executes the statements of one `SQLiteBlob` on a table of keys and values
(`tableDriver`; `runDriver` under a run of calls). Any call of it may raise a `sqlite3.Error` instead,
as `fails` says, and a statement on a table that is not there does. `ORDER BY` follows the BINARY
collation, which is the order of the code points.

* `wp_connection` — `connection` returns the connection that is there, or makes and initialises one.
* `wp_query` — a query gets the answer of its statement exactly when nothing raises (`Answers`).
-/

namespace GufoBlob

open Text Data Interaction Program

/-- The keys of the table, with their values. -/
abbrev Table := Dict Str Bytes

/-- The number of connections made, and the table once it is created. -/
structure Database where
  connects : Nat := 0
  table : Option Table := none

/-- The driver calls that raise, within one call of a blob: it makes no driver call twice. -/
abbrev SqlFaults := SqliteOp → Option String

namespace SQLiteBlob

/-- The rows with one key. -/
def lookup (b : SQLiteBlob) (rows : Table) (key sql : Str) : Cursor × Table :=
  if sql = b.getSql then (⟨(rows.get? key).toList.map .blob, -1⟩, rows)
  else if sql = b.deleteSql then (⟨[], if key ∈ rows then 1 else 0⟩, rows.erase key)
  else if sql = b.existsSql then (⟨if key ∈ rows then [.int 1] else [], -1⟩, rows)
  else (⟨[], -1⟩, rows)

/-- The keys from `lo` on and below `hi`, in order. -/
def range (rows : Table) (lo hi : Str) : List Str :=
  (rows.keys.filter fun k => lo ≤ k && k < hi).insertionSort (· ≤ ·)

/-- A statement with parameters. -/
def statement (b : SQLiteBlob) (rows : Table) (sql : Str) : List SqlValue → Cursor × Table
  | [.text key] => b.lookup rows key sql
  | [.text key, .blob data] =>
      if sql = b.putSql then (⟨[], 1⟩, rows.set key data) else (⟨[], -1⟩, rows)
  | [.text lo, .text hi] =>
      if sql = b.scanSql then (⟨(range rows lo hi).map .text, -1⟩, rows) else (⟨[], -1⟩, rows)
  | _ => (⟨[], -1⟩, rows)

/-- A statement without parameters: `CREATE TABLE IF NOT EXISTS`, or a PRAGMA. -/
def create (b : SQLiteBlob) (db : Database) (sql : Str) : Database :=
  if sql ∈ b.iterInitSql then { db with table := some (db.table.getD .empty) } else db

/-- `execute` on a driver that does not fail by itself. -/
def executeOn (b : SQLiteBlob) (db : Database) (sql : Str) (params : List SqlValue) :
    Except String Cursor × Database :=
  match params, db.table with
  | [], _ => (.ok ⟨[], -1⟩, b.create db sql)
  | _, none => (.error "no such table", db)
  | _, some rows =>
      (.ok (b.statement rows sql params).1,
        { db with table := some (b.statement rows sql params).2 })

/-- A call that raises when there is a fault. -/
def faulty {α : Type} (fault : Option String) (db : Database) (r : Except String α × Database) :
    Except String α × Database :=
  match fault with
  | some e => (.error e, db)
  | none => r

/-- The driver, where the lock is free. -/
def tableDriver (b : SQLiteBlob) (fails : SqlFaults) : Handler sqlite Database
  | db, .acquire => ((), db)
  | db, .release => ((), db)
  | db, .connect path => faulty (fails (.connect path)) db
      (.ok db.connects, { db with connects := db.connects + 1 })
  | db, .execute c sql params => faulty (fails (.execute c sql params)) db
      (b.executeOn db sql params)
  | db, .close c => faulty (fails (.close c)) db (.ok (), db)

/-- The driver under a run of calls. What raises may be another thing at every moment: `fails` is given
the number of the calls that were made of the lock and the driver before. -/
def runDriver (b : SQLiteBlob) (fails : Nat → SqlFaults) : Handler sqlite (Nat × Database)
  | (n, db), o => ((b.tableDriver (fails n) db o).1, n + 1, (b.tableDriver (fails n) db o).2)

/-! ## The statements differ -/

theorem deleteSql_ne_getSql (b : SQLiteBlob) : b.deleteSql ≠ b.getSql := by
  intro h
  have hdelete : b.deleteSql[9]? = some 'D' := rfl
  have hget : b.getSql[9]? = some 'S' := rfl
  rw [h, hget] at hdelete
  cases hdelete

theorem existsSql_ne_deleteSql (b : SQLiteBlob) : b.existsSql ≠ b.deleteSql := by
  intro h
  have hdelete : b.deleteSql[9]? = some 'D' := rfl
  have hexists : b.existsSql[9]? = some 'S' := rfl
  rw [h, hdelete] at hexists
  cases hexists

/-- The name of a column does not start with a digit. -/
theorem existsSql_ne_getSql (b : SQLiteBlob) : b.existsSql ≠ b.getSql := by
  intro h
  have hexists : b.existsSql[16]? = some '1' := rfl
  rcases hcol : b.valueCol with ⟨_ | ⟨c, cs⟩, hname⟩
  · cases hname
  · have hget : b.getSql[16]? = some c := by
      unfold getSql
      rw [hcol]
      rfl
    have hone : c = '1' := Option.some.inj (hget.symm.trans (h ▸ hexists))
    rw [hone] at hname
    cases hname

section Lookup

variable (b : SQLiteBlob) (rows : Table) (key : Str)

theorem lookup_get : b.lookup rows key b.getSql = (⟨(rows.get? key).toList.map .blob, -1⟩, rows) :=
  if_pos rfl

theorem lookup_delete : b.lookup rows key b.deleteSql =
    (⟨[], if key ∈ rows then 1 else 0⟩, rows.erase key) := by
  unfold lookup
  rw [if_neg b.deleteSql_ne_getSql, if_pos rfl]

theorem lookup_exists : b.lookup rows key b.existsSql =
    (⟨if key ∈ rows then [.int 1] else [], -1⟩, rows) := by
  unfold lookup
  rw [if_neg b.existsSql_ne_getSql, if_neg b.existsSql_ne_deleteSql, if_pos rfl]

end Lookup

/-! ## The connection -/

variable {b : SQLiteBlob} {fails : SqlFaults} {db : Database}

theorem wp_execute {Q : Outcome PyExc Cursor → Option Conn → Database → Prop} {s : Option Conn}
    {c : Conn} {sql : Str} {params : List SqlValue} :
    wp (b.tableDriver fails) (Driver.execute c sql params) Q s db ↔
      match fails (.execute c sql params), (b.executeOn db sql params).1 with
      | some e, _ => Q (.error (.sqliteError e)) s db
      | none, .error e => Q (.error (.sqliteError e)) s (b.executeOn db sql params).2
      | none, .ok cursor => Q (.ok cursor) s (b.executeOn db sql params).2 := by
  have hanswer : b.tableDriver fails db (.execute c sql params) =
      faulty (fails (.execute c sql params)) db (b.executeOn db sql params) := rfl
  unfold Driver.execute
  rw [wp_call, hanswer]
  cases fails (.execute c sql params) with
  | some e => rfl
  | none => cases h : (b.executeOn db sql params).1 <;> simp [faulty, h, raising]

/-- The statements without parameters, one after the other. -/
theorem wp_statements {sqls : List Str} {c : Conn}
    {Q : Outcome PyExc Unit → Option Conn → Database → Prop}
    (hok : (∀ sql ∈ sqls, fails (.execute c sql []) = none) →
      Q (.ok ()) (some c) (sqls.foldl b.create db))
    (herr : ∀ e db, ¬ (∀ sql ∈ sqls, fails (.execute c sql []) = none) →
      Q (.error (.sqliteError e)) (some c) db) :
    wp (b.tableDriver fails) (Program.forEach sqls executeConn) Q (some c) db := by
  induction sqls generalizing db with
  | nil => exact hok (by simp)
  | cons sql sqls ih =>
      rw [Program.forEach, wp_bind]
      unfold executeConn
      rw [bind_eq, wp_bind, wp_read, bindPost_ok]
      unfold execute
      rw [bind_eq, wp_bind, wp_execute]
      cases hfault : fails (.execute c sql []) with
      | some e =>
          refine herr e _ fun hall => ?_
          rw [hall sql List.mem_cons_self] at hfault
          cases hfault
      | none =>
          apply ih
          · exact fun h => hok (List.forall_mem_cons.mpr ⟨hfault, h⟩)
          · exact fun e db h => herr e db fun hall => h (List.forall_mem_cons.mp hall).2

theorem foldl_create (sqls : List Str) (db : Database) :
    sqls.foldl b.create db = if ∃ sql ∈ sqls, sql ∈ b.iterInitSql
      then { db with table := some (db.table.getD .empty) } else db := by
  induction sqls generalizing db with
  | nil => simp
  | cons sql sqls ih =>
      rw [List.foldl_cons, ih]
      unfold create
      by_cases hinit : sql ∈ b.iterInitSql <;> simp [hinit]

/-- The table that a new connection finds, or creates. -/
def rows (db : Database) : Table := db.table.getD .empty

/-- What initialising a new connection leaves. -/
theorem initialise_create (b : SQLiteBlob) (db : Database) :
    b.iterInitSql.foldl b.create (b.pragmas.foldl b.create db) =
      { db with table := some (rows db) } := by
  rw [← List.foldl_append, foldl_create, if_pos]
  · rfl
  · obtain ⟨sql, hsql⟩ : ∃ sql, sql ∈ b.iterInitSql := ⟨_, List.mem_cons_self⟩
    exact ⟨sql, List.mem_append_right _ hsql, hsql⟩

/-- `sqlite3.connect` and the statements after it do not raise. -/
def Connects (b : SQLiteBlob) (fails : SqlFaults) (db : Database) : Prop :=
  fails (.connect b.path) = none ∧
    ∀ sql ∈ b.pragmas ++ b.iterInitSql, fails (.execute db.connects sql []) = none

/-- The database once the blob has its connection. -/
def connected (conn : Option Conn) (db : Database) : Database :=
  match conn with
  | some _ => db
  | none => ⟨db.connects + 1, some (rows db)⟩

theorem wp_connectLocked {Q : Outcome PyExc (Option Conn) → Option Conn → Database → Prop}
    (hok : b.Connects fails db →
      Q (.ok (some db.connects)) (some db.connects) ⟨db.connects + 1, some (rows db)⟩)
    (herr : ∀ e conn db', ¬ b.Connects fails db → Q (.error (.sqliteError e)) conn db') :
    wp (b.tableDriver fails) b.connectLocked Q none db := by
  unfold connectLocked
  rw [bind_eq, wp_bind, wp_read, bindPost_ok, Option.isSome_none, if_neg (by decide), bind_eq,
    wp_bind]
  unfold Driver.connect
  rw [wp_call, show b.tableDriver fails db (.connect b.path) = faulty (fails (.connect b.path)) db
    (.ok db.connects, { db with connects := db.connects + 1 }) from rfl]
  cases hconnect : fails (.connect b.path) with
  | some e =>
      refine herr e _ _ fun h => ?_
      rw [h.1] at hconnect
      cases hconnect
  | none =>
      -- the connection is assigned before its first statement
      show wp _ (Program.write (some db.connects) >>= fun _ => _) _ _ { db with connects := _ }
      rw [bind_eq, wp_bind]
      show wp _ (Program.forEach b.pragmas executeConn >>= fun _ => _) _ (some db.connects) _
      rw [bind_eq, wp_bind]
      apply wp_statements
      · intro hpragmas
        rw [bindPost_ok, bind_eq, wp_bind]
        apply wp_statements
        · intro hinit
          rw [bindPost_ok, wp_read, initialise_create]
          exact hok ⟨hconnect, List.forall_mem_append.mpr ⟨hpragmas, hinit⟩⟩
        · exact fun e db' h => herr e _ _ fun hall => h (List.forall_mem_append.mp hall.2).2
      · exact fun e db' h => herr e _ _ fun hall => h (List.forall_mem_append.mp hall.2).1

/-- `connection` returns the connection that is there, or makes a new one. -/
theorem wp_connection {conn : Option Conn}
    {Q : Outcome PyExc (Option Conn) → Option Conn → Database → Prop}
    (hok : (conn = none → b.Connects fails db) →
      Q (.ok (some (conn.getD db.connects))) (some (conn.getD db.connects)) (connected conn db))
    (herr : ∀ e conn' db', ¬ (conn = none → b.Connects fails db) →
      Q (.error (.sqliteError e)) conn' db') :
    wp (b.tableDriver fails) b.connection Q conn db := by
  unfold connection
  rw [bind_eq, wp_bind, wp_read, bindPost_ok]
  cases conn with
  | some c =>
      rw [Option.isSome_some, if_pos rfl, wp_read]
      exact hok (by simp)
  | none =>
      rw [Option.isSome_none, if_neg (by decide)]
      unfold withConnLock Driver.acquire Driver.release
      rw [bind_eq, wp_bind, wp_call, wp_pure, bindPost_ok, wp_tryFinally]
      apply wp_connectLocked
      · exact fun h => hok fun _ => h
      · exact fun e conn' db' h => herr e conn' db' fun hall => h (hall rfl)

/-- `query` fails when the connection does, when the statement does, or without a table. -/
def Answers (b : SQLiteBlob) (fails : SqlFaults) (conn : Option Conn) (db : Database) (q : Str)
    (params : List SqlValue) : Prop :=
  (conn = none → b.Connects fails db) ∧ fails (.execute (conn.getD db.connects) q params) = none ∧
    (connected conn db).table.isSome = true

/-- A statement with parameters, on the connection of the blob. -/
theorem wp_query {conn : Option Conn} {q : Str} {v : SqlValue} {vs : List SqlValue}
    {Q : Outcome PyExc Cursor → Option Conn → Database → Prop}
    (hok : b.Answers fails conn db q (v :: vs) →
      Q (.ok (b.statement (rows db) q (v :: vs)).1) (some (conn.getD db.connects))
        ⟨(connected conn db).connects, some (b.statement (rows db) q (v :: vs)).2⟩)
    (herr : ∀ e conn' db', ¬ b.Answers fails conn db q (v :: vs) →
      Q (.error (.sqliteError e)) conn' db') :
    wp (b.tableDriver fails) (b.query q (v :: vs)) Q conn db := by
  unfold query
  rw [bind_eq, wp_bind]
  apply wp_connection
  · intro hconn
    rw [bindPost_ok]
    unfold execute
    rw [wp_execute]
    -- connecting makes an empty table, if there was none
    have hrows : ∀ table, (connected conn db).table = some table → table = rows db := by
      intro table htable
      cases conn with
      | none => exact (Option.some.inj htable).symm
      | some c =>
          have hdb : db.table = some table := htable
          unfold rows
          rw [hdb]
          rfl
    cases hfault : fails (.execute (conn.getD db.connects) q (v :: vs)) with
    | some e =>
        refine herr e _ _ fun hall => ?_
        rw [hall.2.1] at hfault
        cases hfault
    | none =>
        unfold executeOn
        cases htable : (connected conn db).table with
        | none =>
            refine herr _ _ _ fun hall => ?_
            have hsome := hall.2.2
            rw [htable] at hsome
            cases hsome
        | some table =>
            obtain rfl := hrows table htable
            exact hok ⟨hconn, hfault, by rw [htable]; rfl⟩
  · exact fun e conn' db' h => herr e _ _ fun hall => h hall.1

end SQLiteBlob

end GufoBlob
