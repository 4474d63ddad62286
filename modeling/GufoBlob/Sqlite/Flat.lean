import GufoBlob.Interaction.Awaits
import GufoBlob.Memory.Flat
import GufoBlob.Sqlite.Scan

/-!
# The SQLite backend as a flat store

Any number of `SQLiteBlob` objects, each with its own connection, over one database, on a driver that
may raise at any moment. `effect` is what a call does to the table; a call that raises a
`sqlite3.Error` has done nothing to it.

* `wp_performed` — every call does what `effect` says, or raises.
* `objects_flat` — the objects are together one flat store: what one of them stored the others find, and
  so it does after it was closed. The keys are free of U+10FFFF, which ends the range of `scan`.
-/

namespace GufoBlob

open Text Data Interaction Program FlatStore

namespace SQLiteBlob

/-- The outcome of a call on the table, and the table after it. -/
def effect : Call → Table → Outcome PyExc Value × Table
  | .open', rows => (.ok .none, rows)
  | .close, rows => (.ok .none, rows)
  | .put key data, rows => (.ok .none, rows.set key data)
  | .get key, rows => match rows.get? key with
      | some data => (.ok (.data data), rows)
      | none => (.error (.keyError key), rows)
  | .delete key, rows =>
      (if key ∈ rows then .ok .none else .error (.keyError key), rows.erase key)
  | .exists' key, rows => (.ok (.bool (decide (key ∈ rows))), rows)
  | .scan pre, rows => (.ok (.keys (range rows pre (pre ++ [lastChar]))), rows)

variable {b : SQLiteBlob} {fails : Nat → SqlFaults} {conn : Option Conn} {db : Database} {n : Nat}

/-! ## Statements without parameters -/

/-- The driver's exception. -/
def Raised {α : Type} (o : Outcome PyExc α) : Prop := ∃ text, o = .error (.sqliteError text)

/-- The driver raises at some moment. -/
def Faulty (fails : Nat → SqlFaults) : Prop := ∃ n op, fails n op ≠ none

theorem faulty_of_eq {op : SqliteOp} {e : String} (h : fails n op = some e) : Faulty fails :=
  ⟨n, op, by simp [h]⟩

/-- The rows are the same, and a table that was there is still there. -/
structure KeepsRows (db db' : Database) : Prop where
  rows : rows db' = rows db
  table : db.table.isSome → db'.table.isSome

theorem KeepsRows.refl (db : Database) : KeepsRows db db := ⟨rfl, id⟩

theorem KeepsRows.trans {db db' db'' : Database} (h : KeepsRows db db') (h' : KeepsRows db' db'') :
    KeepsRows db db'' := ⟨h'.rows.trans h.rows, fun htable => h'.table (h.table htable)⟩

theorem keepsRows_create (b : SQLiteBlob) (sql : Str) (db : Database) :
    KeepsRows db (b.create db sql) := by
  unfold create
  split
  · refine ⟨?_, fun _ => rfl⟩
    cases h : db.table <;> simp [rows, h]
  · exact .refl db

theorem table_create_of_mem {sql : Str} (hsql : sql ∈ b.iterInitSql) (db : Database) :
    (b.create db sql).table.isSome := by
  unfold create
  rw [if_pos hsql]
  rfl

/-- A statement of the initialisation is done, or the driver raised. -/
theorem wp_executeConn {c : Conn} (sql : Str) :
    wp (b.runDriver fails) (executeConn sql)
      (fun o s w => s = some c ∧ KeepsRows db w.2 ∧
        (o = .ok () ∧ (sql ∈ b.iterInitSql → w.2.table.isSome) ∨ Raised o ∧ Faulty fails))
      (some c) (n, db) := by
  unfold executeConn
  rw [bind_eq, wp_bind, wp_read, bindPost_ok]
  unfold execute Driver.execute
  rw [bind_eq, wp_bind, wp_call, show b.runDriver fails (n, db) (.execute c sql []) =
    ((faulty (fails n (.execute c sql [])) db (b.executeOn db sql [])).1, n + 1,
      (faulty (fails n (.execute c sql [])) db (b.executeOn db sql [])).2) from rfl]
  cases hfault : fails n (.execute c sql []) with
  | none => exact ⟨rfl, keepsRows_create b sql db, .inl ⟨rfl, fun h => table_create_of_mem h db⟩⟩
  | some e => exact ⟨rfl, .refl db, .inr ⟨⟨e, rfl⟩, faulty_of_eq hfault⟩⟩

/-- So are all of them. -/
theorem wp_initialise {c : Conn} (sqls : List Str) :
    wp (b.runDriver fails) (Program.forEach sqls executeConn)
      (fun o s w => s = some c ∧ KeepsRows db w.2 ∧
        (o = .ok () ∧ ((∃ sql ∈ sqls, sql ∈ b.iterInitSql) → w.2.table.isSome) ∨
          Raised o ∧ Faulty fails))
      (some c) (n, db) := by
  induction sqls generalizing n db with
  | nil =>
      refine ⟨rfl, .refl db, .inl ⟨rfl, ?_⟩⟩
      rintro ⟨sql, hmem, -⟩
      exact absurd hmem List.not_mem_nil
  | cons sql sqls ih =>
      rw [Program.forEach, wp_bind]
      refine wp_mono (wp_executeConn sql) ?_
      rintro o s ⟨n', db'⟩ ⟨rfl, hkeeps, ⟨rfl, hinit⟩ | ⟨⟨text, rfl⟩, hfaulty⟩⟩
      · rw [bindPost_ok]
        refine wp_mono ih ?_
        rintro o s w ⟨hs, hkeeps', ⟨hok, hrest⟩ | hraised⟩
        · refine ⟨hs, hkeeps.trans hkeeps', .inl ⟨hok, ?_⟩⟩
          rintro ⟨sql', hmem, hsql'⟩
          rcases List.mem_cons.mp hmem with rfl | hmem
          · exact hkeeps'.table (hinit hsql')
          · exact hrest ⟨sql', hmem, hsql'⟩
        · exact ⟨hs, hkeeps.trans hkeeps', .inr hraised⟩
      · exact ⟨rfl, hkeeps, .inr ⟨⟨text, rfl⟩, hfaulty⟩⟩

/-! ## The connection -/

/-- A connection that is there has its table. -/
def Prepared (conn : Option Conn) (db : Database) : Prop := conn = none ∨ db.table.isSome

/-- There is a connection then, with its table, or the driver raised. -/
theorem wp_connects : wp (b.runDriver fails) b.connection
    (fun o s w => KeepsRows db w.2 ∧
      ((∃ c, o = .ok (some c) ∧ s = some c ∧ (Prepared conn db → w.2.table.isSome)) ∨
        Raised o ∧ Faulty fails)) conn (n, db) := by
  unfold connection
  rw [bind_eq, wp_bind, wp_read, bindPost_ok]
  cases conn with
  | some c =>
      refine ⟨.refl db, .inl ⟨c, rfl, rfl, fun hready => ?_⟩⟩
      exact hready.resolve_left (Option.some_ne_none c)
  | none =>
      unfold withConnLock Driver.acquire Driver.release
      rw [Option.isSome_none, if_neg (by decide), bind_eq, wp_bind, wp_call, wp_pure, bindPost_ok,
        wp_tryFinally]
      unfold connectLocked Driver.connect
      rw [bind_eq, wp_bind, wp_read, bindPost_ok, Option.isSome_none, if_neg (by decide), bind_eq,
        wp_bind, wp_call]
      show wp _ (raising (faulty (fails (n + 1) (.connect b.path)) db
        (.ok db.connects, { db with connects := db.connects + 1 })).1) _ none
        (n + 2, (faulty (fails (n + 1) (.connect b.path)) db _).2)
      cases hfault : fails (n + 1) (.connect b.path) with
      | some e => exact ⟨.refl db, .inr ⟨⟨e, rfl⟩, faulty_of_eq hfault⟩⟩
      | none =>
          -- the connection is assigned before its first statement
          have hkeeps : KeepsRows db { db with connects := db.connects + 1 } := ⟨rfl, id⟩
          show bindPost _ _ _ (.ok db.connects) none (n + 2, { db with connects := db.connects + 1 })
          rw [bindPost_ok, bind_eq, wp_bind, wp_write, bindPost_ok, bind_eq, wp_bind]
          refine wp_mono (wp_initialise b.pragmas) ?_
          rintro o s ⟨n', db'⟩ ⟨rfl, hpragmas, ⟨rfl, -⟩ | ⟨⟨text, rfl⟩, hfaulty⟩⟩
          · rw [bindPost_ok, bind_eq, wp_bind]
            refine wp_mono (wp_initialise b.iterInitSql) ?_
            rintro o s ⟨n'', db''⟩ ⟨rfl, hinit, ⟨rfl, htable⟩ | ⟨⟨text, rfl⟩, hfaulty⟩⟩
            · refine ⟨hkeeps.trans (hpragmas.trans hinit), .inl ⟨_, rfl, rfl, fun _ => htable ?_⟩⟩
              exact ⟨_, List.mem_cons_self, List.mem_cons_self⟩
            · exact ⟨hkeeps.trans (hpragmas.trans hinit), .inr ⟨⟨text, rfl⟩, hfaulty⟩⟩
          · exact ⟨hkeeps.trans hpragmas, .inr ⟨⟨text, rfl⟩, hfaulty⟩⟩

/-- A query has the answer of its statement, or raises and has done nothing. -/
theorem wp_query_rows (q : Str) (v : SqlValue) (vs : List SqlValue) :
    wp (b.runDriver fails) (b.query q (v :: vs)) (fun o _ w =>
      (o = .ok (b.statement (rows db) q (v :: vs)).1 ∧
        rows w.2 = (b.statement (rows db) q (v :: vs)).2 ∧ w.2.table.isSome) ∨
      Raised o ∧ KeepsRows db w.2 ∧ (Prepared conn db → Faulty fails)) conn (n, db) := by
  unfold query
  rw [bind_eq, wp_bind]
  refine wp_mono wp_connects ?_
  rintro o s ⟨n', db'⟩ ⟨hkeeps, ⟨c, rfl, rfl, htable⟩ | ⟨⟨text, rfl⟩, hfaulty⟩⟩
  · rw [bindPost_ok]
    unfold execute Driver.execute
    rw [wp_call, show b.runDriver fails (n', db') (.execute c q (v :: vs)) =
      ((faulty (fails n' (.execute c q (v :: vs))) db' (b.executeOn db' q (v :: vs))).1, n' + 1,
        (faulty (fails n' (.execute c q (v :: vs))) db' (b.executeOn db' q (v :: vs))).2) from rfl]
    cases hfault : fails n' (.execute c q (v :: vs)) with
    | some e => exact .inr ⟨⟨e, rfl⟩, hkeeps, fun _ => faulty_of_eq hfault⟩
    | none =>
        unfold executeOn
        cases hrows : db'.table with
        | none =>
            refine .inr ⟨⟨_, rfl⟩, hkeeps, fun hready => ?_⟩
            have hsome : db'.table.isSome := htable hready
            rw [hrows] at hsome
            cases hsome
        | some t =>
            obtain rfl : t = rows db := by
              rw [← hkeeps.rows]
              simp [rows, hrows]
            exact .inl ⟨rfl, rfl, rfl⟩
  · exact .inr ⟨⟨text, rfl⟩, hkeeps, fun _ => hfaulty⟩

/-! ## What a call does -/

/-- The call did what `effect` says, or raised and did nothing. Without a fault it raises nothing, and
the connection that it leaves has its table. -/
structure Performed (fails : Nat → SqlFaults) (c : Call) (conn : Option Conn) (db : Database)
    (o : Outcome PyExc Value) (conn' : Option Conn) (db' : Database) : Prop where
  does : (o = (effect c (rows db)).1 ∧ rows db' = (effect c (rows db)).2) ∨
    Raised o ∧ rows db' = rows db
  quiet : ¬ Faulty fails → Prepared conn db → ¬ Raised o ∧ Prepared conn' db'
  table : db.table.isSome → db'.table.isSome

theorem not_raised_effect (c : Call) (rows : Table) : ¬ Raised (effect c rows).1 := by
  rintro ⟨text, htext⟩
  cases c with
  | get key => cases hkey : rows.get? key <;> simp [effect, hkey] at htext
  | delete key => by_cases hkey : key ∈ rows <;> simp [effect, hkey] at htext
  | _ => cases htext

/-- The call is a query with parameters, and then `f`, which only makes a value or a `KeyError` of the
cursor. -/
structure Queries (b : SQLiteBlob) (c : Call) (q : Str) (v : SqlValue) (vs : List SqlValue)
    (f : Cursor → SqliteProg Value) : Prop where
  perform : b.backend.perform c = (b.query q (v :: vs)).bind f
  table : ∀ rows, (b.statement rows q (v :: vs)).2 = (effect c rows).2
  outcome : ∀ rows, (f (b.statement rows q (v :: vs)).1).outcome? = some (effect c rows).1

section Queries

variable (b : SQLiteBlob) (key : Str)

theorem queries_put (data : Bytes) :
    ∃ f, b.Queries (.put key data) b.putSql (.text key) [.blob data] f := by
  have hstatement : ∀ rows, b.statement rows b.putSql [.text key, .blob data] =
      (⟨[], 1⟩, rows.set key data) := fun rows => by rw [statement, if_pos rfl]
  refine ⟨_, bind_assoc' (b.query b.putSql [.text key, .blob data]) _ _, fun rows => ?_, fun rows => rfl⟩
  rw [hstatement]
  rfl

theorem queries_get : ∃ f, b.Queries (.get key) b.getSql (.text key) [] f := by
  have hstatement : ∀ rows, b.statement rows b.getSql [.text key] =
      (⟨(rows.get? key).toList.map .blob, -1⟩, rows) := fun rows => lookup_get b rows key
  refine ⟨_, bind_assoc' (b.query b.getSql [.text key]) _ _, fun rows => ?_, fun rows => ?_⟩
  · rw [hstatement]
    cases hkey : rows.get? key <;> simp [effect, hkey]
  · rw [hstatement]
    cases hkey : rows.get? key with
    | none =>
        simp only [effect, hkey]
        rfl
    | some d =>
        simp only [effect, hkey]
        rfl

theorem queries_delete : ∃ f, b.Queries (.delete key) b.deleteSql (.text key) [] f := by
  have hstatement : ∀ rows, b.statement rows b.deleteSql [.text key] =
      (⟨[], if key ∈ rows then 1 else 0⟩, rows.erase key) := fun rows => lookup_delete b rows key
  refine ⟨_, bind_assoc' (b.query b.deleteSql [.text key]) _ _, fun rows => ?_, fun rows => ?_⟩
  · rw [hstatement]
    rfl
  · rw [hstatement]
    by_cases hkey : key ∈ rows
    · have heffect : (effect (.delete key) rows).1 = .ok .none := if_pos hkey
      rw [if_pos hkey, heffect]
      rfl
    · have heffect : (effect (.delete key) rows).1 = .error (.keyError key) := if_neg hkey
      rw [if_neg hkey, heffect]
      rfl

theorem queries_exists : ∃ f, b.Queries (.exists' key) b.existsSql (.text key) [] f := by
  have hstatement : ∀ rows, b.statement rows b.existsSql [.text key] =
      (⟨if key ∈ rows then [.int 1] else [], -1⟩, rows) := fun rows => lookup_exists b rows key
  refine ⟨_, bind_assoc' (b.query b.existsSql [.text key]) _ _, fun rows => ?_, fun rows => ?_⟩
  · rw [hstatement]
    rfl
  · have heffect : (effect (.exists' key) rows).1 = .ok (.bool (decide (key ∈ rows))) := rfl
    rw [hstatement, heffect]
    by_cases hkey : key ∈ rows
    · rw [if_pos hkey, decide_eq_true hkey]
      rfl
    · rw [if_neg hkey, decide_eq_false hkey]
      rfl

theorem queries_scan (pre : Str) :
    ∃ f, b.Queries (.scan pre) b.scanSql (.text pre) [.text (pre ++ [lastChar])] f := by
  have hstatement : ∀ rows, b.statement rows b.scanSql [.text pre, .text (pre ++ [lastChar])] =
      (⟨(range rows pre (pre ++ [lastChar])).map .text, -1⟩, rows) := fun rows => by
    rw [statement, if_pos rfl]
  have hperform : b.backend.perform (.scan pre) =
      (b.query b.scanSql [.text pre, .text (pre ++ [lastChar])]).bind fun cursor =>
        .pure (.keys (cursor.rows.map castText)) := by
    show (b.scan pre).collect.bind (fun ks => .pure (Value.keys ks)) = _
    unfold scan
    dsimp only
    rw [bind_eq, collect_embed_bind, bind_assoc']
    refine congrArg _ (funext fun cursor => ?_)
    rw [collect_yieldAll]
    rfl
  refine ⟨_, hperform, fun rows => ?_, fun rows => ?_⟩
  · rw [hstatement]
    rfl
  · have htexts : ((range rows pre (pre ++ [lastChar])).map SqlValue.text).map castText =
        range rows pre (pre ++ [lastChar]) := by
      rw [List.map_map, show castText ∘ SqlValue.text = id from rfl, List.map_id]
    rw [hstatement]
    show some (Outcome.ok (Value.keys _)) = _
    rw [htexts]
    rfl

/-- Every call but `open` and `close` is a query. -/
theorem queries_of_call (c : Call) : c = .open' ∨ c = .close ∨ ∃ q v vs f, b.Queries c q v vs f := by
  cases c with
  | open' => exact .inl rfl
  | close => exact .inr (.inl rfl)
  | put key data => exact .inr (.inr ⟨_, _, _, b.queries_put key data⟩)
  | get key => exact .inr (.inr ⟨_, _, _, b.queries_get key⟩)
  | delete key => exact .inr (.inr ⟨_, _, _, b.queries_delete key⟩)
  | exists' key => exact .inr (.inr ⟨_, _, _, b.queries_exists key⟩)
  | scan pre => exact .inr (.inr ⟨_, _, _, b.queries_scan pre⟩)

end Queries

theorem performed_open : wp (b.runDriver fails) (b.backend.perform .open')
    (fun o s w => Performed fails .open' conn db o s w.2) conn (n, db) := by
  show wp _ (b.open'.bind fun _ => .pure Value.none) _ _ _
  unfold open'
  rw [wp_bind, bind_eq, wp_bind]
  refine wp_mono wp_connects ?_
  rintro o s ⟨n', db'⟩ ⟨hkeeps, ⟨c, rfl, rfl, htable⟩ | ⟨⟨text, rfl⟩, hfaulty⟩⟩
  · exact ⟨.inl ⟨rfl, hkeeps.rows⟩,
      fun _ hready => ⟨not_raised_effect .open' (rows db), .inr (htable hready)⟩, hkeeps.table⟩
  · exact ⟨.inr ⟨⟨text, rfl⟩, hkeeps.rows⟩, fun hno => absurd hfaulty hno, hkeeps.table⟩

theorem performed_close : wp (b.runDriver fails) (b.backend.perform .close)
    (fun o s w => Performed fails .close conn db o s w.2) conn (n, db) := by
  have hclosed : Performed fails .close conn db (.ok .none) none db :=
    ⟨.inl ⟨rfl, rfl⟩, fun _ _ => ⟨not_raised_effect .close (rows db), .inl rfl⟩, id⟩
  show wp _ (close.bind fun _ => .pure Value.none) _ _ _
  unfold close withConnLock Driver.acquire Driver.release
  rw [wp_bind, bind_eq, wp_bind, wp_call, wp_pure, bindPost_ok, wp_tryFinally, bind_eq, wp_bind,
    wp_read, bindPost_ok]
  cases conn with
  | none => exact hclosed
  | some c =>
      rw [Option.isSome_some, if_pos rfl, bind_eq, wp_bind, wp_read, bindPost_ok]
      show wp _ (Driver.close c >>= fun _ => Program.write none) _ _ _
      unfold Driver.close
      rw [bind_eq, wp_bind, wp_call]
      show wp _ (raising (faulty (fails (n + 1) (.close c)) db (.ok (), db)).1) _ (some c)
        (n + 2, (faulty (fails (n + 1) (.close c)) db (.ok (), db)).2)
      cases hfault : fails (n + 1) (.close c) with
      | some e => exact ⟨.inr ⟨⟨e, rfl⟩, rfl⟩, fun hno => absurd (faulty_of_eq hfault) hno, id⟩
      | none => exact hclosed

/-- **A call does what `effect` says to the table, or raises a `sqlite3.Error` and nothing else.** -/
theorem wp_performed (c : Call) : wp (b.runDriver fails) (b.backend.perform c)
    (fun o s w => Performed fails c conn db o s w.2) conn (n, db) := by
  rcases b.queries_of_call c with rfl | rfl | ⟨q, v, vs, f, hq⟩
  · exact performed_open
  · exact performed_close
  · rw [hq.perform, wp_bind]
    refine wp_mono (wp_query_rows q v vs) ?_
    rintro o s ⟨n', db'⟩ (⟨rfl, hrows, htable⟩ | ⟨⟨text, rfl⟩, hkeeps, hfaulty⟩)
    · rw [bindPost_ok, wp, run_of_outcome? (hq.outcome _)]
      exact ⟨.inl ⟨rfl, hrows.trans (hq.table _)⟩,
        fun _ _ => ⟨not_raised_effect c (rows db), .inr htable⟩, fun _ => htable⟩
    · exact ⟨.inr ⟨⟨text, rfl⟩, hkeeps.rows⟩,
        fun hno hready => absurd (hfaulty hready) hno, hkeeps.table⟩

/-! ## The table as a map -/

/-- No key of the table contains U+10FFFF. -/
def Scannable (rows : Table) : Prop := ∀ k ∈ rows, lastChar ∉ k

/-- What one call does to the map. -/
theorem answers_effect {rows : Table} (hrows : Scannable rows) (c : Call) :
    FlatStore.Answers rows.get? c (effect c rows).1 ∧
      (effect c rows).2.get? = contents rows.get? (writeOf c (effect c rows).1) := by
  cases c with
  | open' => exact ⟨rfl, rfl⟩
  | close => exact ⟨rfl, rfl⟩
  | put key data => exact ⟨rfl, Dict.get?_set_eq rows key data⟩
  | get key => cases hd : rows.get? key <;> simp [effect, FlatStore.Answers, writeOf, hd]
  | delete key =>
      by_cases hkey : key ∈ rows
      · obtain ⟨d, hd⟩ := Option.isSome_iff_exists.mp (Dict.isSome_get?_iff.mpr hkey)
        refine ⟨by simp [effect, FlatStore.Answers, hkey, hd], ?_⟩
        simpa [effect, writeOf, hkey] using Dict.get?_erase_eq rows key
      · have hd : rows.get? key = none := Dict.get?_eq_none_iff.mpr hkey
        refine ⟨by simp [effect, FlatStore.Answers, hkey, hd], ?_⟩
        have hsame : (rows.erase key).get? = rows.get? := by
          rw [Dict.get?_erase_eq, ← hd, Function.update_eq_self]
        simpa [effect, writeOf, hkey] using hsame
  | exists' key =>
      refine ⟨?_, rfl⟩
      show Outcome.ok (Value.bool (decide (key ∈ rows))) = _
      rw [Bool.eq_iff_iff.mpr (decide_eq_true_iff.trans Dict.isSome_get?_iff.symm)]
  | scan pre =>
      refine ⟨⟨_, rfl, (range_pairwise rows _ _).imp fun h => ne_of_lt h, fun k => ?_⟩, rfl⟩
      rw [mem_range, Dict.isSome_get?_iff]
      constructor
      · exact fun h => ⟨h.1, h.2.1⟩
      · refine fun h => ⟨h.1, h.2, fun hlast => hrows k h.1 ?_⟩
        exact List.IsPrefix.mem (by simp) hlast

/-- A call that stores no key with U+10FFFF. -/
def Plain (c : Call) : Prop := ∀ key data, c = .put key data → lastChar ∉ key

theorem Scannable.effect {rows : Table} (hrows : Scannable rows) {c : Call} (hc : Plain c) :
    Scannable (effect c rows).2 := by
  cases c with
  | put key data =>
      intro k hk
      rw [← Dict.isSome_get?_iff] at hk
      change ((rows.set key data).get? k).isSome at hk
      rw [Dict.get?_set] at hk
      by_cases hkey : k = key
      · rw [hkey]
        exact hc key data rfl
      · rw [if_neg hkey] at hk
        exact hrows k (Dict.isSome_get?_iff.mp hk)
  | delete key =>
      intro k hk
      rw [← Dict.isSome_get?_iff] at hk
      change ((rows.erase key).get? k).isSome at hk
      rw [Dict.get?_erase] at hk
      by_cases hkey : k = key
      · simp [hkey] at hk
      · rw [if_neg hkey] at hk
        exact hrows k (Dict.isSome_get?_iff.mp hk)
  | get key => cases hd : rows.get? key <;> simpa [SQLiteBlob.effect, hd] using hrows
  | open' => exact hrows
  | close => exact hrows
  | exists' key => exact hrows
  | scan pre => exact hrows

/-! ## Many objects -/

/-- The exceptions of a driver that raises at some moment. -/
def failures (fails : Nat → SqlFaults) : Failures := fun _ e =>
  Faulty fails ∧ ∃ text, e = .sqliteError text

/-- What each object needs, while the driver never raises. -/
def Usable (fails : Nat → SqlFaults) (conn : Option Conn) (db : Database) : Prop :=
  ¬ Faulty fails → Prepared conn db

/-- The table holds the map `m`, under keys that `scan` can find. -/
def Holds (db : Database) (m : Contents) : Prop := (rows db).get? = m ∧ Scannable (rows db)

theorem refines_flat (b : SQLiteBlob) (fails : Nat → SqlFaults) :
    Refines (b.runDriver fails) b.backend.perform (spec (failures fails)) Plain
      (fun conn w m => Usable fails conn w.2 ∧ Holds w.2 m) where
  ends c m m' h := not_responds_spun c h.1
  step := by
    rintro c conn ⟨n, db⟩ m hc ⟨husable, rfl, hscan⟩
    obtain ⟨hanswers, hcontents⟩ := answers_effect hscan c
    refine wp_mono (wp_performed c) ?_
    rintro o conn' ⟨n', db'⟩ hperformed
    have husable' : Usable fails conn' db' := fun hno =>
      (hperformed.quiet hno (husable hno)).2
    have hdoes : (o = (effect c (rows db)).1 ∧ rows db' = (effect c (rows db)).2) ∨
      Raised o ∧ rows db' = rows db := hperformed.does
    rcases hdoes with ⟨rfl, hrows⟩ | ⟨⟨text, rfl⟩, hrows⟩
    · refine ⟨_, ⟨.inl hanswers, rfl⟩, husable', ?_, ?_⟩
      · rw [hrows, hcontents]
      · rw [hrows]
        exact hscan.effect hc
    · have hfaulty : Faulty fails := by
        by_contra hno
        exact (hperformed.quiet hno (husable hno)).1 ⟨text, rfl⟩
      refine ⟨_, ⟨.inr ⟨_, rfl, hfaulty, text, rfl⟩, rfl⟩, husable', ?_, ?_⟩
      · rw [hrows]
        cases c <;> rfl
      · rw [hrows]
        exact hscan

/-- A call of one object leaves the others usable. -/
theorem usable_of_call {c : Call} {conn' : Option Conn} (husable' : Usable fails conn' db) :
    Usable fails conn' ((b.backend.perform c).run (b.runDriver fails) conn (n, db)).2.2.2 := by
  intro hno
  have hperformed : wp (b.runDriver fails) (b.backend.perform c) _ conn (n, db) := wp_performed c
  exact (husable' hno).imp_right fun htable => hperformed.table htable

/-- Another object on the same table: its path and its timeout may be written otherwise. -/
def opened (b : SQLiteBlob) (path : Str) (busyTimeout : Int) : SQLiteBlob :=
  { b with path, busyTimeout }

/-- A database that is locked while the first statement after the initialisation is made. -/
def lockedOnce (n : Nat) : SqlFaults := if n = 7 then lockedDatabase else noFaults

end SQLiteBlob

end GufoBlob
