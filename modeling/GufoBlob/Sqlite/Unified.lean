import GufoBlob.File.Unified
import GufoBlob.Sqlite.Table

/-!
# The errors of the SQLite backend

No method of `SQLiteBlob` catches a `sqlite3.Error`, so what the driver raises reaches the caller.

* `unified_iff_faultless` — the errors of a call are unified exactly when no driver call of it
  raises.
* `errors_unified_iff` — the same for the file backend and this one.
-/

namespace GufoBlob

open Text Data Interaction Program

namespace SQLiteBlob

variable {b : SQLiteBlob} {fails : SqlFaults} {conn : Option Conn} {db : Database}

/-- The table has a row with the key. -/
def Stored (db : Database) (key : Str) : Prop := key ∈ rows db

/-- No driver call that the call makes raises a `sqlite3.Error`. -/
def Faultless (b : SQLiteBlob) (fails : SqlFaults) (conn : Option Conn) (db : Database) :
    Call → Prop
  | .open' => conn = none → b.Connects fails db
  | .close => ∀ c ∈ conn, fails (.close c) = none
  | .put key data => b.Answers fails conn db b.putSql [.text key, .blob data]
  | .get key => b.Answers fails conn db b.getSql [.text key]
  | .delete key => b.Answers fails conn db b.deleteSql [.text key]
  | .exists' key => b.Answers fails conn db b.existsSql [.text key]
  | .scan pre => b.Answers fails conn db b.scanSql [.text pre, .text (pre ++ [Char.ofNat 0x10FFFF])]

/-! ## Calls -/

/-- The errors of the call `c` are unified exactly when no driver call of it raises. -/
abbrev UnifiedIff (b : SQLiteBlob) (fails : SqlFaults) (conn : Option Conn) (db : Database)
    (c : Call) : Prop :=
  wp (b.tableDriver fails) (b.backend.perform c)
    (fun o _ _ => Unified (Stored db) c o ↔ b.Faultless fails conn db c) conn db

/-- No call that raises a `sqlite3.Error` is unified. -/
theorem unified_raises {c : Call} (e : String) (h : ¬ b.Faultless fails conn db c) :
    Unified (Stored db) c (.error (.sqliteError e)) ↔ b.Faultless fails conn db c :=
  iff_of_false id h

theorem unifiedIff_open : b.UnifiedIff fails conn db .open' := by
  show wp _ (b.open'.bind fun _ => .pure Value.none) _ _ _
  unfold open'
  rw [wp_bind, bind_eq, wp_bind]
  apply wp_connection
  · exact fun h => iff_of_true nofun h
  · exact fun e _ _ h => unified_raises e h

theorem unifiedIff_close : b.UnifiedIff fails conn db .close := by
  show wp _ (close.bind fun _ => .pure Value.none) _ _ _
  unfold close withConnLock Driver.acquire Driver.release
  rw [wp_bind, bind_eq, wp_bind, wp_call, wp_pure, bindPost_ok, wp_tryFinally, bind_eq, wp_bind,
    wp_read, bindPost_ok]
  cases conn with
  | none => exact iff_of_true nofun nofun
  | some c =>
      rw [Option.isSome_some, if_pos rfl, bind_eq, wp_bind, wp_read, bindPost_ok]
      show wp _ (Driver.close c >>= fun _ => Program.write none) _ _ _
      unfold Driver.close
      rw [bind_eq, wp_bind, wp_call, show
        b.tableDriver fails (b.tableDriver fails db .acquire).2 (.close c) =
          faulty (fails (.close c)) db (.ok (), db) from rfl]
      cases hfault : fails (.close c) with
      | some e =>
          refine unified_raises e fun hall => ?_
          rw [hall c rfl] at hfault
          cases hfault
      | none =>
          refine iff_of_true nofun fun c' hc' => ?_
          rwa [← Option.some.inj hc']

theorem unifiedIff_put (key : Str) (data : Bytes) :
    b.UnifiedIff fails conn db (.put key data) := by
  show wp _ ((b.put key data).bind fun _ => .pure Value.none) _ _ _
  unfold put
  rw [wp_bind, bind_eq, wp_bind]
  apply wp_query
  · exact fun h => iff_of_true nofun h
  · exact fun e _ _ h => unified_raises e h

/-- A key without a row is the only error of `get`. -/
theorem unifiedIff_get (key : Str) : b.UnifiedIff fails conn db (.get key) := by
  show wp _ ((b.get key).bind fun d => .pure (Value.data d)) _ _ _
  unfold get
  rw [wp_bind, bind_eq, wp_bind]
  apply wp_query
  · intro h
    rw [bindPost_ok, show b.statement (rows db) b.getSql [.text key] = _ from
      lookup_get b (rows db) key]
    cases hkey : (rows db).get? key with
    | none =>
        have hno : ¬ Stored db key := Dict.get?_eq_none_iff.mp hkey
        exact iff_of_true ⟨.inl rfl, hno⟩ h
    | some d =>
        refine iff_of_true (fun k hk => ?_) h
        obtain rfl : key = k := by grind
        by_contra hno
        rw [Dict.get?_eq_none_iff.mpr hno] at hkey
        cases hkey
  · exact fun e _ _ h => unified_raises e h

/-- So it is for `delete`, which counts the rows that it removed. -/
theorem unifiedIff_delete (key : Str) : b.UnifiedIff fails conn db (.delete key) := by
  show wp _ ((b.delete key).bind fun _ => .pure Value.none) _ _ _
  unfold delete
  rw [wp_bind, bind_eq, wp_bind]
  apply wp_query
  · intro h
    rw [bindPost_ok, show b.statement (rows db) b.deleteSql [.text key] = _ from
      lookup_delete b (rows db) key]
    by_cases hkey : key ∈ rows db
    · rw [if_pos hkey]
      refine iff_of_true (fun k hk => ?_) h
      obtain rfl : key = k := by grind
      exact hkey
    · rw [if_neg hkey]
      exact iff_of_true ⟨.inr rfl, hkey⟩ h
  · exact fun e _ _ h => unified_raises e h

theorem unifiedIff_exists (key : Str) : b.UnifiedIff fails conn db (.exists' key) := by
  show wp _ ((b.exists' key).bind fun r => .pure (Value.bool r)) _ _ _
  unfold exists'
  rw [wp_bind, bind_eq, wp_bind]
  apply wp_query
  · exact fun h => iff_of_true nofun h
  · exact fun e _ _ h => unified_raises e h

theorem unifiedIff_scan (pre : Str) : b.UnifiedIff fails conn db (.scan pre) := by
  show wp _ ((b.scan pre).collect.bind fun ks => .pure (Value.keys ks)) _ _ _
  unfold scan
  rw [wp_bind]
  dsimp only
  rw [bind_eq, collect_embed_bind, wp_bind]
  apply wp_query
  · intro h
    rw [bindPost_ok, collect_yieldAll]
    exact iff_of_true nofun h
  · exact fun e _ _ h => unified_raises e h

/-- The errors of a call are unified exactly when no driver call of it raises. -/
theorem unified_iff_faultless (b : SQLiteBlob) (fails : SqlFaults) (conn : Option Conn)
    (db : Database) (c : Call) :
    Unified (Stored db) c ((b.backend.perform c).run (b.tableDriver fails) conn db).1 ↔
      b.Faultless fails conn db c := by
  show b.UnifiedIff fails conn db c
  cases c with
  | open' => exact unifiedIff_open
  | close => exact unifiedIff_close
  | put key data => exact unifiedIff_put key data
  | get key => exact unifiedIff_get key
  | delete key => exact unifiedIff_delete key
  | exists' key => exact unifiedIff_exists key
  | scan pre => exact unifiedIff_scan pre

end SQLiteBlob

/-- **The errors of the file and the SQLite backend are unified exactly while nothing is raised below
them**: for the file backend that is no `OSError` but `FileNotFoundError` of a key that is not
stored, and for the SQLite backend no `sqlite3.Error`. -/
theorem errors_unified_iff (f : FileBlob) (errors : File.Faults) (t : File.Disk) (q : SQLiteBlob)
    (fails : SqlFaults) (conn : Option Conn) (db : Database) (c : Call) :
    ('\x00' ∉ FileBlob.argument c →
        (Unified (f.Stored t) c ((f.backend.perform c).run (File.faultyDisk errors) () t).1 ↔
          f.Faultless errors t c)) ∧
      (Unified (SQLiteBlob.Stored db) c
          ((q.backend.perform c).run (q.tableDriver fails) conn db).1 ↔
        q.Faultless fails conn db c) :=
  ⟨f.unified_iff_faultless errors t c, q.unified_iff_faultless fails conn db c⟩

/-- `SQLiteBlob("d", "b", "k", "v")`. -/
def SQLiteBlob.sample : SQLiteBlob :=
  ⟨['d'], ⟨['b'], Eq.refl true⟩, ⟨['k'], Eq.refl true⟩, ⟨['v'], Eq.refl true⟩, 5000⟩

/-- `get("a")` on a directory without files. -/
theorem errors_unified_iff_get : Unified (FileBlob.sample.Stored FileBlob.sampleDisk) (.get ['a'])
    ((FileBlob.sample.backend.perform (.get ['a'])).run (File.faultyDisk fun _ => none) ()
      FileBlob.sampleDisk).1 := by
  refine ((errors_unified_iff FileBlob.sample (fun _ => none) FileBlob.sampleDisk
    SQLiteBlob.sample (fun _ => none) none {} (.get ['a'])).1 (by decide)).mpr fun p hp => .inl ⟨rfl, ?_⟩
  obtain rfl : [⟨['r'], by decide⟩, ⟨['a'], by decide⟩] = p :=
    Except.ok.inj ((show FileBlob.sample.resolve ['a'] = _ by decide).symm.trans hp)
  exact ⟨by decide, by decide⟩

/-- `/r/d` is a directory. -/
def FileBlob.sampleTree : File.Disk :=
  sampleDisk.insert sample.root ⟨['d'], by decide⟩ .dir (by decide) (by decide)

/-- A database that is locked by another process. -/
def lockedDatabase : SqlFaults
  | .execute _ _ _ => some "database is locked"
  | _ => none

/-- `get("d")` of a directory raises `IsADirectoryError`, and `put` on a locked database raises
`sqlite3.OperationalError`. -/
theorem not_errors_unified :
    ¬ Unified (FileBlob.sample.Stored FileBlob.sampleTree) (.get ['d'])
        ((FileBlob.sample.backend.perform (.get ['d'])).run (File.faultyDisk fun _ => none) ()
          FileBlob.sampleTree).1 ∧
      ¬ Unified (SQLiteBlob.Stored ⟨1, some .empty⟩) (.put ['a'] [1])
        ((SQLiteBlob.sample.backend.perform (.put ['a'] [1])).run
          (SQLiteBlob.sample.tableDriver lockedDatabase) (some 0) ⟨1, some .empty⟩).1 := by
  have hfile : ((FileBlob.sample.backend.perform (.get ['d'])).run (File.faultyDisk fun _ => none)
      () FileBlob.sampleTree).1 = .error (.osError .isADirectory) := by decide
  have hsqlite : ((SQLiteBlob.sample.backend.perform (.put ['a'] [1])).run
      (SQLiteBlob.sample.tableDriver lockedDatabase) (some 0) ⟨1, some .empty⟩).1 =
        .error (.sqliteError "database is locked") := rfl
  rw [hfile, hsqlite]
  exact ⟨id, id⟩

end GufoBlob
