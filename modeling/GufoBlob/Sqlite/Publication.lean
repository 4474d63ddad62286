import GufoBlob.Sqlite.Blob
import GufoBlob.Interaction.Threads

/-!
# Publication of the SQLite connection

Any number of callers use one fresh `SQLiteBlob`, in any interleaving, on a driver that never fails.
`connection` publishes `_conn` before it has executed the PRAGMAs and `iter_init_sql` on it, and its
hot path takes no lock; a caller that reads `_conn` in between gets a connection without the table.

* `EarlyRead` — that read: made without the lock, of a connection still being initialised.
* `publication_safe` — in every run without early reads, `connection` returns initialised
  connections only, `sqlite3.connect` is called once, and no query runs before the table exists.

The proof is by rely-guarantee. The holder of the lock is the only one that touches `_conn` or a
connection that is not initialised (`discipline`), and `Phase` lists the forms of the shared state.
-/

namespace GufoBlob

open Text Interaction

namespace SQLiteBlob

/-! ## The driver -/

/-- The lock's owner, the number of connections made, and every statement executed, oldest first. -/
structure Db (ι : Type) where
  lock : Option ι := none
  connects : Nat := 0
  log : List (Conn × Str) := []

/-- What the statements return: any function of the history. -/
abbrev Rows := List (Conn × Str) → Conn → Str → List SqlValue → Cursor

variable {ι : Type}

/-- A lock that makes its callers wait, and a driver that never fails. -/
def driver (rows : Rows) : Shared sqlite ι (Db ι)
  | i, w, .acquire => match w.lock with
      | none => some ((), { w with lock := some i })
      | some _ => none
  | _, w, .release => some ((), { w with lock := none })
  | _, w, .connect _ => some (.ok w.connects, { w with connects := w.connects + 1 })
  | _, w, .execute c sql params =>
      some (.ok (rows w.log c sql params), { w with log := w.log ++ [(c, sql)] })
  | _, w, .close _ => some (.ok (), w)

/-- The statements executed on a connection. -/
def executed (log : List (Conn × Str)) (c : Conn) : List Str :=
  (log.filter fun e => e.1 = c).map Prod.snd

/-- The PRAGMAs and the statements of `iter_init_sql`. -/
def initSql (b : SQLiteBlob) : List Str := b.pragmas ++ b.iterInitSql

/-- All of them were the first statements on the connection. -/
def Initialised (b : SQLiteBlob) (log : List (Conn × Str)) (c : Conn) : Prop :=
  b.initSql <+: executed log c

instance (b : SQLiteBlob) (log : List (Conn × Str)) (c : Conn) : Decidable (b.Initialised log c) :=
  inferInstanceAs (Decidable (_ <+: _))

/-- The statements of the operations. -/
def queries (b : SQLiteBlob) : List Str := [b.putSql, b.getSql, b.deleteSql, b.existsSql, b.scanSql]

/-! ## The callers -/

/-- What a caller does with the blob: it takes the connection, or calls a method other than
`close`. -/
inductive Access where
  | connection
  | use (c : Call) (h : c ≠ .close)
  deriving DecidableEq

/-- What it gets. -/
inductive Got where
  | conn (c : Option Conn)
  | value (v : Value)
  deriving DecidableEq

def access (b : SQLiteBlob) : Access → SqliteProg Got
  | .connection => b.connection.bind fun c => .pure (.conn c)
  | .use c _ => (b.backend.perform c).bind fun v => .pure (.value v)

abbrev Callers (ι : Type) := Config sqlite (Option Conn) PyExc Got Access ι (Db ι)

/-- The next step of the caller `i` reads `_conn` without holding the lock, and finds a connection
that is not initialised yet. -/
def EarlyRead (b : SQLiteBlob) (cfg : Callers ι) (i : ι) : Prop :=
  (cfg.threads i).reads = true ∧ cfg.world.lock ≠ some i ∧
    ∃ c ∈ cfg.state, ¬ b.Initialised cfg.world.log c

instance [DecidableEq ι] (b : SQLiteBlob) (cfg : Callers ι) (i : ι) : Decidable (b.EarlyRead cfg i) :=
  inferInstanceAs (Decidable (_ ∧ _ ∧ _))

/-! ## The discipline of the callers -/

/-- Statements on the only connection. -/
def onFirst (sqls : List Str) : List (Conn × Str) := sqls.map (Prod.mk 0)

@[simp] theorem executed_onFirst (sqls : List Str) : executed (onFirst sqls) 0 = sqls := by
  induction sqls with
  | nil => rfl
  | cons q qs ih =>
      show q :: executed (onFirst qs) 0 = _
      rw [ih]

theorem onFirst_append (sqls : List Str) (q : Str) :
    onFirst sqls ++ [(0, q)] = onFirst (sqls ++ [q]) := by
  simp [onFirst]

/-- The shared state while the holder `i` of the lock has executed `sqls` on the connection. -/
abbrev filling (i : ι) (sqls : List Str) : Option Conn × Db ι := (some 0, ⟨some i, 1, onFirst sqls⟩)

/-- The connection is published and initialised. -/
def Ready (b : SQLiteBlob) (x : Option Conn × Db ι) : Prop :=
  ∃ lock sqls, b.initSql <+: sqls ∧ x = (some 0, ⟨lock, 1, onFirst sqls⟩)

/-- The forms that the shared state goes through. -/
inductive Phase (b : SQLiteBlob) : Option Conn × Db ι → Prop where
  | fresh (lock : Option ι) : Phase b (none, ⟨lock, 0, []⟩)
  | connected (i : ι) : Phase b (none, ⟨some i, 1, []⟩)
  | filling (i : ι) (sqls : List Str) (h : sqls <+: b.initSql) : Phase b (filling i sqls)
  | ready {x : Option Conn × Db ι} (h : Ready b x) : Phase b x

/-- What the caller `i` sees of the others: whether it holds the lock does not change, and while it
does nothing changes until the connection is ready. -/
def Rely (b : SQLiteBlob) (i : ι) (x y : Option Conn × Db ι) : Prop :=
  Phase b x → (Phase b y ∧ (Ready b x → Ready b y)) ∧
    (y.2.lock = some i ↔ x.2.lock = some i) ∧ (x.2.lock = some i → Ready b x ∨ y = x)

/-- What the steps of the caller `i` do. -/
def Guarantee (b : SQLiteBlob) (i : ι) (x y : Option Conn × Db ι) : Prop :=
  Phase b x → (Phase b y ∧ (Ready b x → Ready b y)) ∧ ∀ j, i ≠ j →
    (y.2.lock = some j ↔ x.2.lock = some j) ∧ (x.2.lock = some j → Ready b x ∨ y = x)

/-- Only the holder of the lock touches a connection that is not ready. -/
def discipline (b : SQLiteBlob) : Discipline ι (Option Conn) (Db ι) where
  rely := Rely b
  guarantee := Guarantee b
  rely_refl i x hx := ⟨⟨hx, id⟩, Iff.rfl, fun _ => .inr rfl⟩
  rely_trans i x y z hxy hyz hx := by
    obtain ⟨⟨hy, hready⟩, hlock, hsame⟩ := hxy hx
    obtain ⟨⟨hz, hready'⟩, hlock', hsame'⟩ := hyz hy
    refine ⟨⟨hz, fun h => hready' (hready h)⟩, hlock'.trans hlock, fun h => ?_⟩
    rcases hsame h with hr | rfl
    · exact .inl hr
    · exact hsame' h
  guarantee_refl i x hx := ⟨⟨hx, id⟩, fun _ _ => ⟨Iff.rfl, fun _ => .inr rfl⟩⟩
  rely_of_guarantee i j x y hij hg hx :=
    ⟨(hg hx).1, ((hg hx).2 j hij).1, ((hg hx).2 j hij).2⟩

/-- The read of the caller `i` is no early read. -/
def Timely (b : SQLiteBlob) (i : ι) (x : Option Conn × Db ι) : Prop :=
  x.2.lock ≠ some i → ∀ c ∈ x.1, b.Initialised x.2.log c

/-- Between two calls a caller does not hold the lock. -/
def Idle (b : SQLiteBlob) (i : ι) (x : Option Conn × Db ι) : Prop :=
  Phase b x ∧ x.2.lock ≠ some i

theorem Idle.rely {b : SQLiteBlob} {i : ι} {x y : Option Conn × Db ι} (hx : Idle b i x)
    (hxy : Rely b i x y) : Idle b i y :=
  ⟨(hxy hx.1).1.1, fun h => hx.2 ((hxy hx.1).2.1.mp h)⟩

/-- A timely read without the lock finds no connection, or one that is ready. -/
theorem Idle.ready_of_timely {b : SQLiteBlob} {i : ι} {x : Option Conn × Db ι} (hx : Idle b i x)
    (ht : Timely b i x) (hc : x.1 ≠ none) : Ready b x := by
  obtain ⟨hphase, hlock⟩ := hx
  cases hphase with
  | fresh lock => exact absurd rfl hc
  | connected j => exact absurd rfl hc
  | filling j sqls h =>
      have hinit : b.initSql <+: executed (onFirst sqls) 0 := ht hlock 0 rfl
      rw [executed_onFirst] at hinit
      exact ⟨some j, sqls, hinit, rfl⟩
  | ready h => exact h

theorem Ready.conn {b : SQLiteBlob} {x : Option Conn × Db ι} (hx : Ready b x) : x.1 = some 0 := by
  obtain ⟨lock, sqls, h, rfl⟩ := hx
  rfl

/-! ## The calls keep it -/

section Calls

variable {b : SQLiteBlob} {rows : Rows} {i : ι} {x : Option Conn × Db ι}

/-- The proof obligation of a program of the caller `i`. -/
abbrev Keeps {α : Type} (b : SQLiteBlob) (rows : Rows) (i : ι) (p : SqliteProg α)
    (Q : Outcome PyExc α → Option Conn × Db ι → Prop) (x : Option Conn × Db ι) : Prop :=
  (discipline b).Keeps (driver rows) i (Timely b i) p Q x

/-- The connection is ready, and the caller `i` holds the lock. -/
def Held (b : SQLiteBlob) (i : ι) (x : Option Conn × Db ι) : Prop :=
  Ready b x ∧ x.2.lock = some i

theorem Held.rely (hx : Held b i x) {y : Option Conn × Db ι} (hxy : Rely b i x y) : Held b i y :=
  ⟨(hxy (.ready hx.1)).1.2 hx.1, (hxy (.ready hx.1)).2.1.mpr hx.2⟩

/-- The caller `i` holds the lock and has executed `sqls`, or more than is needed. -/
def Filled (b : SQLiteBlob) (i : ι) (sqls : List Str) (x : Option Conn × Db ι) : Prop :=
  x = filling i sqls ∨ Held b i x

theorem Filled.phase {sqls : List Str} (hx : Filled b i sqls x) (h : sqls <+: b.initSql) :
    Phase b x := by
  rcases hx with rfl | ⟨hr, -⟩
  · exact .filling i sqls h
  · exact .ready hr

theorem Filled.rely {sqls : List Str} (hx : Filled b i sqls x) (h : sqls <+: b.initSql)
    {y : Option Conn × Db ι} (hxy : Rely b i x y) : Filled b i sqls y := by
  have hphase := hx.phase h
  rcases hx with rfl | hr
  · rcases (hxy hphase).2.2 rfl with hr | rfl
    · exact .inr (Held.rely ⟨hr, rfl⟩ hxy)
    · exact .inl rfl
  · exact .inr (hr.rely hxy)

theorem Ready.executed {q : Str} (hx : Ready b x) :
    Ready b (x.1, { x.2 with log := x.2.log ++ [(0, q)] }) := by
  obtain ⟨lock, sqls, h, rfl⟩ := hx
  exact ⟨lock, sqls ++ [q], h.trans (List.prefix_append sqls [q]), by rw [← onFirst_append]⟩

/-- One statement of the initialisation. -/
theorem keeps_executeConn {sqls : List Str} {q : Str} (hx : Filled b i sqls x)
    (h : sqls ++ [q] <+: b.initSql) :
    Keeps b rows i (executeConn q) (fun o y => o = .ok () ∧ Filled b i (sqls ++ [q]) y) x := by
  have hsqls : sqls <+: b.initSql := (List.prefix_append sqls [q]).trans h
  intro y hxy _
  have hy := hx.rely hsqls hxy
  have hconn : y.1 = some 0 := by
    rcases hy with rfl | ⟨hr, -⟩
    · rfl
    · exact hr.conn
  rw [hconn]
  intro z hyz r hr
  have hz := hy.rely hsqls hyz
  obtain rfl : r = (.ok _, _) := (Option.some.inj hr).symm
  have hnext : Filled b i (sqls ++ [q]) (z.1, { z.2 with log := z.2.log ++ [(0, q)] }) := by
    rcases hz with rfl | ⟨hready, hlock⟩
    · left
      show ((some 0, ⟨some i, 1, onFirst sqls ++ [(0, q)]⟩) : Option Conn × Db ι) = _
      rw [onFirst_append]
    · exact .inr ⟨hready.executed, hlock⟩
  refine ⟨fun _ => ⟨⟨hnext.phase h, Ready.executed⟩, fun j hij => ⟨Iff.rfl, fun hlock => ?_⟩⟩, ?_⟩
  · -- nobody else holds the lock
    rcases hz with rfl | ⟨-, hown⟩
    · exact absurd (Option.some.inj hlock) hij
    · exact absurd (Option.some.inj (hown.symm.trans hlock)) hij
  · exact fun u hu => ⟨rfl, hnext.rely h hu⟩

/-- A list of statements of the initialisation. -/
theorem keeps_forEach (qs : List Str) {sqls : List Str} (hx : Filled b i sqls x)
    (h : sqls ++ qs <+: b.initSql) :
    Keeps b rows i (Program.forEach qs executeConn)
      (fun o y => o = .ok () ∧ Filled b i (sqls ++ qs) y) x := by
  induction qs generalizing sqls x with
  | nil =>
      rw [List.append_nil] at h ⊢
      exact fun y hy => ⟨rfl, hx.rely h hy⟩
  | cons q qs ih =>
      rw [List.append_cons] at h ⊢
      have hq : sqls ++ [q] <+: b.initSql := (List.prefix_append _ qs).trans h
      refine Discipline.keeps_bind (Discipline.keeps_mono (keeps_executeConn hx hq) ?_)
      rintro o y ⟨rfl, hy⟩
      exact ih hy h

/-- The caller `i` holds the lock of a blob that nobody has connected yet, or of one that is
ready. -/
def Acquired (b : SQLiteBlob) (i : ι) (x : Option Conn × Db ι) : Prop :=
  x = (none, ⟨some i, 0, []⟩) ∨ Held b i x

theorem Acquired.phase (hx : Acquired b i x) : Phase b x := by
  rcases hx with rfl | ⟨hr, -⟩
  · exact .fresh (some i)
  · exact .ready hr

theorem Acquired.rely (hx : Acquired b i x) {y : Option Conn × Db ι} (hxy : Rely b i x y) :
    Acquired b i y := by
  have hphase := hx.phase
  rcases hx with rfl | hr
  · rcases (hxy hphase).2.2 rfl with hr | rfl
    · exact .inr (Held.rely ⟨hr, rfl⟩ hxy)
    · exact .inl rfl
  · exact .inr (hr.rely hxy)

theorem keeps_acquire (hx : Idle b i x) :
    Keeps b rows i Driver.acquire (fun o y => o = .ok () ∧ Acquired b i y) x := by
  intro y hxy r hr
  obtain ⟨hphase, -⟩ := hx.rely hxy
  obtain ⟨conn, lock, connects, log⟩ := y
  match lock with
  | some j => cases hr
  | none =>
      obtain rfl : r = ((), _) := (Option.some.inj hr).symm
      have hnext : Acquired b i (conn, ⟨some i, connects, log⟩) := by
        cases hphase with
        | fresh lock => exact .inl rfl
        | ready h =>
            obtain ⟨lock, sqls, hinit, heq⟩ := h
            obtain ⟨rfl, -, rfl, rfl⟩ : conn = some 0 ∧ none = lock ∧ connects = 1 ∧ log = _ := by
              simpa using heq
            exact .inr ⟨⟨some i, sqls, hinit, rfl⟩, rfl⟩
      refine ⟨fun _ => ⟨⟨hnext.phase, fun hready => ?_⟩, fun j hij => ⟨?_, ?_⟩⟩, ?_⟩
      · obtain ⟨lock, sqls, hinit, heq⟩ := hready
        obtain ⟨rfl, -, rfl, rfl⟩ : conn = some 0 ∧ none = lock ∧ connects = 1 ∧ log = _ := by
          simpa using heq
        exact ⟨some i, sqls, hinit, rfl⟩
      · show some i = some j ↔ none = some j
        simp [hij]
      · simp
      · exact fun z hz => ⟨rfl, hnext.rely hz⟩

/-- The connection is ready, and the caller does not hold the lock. -/
def Free (b : SQLiteBlob) (i : ι) (x : Option Conn × Db ι) : Prop := Idle b i x ∧ Ready b x

theorem Free.rely (hx : Free b i x) {y : Option Conn × Db ι} (hxy : Rely b i x y) : Free b i y :=
  ⟨hx.1.rely hxy, (hxy hx.1.1).1.2 hx.2⟩

/-- Releasing the lock of a connection that is ready. -/
theorem keeps_release {α : Type} (hx : Held b i x) (a : α) :
    Keeps b rows i (Driver.release.bind fun _ => .pure a) (fun o y => o = .ok a ∧ Free b i y) x := by
  intro y hxy r hres
  obtain ⟨hr, hown⟩ := hx.rely hxy
  obtain rfl : r = ((), _) := (Option.some.inj hres).symm
  have hnext : Free b i (y.1, { y.2 with lock := none }) := by
    obtain ⟨lock, sqls, hinit, rfl⟩ := hr
    have hready : Ready b (some 0, (⟨none, 1, onFirst sqls⟩ : Db ι)) := ⟨none, sqls, hinit, rfl⟩
    exact ⟨⟨.ready hready, fun h => nomatch h⟩, hready⟩
  refine ⟨fun _ => ⟨⟨hnext.1.1, fun _ => hnext.2⟩, fun j hij => ⟨?_, ?_⟩⟩, ?_⟩
  · rw [hown]
    show none = some j ↔ some i = some j
    simp [hij]
  · exact fun h => absurd (Option.some.inj (hown.symm.trans h)) hij
  · exact fun z hz => ⟨rfl, hnext.rely hz⟩

/-- Before the connection is published the holder of the lock is alone. -/
theorem Rely.eq_of_none {w : Db ι} {y : Option Conn × Db ι} (h : Rely b i (none, w) y)
    (hphase : Phase b (none, w)) (hlock : w.lock = some i) : y = (none, w) := by
  rcases (h hphase).2.2 hlock with ⟨_, _, _, heq⟩ | heq
  · cases (Prod.mk.inj heq).1
  · exact heq

theorem Filled.held (hx : Filled b i b.initSql x) : Held b i x := by
  rcases hx with rfl | h
  · exact ⟨⟨some i, b.initSql, List.prefix_refl _, rfl⟩, rfl⟩
  · exact h

/-- The assignment of `_conn` and the initialisation that follows it. -/
theorem keeps_publish :
    Keeps b rows i (do
      Program.write (some 0)
      Program.forEach b.pragmas executeConn
      Program.forEach b.iterInitSql executeConn
      Program.read) (fun o y => o = .ok (some 0) ∧ Held b i y) (none, ⟨some i, 1, []⟩) := by
  intro y hxy
  obtain rfl := Rely.eq_of_none hxy (.connected i) rfl
  have hstart : Filled b i [] (filling i []) := .inl rfl
  refine ⟨fun _ => ⟨⟨.filling i [] List.nil_prefix, ?_⟩, fun j hij => ⟨Iff.rfl, ?_⟩⟩, ?_⟩
  · rintro ⟨_, _, _, heq⟩
    cases (Prod.mk.inj heq).1
  · exact fun h => absurd (Option.some.inj h) hij
  · show Keeps b rows i ((Program.forEach b.pragmas executeConn).bind fun _ =>
      (Program.forEach b.iterInitSql executeConn).bind fun _ => Program.read) _ (filling i [])
    refine Discipline.keeps_bind (Discipline.keeps_mono
      (keeps_forEach b.pragmas hstart (List.prefix_append b.pragmas b.iterInitSql)) ?_)
    rintro o z ⟨rfl, hz⟩
    refine Discipline.keeps_bind (Discipline.keeps_mono
      (keeps_forEach b.iterInitSql hz (List.prefix_refl b.initSql)) ?_)
    rintro o u ⟨rfl, hu⟩ v huv _
    have hv : Held b i v := hu.held.rely huv
    rw [hv.1.conn]
    exact fun t ht => ⟨rfl, hv.rely ht⟩

/-- The body of `connection` under the lock leaves a connection that is ready. -/
theorem keeps_connectLocked (hx : Acquired b i x) :
    Keeps b rows i b.connectLocked (fun o y => o = .ok (some 0) ∧ Held b i y) x := by
  intro y hxy _
  rcases hx.rely hxy with rfl | hy
  · -- nobody has connected: `sqlite3.connect`
    intro z hyz r hres
    obtain rfl := Rely.eq_of_none hyz (.fresh (some i)) rfl
    obtain rfl : r = (.ok 0, _) := (Option.some.inj hres).symm
    refine ⟨fun _ => ⟨⟨.connected i, ?_⟩, fun j hij => ⟨Iff.rfl, ?_⟩⟩, keeps_publish⟩
    · rintro ⟨_, _, _, heq⟩
      cases (Prod.mk.inj heq).1
    · exact fun h => absurd (Option.some.inj h) hij
  · -- another caller has connected meanwhile
    rw [hy.1.conn]
    intro z hyz _
    have hz := hy.rely hyz
    rw [hz.1.conn]
    exact fun u hu => ⟨rfl, hz.rely hu⟩

/-- A caller whose reads are timely gets a connection that is ready. -/
theorem keeps_connection (hx : Idle b i x) :
    Keeps b rows i b.connection (fun o y => o = .ok (some 0) ∧ Free b i y) x := by
  intro y hxy htimely
  have hy := hx.rely hxy
  cases hconn : y.1 with
  | some c =>
      -- hot path
      have hfree : Free b i y := ⟨hy, hy.ready_of_timely htimely (by simp [hconn])⟩
      intro z hyz _
      have hz := hfree.rely hyz
      rw [hz.2.conn]
      exact fun u hu => ⟨rfl, hz.rely hu⟩
  | none =>
      show Keeps b rows i (withConnLock b.connectLocked) _ y
      refine Discipline.keeps_bind (Discipline.keeps_mono (keeps_acquire hy) ?_)
      rintro o z ⟨rfl, hz⟩
      refine Discipline.keeps_tryFinally (Discipline.keeps_mono (keeps_connectLocked hz) ?_)
      rintro o u ⟨rfl, hu⟩
      exact keeps_release hu (some 0)

/-- A statement of an operation runs on a connection that is ready. -/
theorem keeps_query (q : Str) (params : List SqlValue) (hx : Idle b i x) :
    Keeps b rows i (b.query q params) (fun o y => (∃ c, o = .ok c) ∧ Free b i y) x := by
  refine Discipline.keeps_bind (Discipline.keeps_mono (keeps_connection hx) ?_)
  rintro o y ⟨rfl, hy⟩ z hyz r hres
  have hz := hy.rely hyz
  obtain rfl : r = (.ok _, _) := (Option.some.inj hres).symm
  have hready : Ready b (z.1, { z.2 with log := z.2.log ++ [(0, q)] }) := hz.2.executed
  have hnext : Free b i (z.1, { z.2 with log := z.2.log ++ [(0, q)] }) :=
    ⟨⟨.ready hready, hz.1.2⟩, hready⟩
  refine ⟨fun _ => ⟨⟨.ready hready, fun _ => hready⟩, fun j _ => ⟨Iff.rfl, ?_⟩⟩, ?_⟩
  · exact fun _ => .inl hz.2
  · exact fun u hu => ⟨⟨_, rfl⟩, hnext.rely hu⟩

/-- What follows a statement in an operation touches nothing shared. -/
theorem keeps_operation {α : Type} {q : Str} {params : List SqlValue} {f : Cursor → SqliteProg α}
    (hf : ∀ c, (∃ a, f c = .pure a) ∨ ∃ e, f c = .raise e) (hx : Idle b i x) :
    Keeps b rows i ((b.query q params).bind f) (fun _ y => Free b i y) x := by
  refine Discipline.keeps_bind (Discipline.keeps_mono (keeps_query q params hx) ?_)
  rintro o y ⟨⟨c, rfl⟩, hy⟩
  rcases hf c with ⟨a, ha⟩ | ⟨e, he⟩
  · show Keeps b rows i (f c) _ y
    rw [ha]
    exact fun z hz => hy.rely hz
  · show Keeps b rows i (f c) _ y
    rw [he]
    exact fun z hz => hy.rely hz

/-- Wrapping the result up. -/
theorem keeps_map {α γ : Type} {p : SqliteProg α} (f : α → γ)
    (hp : Keeps b rows i p (fun _ y => Free b i y) x) :
    Keeps b rows i (p.bind fun a => .pure (f a)) (fun _ y => Free b i y) x := by
  refine Discipline.keeps_bind (Discipline.keeps_mono hp ?_)
  intro o y hy
  match o with
  | .ok a => exact fun z hz => hy.rely hz
  | .error e => exact hy
  | .spun => trivial

theorem keeps_use (c : Call) (hc : c ≠ .close) (hx : Idle b i x) :
    Keeps b rows i (b.backend.perform c) (fun _ y => Free b i y) x := by
  cases c with
  | close => exact absurd rfl hc
  | open' =>
      apply keeps_map
      apply keeps_map
      refine Discipline.keeps_mono (keeps_connection hx) ?_
      exact fun _ _ h => h.2
  | put key data =>
      apply keeps_map
      exact keeps_operation (fun c => .inl ⟨(), rfl⟩) hx
  | get key =>
      apply keeps_map
      apply keeps_operation _ hx
      intro cursor
      cases hrows : cursor.rows with
      | nil => exact .inr ⟨.keyError key, by simp⟩
      | cons v vs => exact .inl ⟨castBytes v, by simp⟩
  | delete key =>
      apply keeps_map
      apply keeps_operation _ hx
      intro cursor
      by_cases hcount : cursor.rowcount = 0
      · exact .inr ⟨.keyError key, by simp [hcount]⟩
      · exact .inl ⟨(), by simp [hcount]⟩
  | exists' key =>
      apply keeps_map
      exact keeps_operation (fun c => .inl ⟨!c.rows.isEmpty, rfl⟩) hx
  | scan pre =>
      apply keeps_map
      show Keeps b rows i (Program.collect ((b.query b.scanSql _).embed.bind _)) _ x
      rw [Program.collect_embed_bind]
      apply keeps_operation _ hx
      intro cursor
      exact .inl ⟨cursor.rows.map castText, Program.collect_yieldAll _⟩

/-- What a finished call leaves for good: a connection that is ready, and a caller of `connection`
has got it. -/
def Post (b : SQLiteBlob) (a : Access) (o : Outcome PyExc Got) (x : Option Conn × Db ι) : Prop :=
  Ready b x ∧ (a = .connection → o = .ok (.conn (some 0)))

theorem kept (b : SQLiteBlob) (rows : Rows) :
    (discipline (ι := ι) b).Kept (driver rows) b.access (Timely b) (Idle b) (Post b) where
  idle_rely _ _ _ hx hxy := hx.rely hxy
  post_guarantee _ _ _ _ _ hg hpost := ⟨(hg (.ready hpost.1)).1.2 hpost.1, hpost.2⟩
  perform_keeps i a x hx := by
    cases a with
    | connection =>
        refine Discipline.keeps_bind (Discipline.keeps_mono (keeps_connection hx) ?_)
        rintro o y ⟨rfl, hy⟩ z hyz
        exact ⟨(hy.rely hyz).1, (hy.rely hyz).2, fun _ => rfl⟩
    | use c hc =>
        refine Discipline.keeps_mono (keeps_map Got.value (keeps_use c hc hx)) ?_
        exact fun o y hy => ⟨hy.1, hy.2, by simp⟩

end Calls

/-! ## Every run -/

/-- The keyword of a query starts with its tenth character, and so does that of `CREATE TABLE`. -/
theorem tenth_of_query {b : SQLiteBlob} {q : Str} (hq : q ∈ b.queries) :
    q[9]? ∈ [some 'I', some 'S', some 'D'] := by
  have hput : b.putSql[9]? = some 'I' := by
    -- only the literal in front is evaluated
    unfold putSql
    repeat rw [List.append_assoc]
    rw [List.getElem?_append_left]
    · rfl
    · decide
  have hget : b.getSql[9]? = some 'S' := rfl
  have hdelete : b.deleteSql[9]? = some 'D' := rfl
  have hexists : b.existsSql[9]? = some 'S' := rfl
  have hscan : b.scanSql[9]? = some 'S' := rfl
  simp only [queries, List.mem_cons, List.not_mem_nil, or_false] at hq
  rcases hq with rfl | rfl | rfl | rfl | rfl
  · simp [hput]
  · simp [hget]
  · simp [hdelete]
  · simp [hexists]
  · simp [hscan]

theorem tenth_of_initSql {b : SQLiteBlob} {q : Str} (hq : q ∈ b.initSql) :
    q[9]? ∈ [some 'u', some 'n', some 's', some 'C'] := by
  simp only [initSql, pragmas, iterInitSql, List.mem_append, List.mem_cons, List.not_mem_nil,
    or_false] at hq
  rcases hq with (rfl | rfl | rfl) | rfl
  · exact .head _
  · exact .tail _ (.head _)
  · exact .tail _ (.tail _ (.head _))
  · exact .tail _ (.tail _ (.tail _ (.head _)))

/-- A query is never one of the statements of the initialisation. -/
theorem query_notMem_initSql {b : SQLiteBlob} {q : Str} (hq : q ∈ b.queries) : q ∉ b.initSql := by
  intro hinit
  have h := tenth_of_query hq
  have h' := tenth_of_initSql hinit
  generalize q[9]? = t at h h'
  simp only [List.mem_cons, List.not_mem_nil, or_false] at h h'
  rcases h with rfl | rfl | rfl <;> simp at h'

theorem executed_onFirst_of_ne (sqls : List Str) {c : Conn} (hc : c ≠ 0) :
    executed (onFirst sqls) c = [] := by
  have hne : ∀ e ∈ onFirst sqls, ¬ (decide (e.1 = c) = true) := by
    intro e he
    obtain ⟨q, -, rfl⟩ := List.mem_map.mp he
    simpa using Ne.symm hc
  rw [executed, List.filter_eq_nil_iff.mpr hne]
  rfl

/-- On every connection the statements of the initialisation come first. -/
theorem Phase.executed_prefix {b : SQLiteBlob} {x : Option Conn × Db ι} (hx : Phase b x) (c : Conn) :
    executed x.2.log c <+: b.initSql ∨ b.initSql <+: executed x.2.log c := by
  by_cases hc : c = 0
  · subst hc
    cases hx with
    | fresh lock => exact .inl List.nil_prefix
    | connected i => exact .inl List.nil_prefix
    | filling i sqls h => exact .inl (by rw [executed_onFirst]; exact h)
    | ready h =>
        obtain ⟨lock, sqls, hinit, rfl⟩ := h
        exact .inr (by rw [executed_onFirst]; exact hinit)
  · left
    cases hx with
    | fresh lock => exact List.nil_prefix
    | connected i => exact List.nil_prefix
    | filling i sqls h => exact executed_onFirst_of_ne sqls hc ▸ List.nil_prefix
    | ready h =>
        obtain ⟨lock, sqls, -, rfl⟩ := h
        exact executed_onFirst_of_ne sqls hc ▸ List.nil_prefix

/-- So a query that was executed found its connection initialised. -/
theorem Phase.initialised_of_query {b : SQLiteBlob} {x : Option Conn × Db ι} (hx : Phase b x)
    {before after : List (Conn × Str)} {c : Conn} {q : Str} (hq : q ∈ b.queries)
    (hlog : x.2.log = before ++ (c, q) :: after) : b.Initialised before c := by
  have hsplit : executed x.2.log c = executed before c ++ q :: executed after c := by
    simp [hlog, executed]
  have hnot := query_notMem_initSql hq
  rcases hx.executed_prefix c with h | h
  · exact absurd (h.subset (by simp [hsplit])) hnot
  · have hupto : executed before c ++ [q] <+: executed x.2.log c :=
      ⟨executed after c, by simp [hsplit]⟩
    rcases List.prefix_or_prefix_of_prefix h hupto with h | h
    · rcases List.prefix_concat_iff.mp h with h | h
      · exact absurd (by simp [h]) hnot
      · exact h
    · exact absurd (h.subset (by simp)) hnot

theorem Phase.connects_le {b : SQLiteBlob} {x : Option Conn × Db ι} (hx : Phase b x) :
    x.2.connects ≤ 1 := by
  cases hx with
  | fresh lock => exact Nat.zero_le 1
  | connected i => exact Nat.le_refl 1
  | filling i sqls h => exact Nat.le_refl 1
  | ready h =>
      obtain ⟨lock, sqls, -, rfl⟩ := h
      exact Nat.le_refl 1

/-- The configurations of a run without early reads that starts with a fresh blob. -/
abbrev TimelyRun [DecidableEq ι] (b : SQLiteBlob) (rows : Rows) (todo : ι → List Access)
    (cfg : Callers ι) : Prop :=
  Config.Reaches b.access (driver rows) (fun cfg i => ¬ b.EarlyRead cfg i) (.start todo none {}) cfg

/-- In every run without early reads, every caller of `connection` gets a connection on which all
statements of the initialisation have been executed, `sqlite3.connect` is called at most once, and
exactly once when a call has ended, and every query that was executed found its connection
initialised. -/
theorem publication_safe [DecidableEq ι] (b : SQLiteBlob) (rows : Rows) (todo : ι → List Access)
    {cfg : Callers ι} (hrun : TimelyRun b rows todo cfg) :
    (∀ i o, (Access.connection, o) ∈ (cfg.threads i).done →
      ∃ c, o = .ok (.conn (some c)) ∧ b.Initialised cfg.world.log c) ∧
    cfg.world.connects ≤ 1 ∧
    (∀ i, (cfg.threads i).done ≠ [] → cfg.world.connects = 1) ∧
    ∀ before c q after, q ∈ b.queries → cfg.world.log = before ++ (c, q) :: after →
      b.Initialised before c := by
  have hok : ∀ (cfg : Callers ι) i, ¬ b.EarlyRead cfg i → (cfg.threads i).reads = true →
      Timely b i (cfg.state, cfg.world) := by
    intro cfg i hearly hreads hlock c hc
    by_contra hinit
    exact hearly ⟨hreads, hlock, c, hc, hinit⟩
  obtain ⟨hthreads, hphase⟩ := Discipline.reaches_invariant (kept b rows) hok
    (J := Phase b) (fun i x y hg hx => (hg hx).1.1)
    (fun i => ⟨.fresh none, fun h => nomatch h⟩) (.fresh none) hrun
  refine ⟨fun i o ho => ?_, hphase.connects_le, fun i hne => ?_, fun before c q after hq hlog => ?_⟩
  · obtain ⟨hready, hconn⟩ := (hthreads i).2 _ ho
    obtain ⟨lock, sqls, hinit, heq⟩ := hready
    obtain ⟨-, hworld⟩ := Prod.mk.inj heq
    refine ⟨0, hconn rfl, ?_⟩
    rw [hworld, Initialised, executed_onFirst]
    exact hinit
  · obtain ⟨r, hr⟩ := List.exists_mem_of_ne_nil _ hne
    obtain ⟨⟨lock, sqls, -, heq⟩, -⟩ := (hthreads i).2 r hr
    obtain ⟨-, hworld⟩ := Prod.mk.inj heq
    rw [hworld]
  · exact hphase.initialised_of_query hq hlog

/-- The blob `SQLiteBlob("db")` with the default names. -/
def example₀ : SQLiteBlob := ⟨['d'], ⟨['b'], rfl⟩, ⟨['k'], rfl⟩, ⟨['v'], rfl⟩, 5000⟩

/-- A driver whose statements return nothing. -/
def noRows : Rows := fun _ _ _ _ => ⟨[], 0⟩

/-- One caller after the other: 17 steps that connect, and 4 on the hot path. -/
def sequential : Option (Callers Bool) :=
  Config.runSchedule example₀.access (driver noRows) (fun cfg i => ¬ example₀.EarlyRead cfg i)
    (List.replicate 17 false ++ List.replicate 4 true) (.start (fun _ => [.connection]) none {})

theorem sequential_isSome : sequential.isSome = true := by decide +kernel

theorem publication_safe_sequential :
    TimelyRun example₀ noRows (fun _ => [.connection]) (sequential.get sequential_isSome) ∧
      ((sequential.get sequential_isSome).threads true).done =
        [(.connection, .ok (.conn (some 0)))] ∧
      (sequential.get sequential_isSome).world.connects = 1 := by
  have hrun := Config.reaches_of_runSchedule _ (Option.some_get sequential_isSome).symm
  have hdone : ((sequential.get sequential_isSome).threads true).done =
      [(.connection, .ok (.conn (some 0)))] := by decide +kernel
  obtain ⟨-, -, hone, -⟩ := publication_safe example₀ noRows _ hrun
  exact ⟨hrun, hdone, hone true (by simp [hdone])⟩

/-- The second caller tests `_conn` right after the first one has assigned it, takes the connection
and runs its `put`. -/
def early : Option (Callers Bool) :=
  Config.runSchedule example₀.access (driver noRows) (fun _ _ => True)
    (List.replicate 6 false ++ List.replicate 9 true)
    (.start (fun _ => [.connection, .use (.put ['a'] [1]) nofun]) none {})

theorem early_isSome : early.isSome = true := by decide +kernel

/-- It gets a connection without any initialisation, on which the table does not exist. -/
theorem connection_early :
    Config.Reaches example₀.access (driver noRows) (fun _ _ => True)
        (.start (fun _ => [.connection, .use (.put ['a'] [1]) nofun]) none {})
        (early.get early_isSome) ∧
      (Access.connection, .ok (.conn (some 0))) ∈
        ((early.get early_isSome).threads true).done ∧
      ¬ example₀.Initialised (early.get early_isSome).world.log 0 ∧
      (early.get early_isSome).world.log = [(0, example₀.putSql)] := by
  refine ⟨Config.reaches_of_runSchedule _ (Option.some_get early_isSome).symm, ?_, ?_, ?_⟩
  · have hhead : ((early.get early_isSome).threads true).done.head? =
        some (.connection, .ok (.conn (some 0))) := by rfl
    exact List.mem_of_head? hhead
  · decide +kernel
  · decide +kernel

end SQLiteBlob

end GufoBlob
