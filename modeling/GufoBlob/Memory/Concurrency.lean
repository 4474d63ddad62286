import GufoBlob.Memory.Limits
import GufoBlob.Interaction.Locks

/-!
# The memory backend with many callers

Any number of callers share one `MemoryBlob`. Every method does its work under `_data_lock`
(`perform_guarded`), so that calls that overlap have the results that they have in some order one
after the other. What a method reads in a row (the old value and all that `_check_limits` looks at, or
the keys one by one) is one step of the caller; every write and every step of the lock is one by
itself. A task of an event loop gives way only where it has to wait; its runs are among the runs of
threads, so that both classes are covered.

* `calls_linearizable` — every history is linearizable, and the limits hold whenever nobody is inside
  a method.
* `calls_finish` — no caller is ever locked out.
-/

namespace GufoBlob

open Text Data Interaction

/-- `_data_lock`, for any number of callers. -/
def dataLock {ι : Type} : Shared locking ι (Option ι)
  | i, w, .acquire => match w with
      | none => some ((), some i)
      | some _ => none
  | _, _, .release => some ((), none)

namespace MemoryBlob

variable {ι : Type}

theorem mutex_dataLock :
    Mutex (ι := ι) dataLock uncontended LockOp.acquire LockOp.release id where
  acquire i w r hr := by
    cases w with
    | none =>
        obtain rfl := Option.some.inj hr
        exact ⟨rfl, rfl⟩
    | some j => cases hr
  release i w r hr := by
    obtain rfl := Option.some.inj hr
    rfl
  free i w hw := by
    cases w with
    | none => rfl
    | some j => cases hw
  held i w _ := rfl
  answers i w o r _ := rfl

/-! ## The form of the methods -/

section Forms

variable {α : Type}

theorem guarded_withLock {p : Program locking MemoryBlob PyExc α} (hp : p.Local) :
    (withLock p).Guarded LockOp.acquire LockOp.release :=
  ⟨rfl, fun _ => Program.inside_tryFinally hp fun _ => rfl⟩

theorem local_read : (Program.read : Program locking MemoryBlob PyExc MemoryBlob).Local :=
  fun _ => trivial

theorem local_modify (f : MemoryBlob → MemoryBlob) :
    (Program.modify f : Program locking MemoryBlob PyExc Unit).Local := fun _ => trivial

theorem local_getItem (key : Str) : (getItem key).Local := by
  refine Program.local_bind local_read fun b => ?_
  cases b.data.get? key <;> trivial

theorem outside_reraise (key : Str) (e : PyExc) :
    (reraise key e : Program locking MemoryBlob PyExc α).Outside := by
  cases e <;> rfl

theorem local_reraise (key : Str) (e : PyExc) :
    (reraise key e : Program locking MemoryBlob PyExc α).Local := by
  cases e <;> trivial

theorem guarded_put (key : Str) (data : Bytes) :
    (put key data).Guarded LockOp.acquire LockOp.release := by
  refine guarded_withLock (Program.local_bind local_read fun b => ?_)
  refine Program.local_bind ?_ fun _ => ?_
  · cases b.checkLimits (some key) (len data) <;> trivial
  · cases b.data.get? key with
    | none => exact Program.local_bind (local_modify _) fun _ => local_modify _
    | some o => exact Program.local_bind (local_modify _) fun _ => local_modify _

theorem guarded_delete (key : Str) : (delete key).Guarded LockOp.acquire LockOp.release := by
  refine guarded_withLock (Program.local_bind ?_ fun _ => local_modify _)
  refine Program.local_tryCatch ?_ (local_reraise key)
  refine Program.local_bind (local_getItem key) fun d => ?_
  exact Program.local_bind (local_modify _) fun _ => trivial

theorem guarded_exists (key : Str) : (exists' key).Guarded LockOp.acquire LockOp.release :=
  guarded_withLock (Program.local_bind local_read fun _ => trivial)

theorem guarded_matching (pre : Str) :
    (withLock (matching pre)).Guarded LockOp.acquire LockOp.release :=
  guarded_withLock (Program.local_bind local_read fun _ => trivial)

end Forms

/-- Every call of either class takes the lock at most once, and holds it while it touches the
store. -/
theorem perform_guarded {b : BlobBase locking MemoryBlob} (hb : b ∈ backends) (c : Call) :
    (b.perform c).Guarded LockOp.acquire LockOp.release := by
  rcases List.mem_pair.mp hb with rfl | rfl
  · cases c with
    | open' => trivial
    | close => trivial
    | put key data => exact Program.guarded_bind (guarded_put key data) fun _ => rfl
    | get key =>
        refine Program.guarded_bind (Program.guarded_tryCatch ?_ (outside_reraise key)) fun _ => rfl
        exact guarded_withLock (local_getItem key)
    | delete key => exact Program.guarded_bind (guarded_delete key) fun _ => rfl
    | exists' key => exact Program.guarded_bind (guarded_exists key) fun _ => rfl
    | scan pre =>
        refine Program.guarded_bind ?_ fun _ => rfl
        show ((withLock (matching pre)).embed.bind Program.yieldAll).collect.Guarded _ _
        rw [Program.collect_embed_bind]
        refine Program.guarded_bind (guarded_matching pre) fun l => ?_
        rw [Program.collect_yieldAll]
        rfl
  · cases c with
    | open' => trivial
    | close => trivial
    | put key data => exact Program.guarded_bind (guarded_put key data) fun _ => rfl
    | get key =>
        refine Program.guarded_bind (guarded_withLock ?_) fun _ => rfl
        exact Program.local_tryCatch (local_getItem key) (local_reraise key)
    | delete key => exact Program.guarded_bind (guarded_delete key) fun _ => rfl
    | exists' key => exact Program.guarded_bind (guarded_exists key) fun _ => rfl
    | scan pre =>
        refine Program.guarded_bind ?_ fun _ => rfl
        show (Aio.MemoryBlob.scan pre).collect.Guarded _ _
        rw [Aio.MemoryBlob.scan, Aio.MemoryBlob.wrapper_eq, Aio.AsyncIterWrapper.iterate, Program.bind_eq,
          Program.collect_embed_bind, Aio.AsyncIterWrapper.anext, Program.bind_eq,
          Program.bind_assoc']
        refine Program.guarded_bind (guarded_matching pre) fun l => ?_
        -- the first element comes from `__anext__`, the others from the snapshot
        cases l with
        | nil => rfl
        | cons x l =>
            show ((Program.yieldAll l : Gen locking MemoryBlob PyExc Str Unit).collect.bind fun xs =>
              .pure (x :: xs)).Outside
            rw [Program.collect_yieldAll]
            rfl

theorem runAlone_perform {b : BlobBase locking MemoryBlob} (hb : b ∈ backends) :
    runAlone uncontended b.perform = effect := by
  funext c s
  rw [runAlone, run_backends hb]

/-! ## Every interleaving -/

section Runs

variable [DecidableEq ι] {b : BlobBase locking MemoryBlob} {todo : ι → List Call}
  {maxObjects maxSize : Option Int} {h : List (Event ι Call PyExc Value)}
  {cfg : Config locking MemoryBlob PyExc Value Call ι (Option ι)}

/-- Whatever the interleaving of the callers, their calls have the results that they have one after
the other, in an order that agrees with real time; whenever nobody is inside a method the store is
the one that this order leaves, `_size` is the number of stored bytes and no limit is exceeded. -/
theorem calls_linearizable (hb : b ∈ backends)
    (hrun : Config.Histories b.perform dataLock (.start todo (init maxObjects maxSize) none) h cfg) :
    ∃ l m, Linearization effect (init maxObjects maxSize) h l m ∧
      (cfg.world = none → cfg.state = m) ∧ m.Inv ∧ m.maxObjects = maxObjects ∧
        m.maxSize = maxSize := by
  obtain ⟨l, m, hlin, hfree⟩ := mutex_linearizable mutex_dataLock (K := fun _ => True)
    (fun c _ => perform_guarded hb c) (fun _ _ _ => trivial) rfl hrun
  rw [runAlone_perform hb] at hlin
  have hkept : m.Inv ∧ m.maxObjects = maxObjects ∧ m.maxSize = maxSize := by
    refine hlin.legal.invariant (J := fun m => m.Inv ∧ m.maxObjects = maxObjects ∧
      m.maxSize = maxSize) ?_ ⟨inv_init maxObjects maxSize, rfl, rfl⟩
    rintro c m ⟨hinv, hobjects, hsize⟩
    obtain ⟨hinv', hobjects', hsize'⟩ := hinv.effect c
    exact ⟨hinv', hobjects'.trans hobjects, hsize'.trans hsize⟩
  exact ⟨l, m, hlin, hfree, hkept⟩

/-- One caller stores a key and another one asks for it. -/
def putAndGet : Bool → List Call
  | true => [.put ['a'] [7]]
  | false => [.get ['a']]

/-- A `get` that is made while a `put` is going on, and comes before it in the row. -/
theorem calls_linearizable_overlap : ∃ l m,
    Linearization effect (init (some 1) none)
      [.invoke true (.put ['a'] [7]), .invoke false (.get ['a']),
        .response false (.get ['a']) (.error (.keyError ['a'])),
        .response true (.put ['a'] [7]) (.ok .none)] l m ∧ m.Inv := by
  have hdec : (Config.historyOf Sync.MemoryBlob.backend.perform dataLock
      [true, false, false, false, false, false, true, true, true, true, true, true, true, true]
      (.start putAndGet (init (some 1) none) none)).map Prod.fst =
      some [.invoke true (.put ['a'] [7]), .invoke false (.get ['a']),
        .response false (.get ['a']) (.error (.keyError ['a'])),
        .response true (.put ['a'] [7]) (.ok .none)] := by decide +kernel
  obtain ⟨⟨h, cfg⟩, hrun, rfl⟩ := Option.map_eq_some_iff.mp hdec
  have hmem : Sync.MemoryBlob.backend ∈ backends := by simp [backends]
  obtain ⟨l, m, hlin, -, hinv, -⟩ := calls_linearizable hmem (Config.Histories.nil.of_historyOf hrun)
  exact ⟨l, m, hlin, hinv⟩

/-- Whatever the callers have done so far, each of them can still make all its calls to the end. -/
theorem calls_finish (hb : b ∈ backends)
    (hrun : Config.Histories b.perform dataLock (.start todo (init maxObjects maxSize) none) h cfg)
    (i : ι) :
    ∃ cfg', Config.Reaches b.perform dataLock (fun _ _ => True) cfg cfg' ∧
      (cfg'.threads i).now = none ∧ (cfg'.threads i).todo = [] :=
  mutex_finishes mutex_dataLock (K := fun _ => True) (fun c _ => perform_guarded hb c)
    (fun _ _ _ => trivial) rfl hrun i

/-- A `get` that waits for the lock of a `put` can still end. -/
theorem calls_finish_waiting : ∃ h cfg cfg',
    Config.historyOf Sync.MemoryBlob.backend.perform dataLock [true, true, false]
        (.start putAndGet (init none none) none) = some (h, cfg) ∧
      cfg.world = some true ∧
      Config.Reaches Sync.MemoryBlob.backend.perform dataLock (fun _ _ => True) cfg cfg' ∧
      (cfg'.threads false).now = none ∧ (cfg'.threads false).todo = [] := by
  have hdec : (Config.historyOf Sync.MemoryBlob.backend.perform dataLock [true, true, false]
      (.start putAndGet (init none none) none)).map (fun r => r.2.world) = some (some true) := by
    decide +kernel
  obtain ⟨⟨h, cfg⟩, hrun, hworld⟩ := Option.map_eq_some_iff.mp hdec
  have hmem : Sync.MemoryBlob.backend ∈ backends := by simp [backends]
  obtain ⟨cfg', hreach, hend⟩ :=
    calls_finish hmem (Config.Histories.nil.of_historyOf hrun) false
  exact ⟨h, cfg, cfg', hrun, hworld, hreach, hend⟩

end Runs

end MemoryBlob

end GufoBlob
