import GufoBlob.Sqlite.Blob

/-!
# Synchronous backends on threads

`AsyncWrapper` of `aio/_wrapper.py` runs the methods of a synchronous backend in worker threads. It
forwards the five operations on keys. It does not define `open` and `close`, so that these are the
methods of `BlobBase`, which do nothing.

* `run_wrapped` — a call of the wrapper is the same call of the backend, or does nothing.
* `lifts_iff` — the wrapper does what the backend does, over a sequence of calls, exactly when no
  `open` and no `close` of the sequence has anything to do.
* `not_lifts_close` — a `SQLiteBlob` whose connection stays open after `close`.
-/

namespace GufoBlob

open Text Interaction Program

variable {I : Interface} {σ W : Type}

namespace Aio.AsyncWrapper

/-- `await to_thread(p)`: the awaiting task gets what `p` returns or raises. -/
def toThread {α : Type} (p : Program I σ PyExc α) : Program I σ PyExc α := p

def scan (sync : BlobBase I σ) (pre : Str) : Gen I σ PyExc Str Unit := do
  let xs ← (toThread (sync.scan pre).collect).embed
  Program.yieldAll xs

/-- `AsyncWrapper(sync)`. -/
def backend (sync : BlobBase I σ) : BlobBase I σ where
  put key data := toThread (sync.put key data)
  get key := toThread (sync.get key)
  delete key := toThread (sync.delete key)
  exists' key := toThread (sync.exists' key)
  scan := scan sync

end Aio.AsyncWrapper

namespace AsyncWrapper

variable {h : Handler I W} {sync : BlobBase I σ}

/-- The calls that `AsyncWrapper` inherits. -/
def Lifecycle (c : Call) : Prop := c = .open' ∨ c = .close

instance (c : Call) : Decidable (Lifecycle c) := inferInstanceAs (Decidable (_ ∨ _))

/-- The generator of the wrapper yields what the inner one yields. -/
theorem collect_scan (pre : Str) :
    (Aio.AsyncWrapper.scan sync pre).collect = (sync.scan pre).collect := by
  unfold Aio.AsyncWrapper.scan Aio.AsyncWrapper.toThread
  rw [bind_eq, collect_embed_bind]
  simp only [collect_yieldAll]
  exact bind_pure' _

/-- A call of the wrapper is the same call of the backend, or does nothing. -/
theorem run_wrapped (c : Call) (s : σ) (w : W) :
    ((Aio.AsyncWrapper.backend sync).perform c).run h s w =
      if Lifecycle c then (.ok .none, s, w) else (sync.perform c).run h s w := by
  cases c with
  | open' => rfl
  | close => rfl
  | scan pre =>
      show ((Aio.AsyncWrapper.scan sync pre).collect.bind _).run h s w = _
      rw [collect_scan, if_neg (by simp [Lifecycle])]
      rfl
  | _ => rfl

/-! ## Sequences of calls -/

/-- Over the calls `cs` the wrapper gives the results that the backend itself would give, and leaves
it in the same states, after each of them. -/
def Lifts (h : Handler I W) (sync : BlobBase I σ) (cs : List Call) (s : σ) (w : W) : Prop :=
  ∀ n, runCalls h (Aio.AsyncWrapper.backend sync).perform (cs.take n) s w =
    runCalls h sync.perform (cs.take n) s w

/-- Whenever the backend is opened or closed, it has nothing to do. -/
def LifecycleIdle (h : Handler I W) (sync : BlobBase I σ) : List Call → σ → W → Prop
  | [], _, _ => True
  | c :: cs, s, w =>
      (Lifecycle c → (sync.perform c).run h s w = (.ok .none, s, w)) ∧
        (((sync.perform c).run h s w).1 ≠ .spun →
          LifecycleIdle h sync cs ((sync.perform c).run h s w).2.1
            ((sync.perform c).run h s w).2.2)

/-- A sequence is lifted when its first call is, and the rest from where that call ended. -/
theorem lifts_cons_iff {c : Call} {cs : List Call} {s : σ} {w : W} :
    Lifts h sync (c :: cs) s w ↔
      (Lifecycle c → (sync.perform c).run h s w = (.ok .none, s, w)) ∧
        (((sync.perform c).run h s w).1 ≠ .spun →
          Lifts h sync cs ((sync.perform c).run h s w).2.1
            ((sync.perform c).run h s w).2.2) := by
  have hfirst : (Lifecycle c → (sync.perform c).run h s w = (.ok .none, s, w)) ↔
      ((Aio.AsyncWrapper.backend sync).perform c).run h s w = (sync.perform c).run h s w := by
    rw [run_wrapped]
    split
    · next hc => exact ⟨fun hidle => (hidle hc).symm, fun heq _ => heq.symm⟩
    · next hc => exact ⟨fun _ => rfl, fun _ hc' => absurd hc' hc⟩
  rw [hfirst]
  constructor
  · intro hlifts
    have hone := hlifts 1
    rw [List.take_succ_cons, List.take_zero, runCalls_singleton, runCalls_singleton,
      Prod.mk.injEq, List.cons.injEq] at hone
    have heq := Prod.ext hone.1.1 hone.2
    refine ⟨heq, fun hne n => ?_⟩
    have hmore := hlifts (n + 1)
    rw [List.take_succ_cons, runCalls_cons_of_ne hne, runCalls_cons_of_ne (heq ▸ hne), heq,
      Prod.mk.injEq, List.cons.injEq] at hmore
    exact Prod.ext hmore.1.2 hmore.2
  · rintro ⟨heq, hrest⟩ n
    cases n with
    | zero => rfl
    | succ n =>
        rw [List.take_succ_cons]
        by_cases hspun : ((sync.perform c).run h s w).1 = .spun
        · rw [runCalls_cons_of_spun _ hspun, runCalls_cons_of_spun _ (heq ▸ hspun), heq]
        · rw [runCalls_cons_of_ne hspun, runCalls_cons_of_ne (heq ▸ hspun), heq, hrest hspun n]

/-- **The wrapper lifts a sequence of calls exactly when its lifecycle is idle**: for every
synchronous backend and in every environment, each call of the sequence gives what the backend itself
would give and leaves it as it would be, exactly when each `open` and each `close`, made on the
backend at that point, returns and changes nothing. -/
theorem lifts_iff (h : Handler I W) (sync : BlobBase I σ) (cs : List Call) (s : σ) (w : W) :
    Lifts h sync cs s w ↔ LifecycleIdle h sync cs s w := by
  induction cs generalizing s w with
  | nil => exact ⟨fun _ => trivial, fun _ n => by rw [List.take_nil]; rfl⟩
  | cons c cs ih =>
      rw [lifts_cons_iff, LifecycleIdle]
      exact and_congr_right fun _ => imp_congr_right fun _ => ih _ _

/-- A backend that inherits `open` and `close` as well loses nothing. -/
theorem lifts_of_inherited (h : Handler I W) {sync : BlobBase I σ} (hopen : sync.open' = .pure ())
    (hclose : sync.close = .pure ()) (cs : List Call) (s : σ) (w : W) : Lifts h sync cs s w := by
  rw [lifts_iff]
  induction cs generalizing s w with
  | nil => trivial
  | cons c cs ih =>
      refine ⟨?_, fun _ => ih _ _⟩
      rintro (rfl | rfl)
      · rw [BlobBase.perform, hopen]
        rfl
      · rw [BlobBase.perform, hclose]
        rfl

/-! ## A connection that stays open -/

/-- The connections that a driver has made and closed. -/
structure Connections where
  opened : List Conn := []
  closed : List Conn := []
  deriving DecidableEq

/-- A driver that never fails; the tables stay empty. -/
def driver : Handler sqlite Connections
  | w, .acquire => ((), w)
  | w, .release => ((), w)
  | w, .connect _ => (.ok w.opened.length, { w with opened := w.opened ++ [w.opened.length] })
  | w, .execute _ _ _ => (.ok ⟨[], 0⟩, w)
  | w, .close c => (.ok (), { w with closed := w.closed ++ [c] })

/-- `SQLiteBlob("db")`. -/
def sample : SQLiteBlob :=
  ⟨['d'], ⟨['t'], by decide⟩, ⟨['k'], by decide⟩, ⟨['v'], by decide⟩, 5000⟩

/-- A `put` and a `close`. -/
def session : List Call := [.put ['a'] [1], .close]

/-- Through the wrapper the connection that `put` has opened is still there after `close`; the
backend itself closes it. -/
theorem not_lifts_close :
    (runCalls driver (Aio.AsyncWrapper.backend sample.backend).perform session none {}).2 =
        (some 0, { opened := [0] }) ∧
      (runCalls driver sample.backend.perform session none {}).2 =
        (none, { opened := [0], closed := [0] }) ∧
      ¬ Lifts driver sample.backend session none {} := by
  have hwrapped : (runCalls driver (Aio.AsyncWrapper.backend sample.backend).perform session none
      {}).2 = (some 0, { opened := [0] }) := by decide
  have hdirect : (runCalls driver sample.backend.perform session none {}).2 =
      (none, { opened := [0], closed := [0] }) := by decide
  refine ⟨hwrapped, hdirect, fun hlifts => ?_⟩
  have hsame := congrArg Prod.snd (hlifts 2)
  rw [show session.take 2 = session from rfl, hwrapped, hdirect] at hsame
  exact absurd hsame (by decide)

end AsyncWrapper

end GufoBlob
