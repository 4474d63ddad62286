import GufoBlob.Interaction.Awaits
import GufoBlob.Memory.Snapshot
import Mathlib.Data.Fintype.Basic

/-!
# Consumers of one iterator

`AsyncIterWrapper` of `aio/_wrapper.py` as an object that several tasks call `__anext__` on. The first
call makes a list of what the wrapper iterates over, under the lock, and does not look again once it
has the lock.

* `runUntil_first`, `runUntil_later` — calls that nobody disturbs are those of the sequential wrapper.
* `losesNothing_of_oneWaits` — nothing is lost in the runs in which no second call begins while one
  waits for the lock to make the first list.
* `loses_of_not_oneWaits` — once a second call has begun, the run can go on to lose elements: the second
  call finds the generator exhausted, and puts its empty list in the place of the first one.
-/

namespace GufoBlob.Aio.SharedWrapper

open Interaction Program

variable {α ι D : Type}

/-! ## The wrapper -/

inductive IterOp where
  /-- The beginning of `Lock.acquire`: it takes a lock that is free and that nobody waits for, and
  joins the waiters otherwise. -/
  | tryAcquire
  /-- `await fut`, in the middle of it. -/
  | wait
  | release
  /-- `list(self._inner)`. -/
  | list

abbrev iterating (α : Type) : Interface where
  Op := IterOp
  Ans
    | .tryAcquire => Bool
    | .wait => Unit
    | .release => Unit
    | .list => List α

inductive IterExc where
  | stopIteration
  | stopAsyncIteration
  | typeError
  deriving DecidableEq

/-- Code of an `AsyncIterWrapper`; the state is `_snapshot`. -/
abbrev IterProg (α β : Type) := Program (iterating α) (Option (List α)) IterExc β

/-- `Lock.acquire`. -/
def acquire : IterProg α Unit := do
  let free ← Program.perform (I := iterating α) IterOp.tryAcquire
  if free = true then
    return ()
  else
    Program.perform (I := iterating α) IterOp.wait

/-- `Lock.release`. -/
def release : IterProg α Unit := Program.perform (I := iterating α) IterOp.release

/-- `self._snapshot = iter(list(self._inner))`. -/
def takeSnapshot : IterProg α Unit := do
  let l ← Program.perform (I := iterating α) IterOp.list
  Program.write (some l)

/-- `next(self._snapshot)`. -/
def next : IterProg α α := do
  match ← Program.read with
  | none => .raise .typeError
  | some [] => .raise .stopIteration
  | some (x :: l) => do
      Program.write (some l)
      return x

/-- `except StopIteration as e: raise StopAsyncIteration from e`. -/
def stopAsync : IterExc → IterProg α α
  | .stopIteration => .raise .stopAsyncIteration
  | e => .raise e

def anext : IterProg α α := do
  let snapshot ← Program.read
  if snapshot.isNone = true then do
    acquire
    takeSnapshot.tryFinally release
  next.tryCatch stopAsync

/-! ## The event loop -/

/-- The lock, with the tasks that wait for it, `none` being one that is not a consumer; what the inner
iterable depends on; the iterable itself until it is exhausted; and the lists that were made of it. -/
structure World (α ι D : Type) where
  locked : Bool
  waiters : List (Option ι)
  data : D
  inner : Option (D → List α)
  lists : List (List α)

namespace World

/-- The lock is free, and nobody waits for it. -/
def free (w : World α ι D) : Bool := !w.locked && w.waiters.isEmpty

/-- What is left in the inner iterable. -/
def elements (w : World α ι D) : List α :=
  match w.inner with
  | some f => f w.data
  | none => []

/-- The consumers that wait for the lock. -/
def consumers (w : World α ι D) : List ι := w.waiters.filterMap id

/-- A list is made of it. -/
def listed (w : World α ι D) : World α ι D :=
  { w with inner := none, lists := w.lists ++ [w.elements] }

theorem mem_consumers {i : ι} {w : World α ι D} : i ∈ w.consumers ↔ some i ∈ w.waiters := by
  simp [consumers]

theorem consumers_append (i : ι) (w : World α ι D) :
    World.consumers { w with waiters := w.waiters ++ [some i] } = w.consumers ++ [i] := by
  simp [consumers]

end World

/-- What else runs in the event loop: tasks that take the same lock and hold it for as long as they
like, and changes of the data. -/
inductive Other (D : Type) where
  | tryAcquire
  | granted
  | release
  | change (d : D)

section EventLoop

variable [DecidableEq ι]

/-- The lock is given to the first task that waits for it. -/
def World.grant? (w : World α ι D) (who : Option ι) : Option (World α ι D) :=
  if w.locked = false ∧ w.waiters.head? = some who then
    some { w with locked := true, waiters := w.waiters.tail }
  else
    none

/-- The answers of the event loop. -/
def answer : Shared (iterating α) ι (World α ι D)
  | i, w, .tryAcquire =>
      if w.free = true then some (true, { w with locked := true })
      else some (false, { w with waiters := w.waiters ++ [some i] })
  | i, w, .wait => (w.grant? (some i)).map ((), ·)
  | _, w, .release => some ((), { w with locked := false })
  | _, w, .list => some (w.elements, w.listed)

def interfere : Other D → World α ι D → Option (World α ι D)
  | .tryAcquire, w =>
      if w.free = true then some { w with locked := true }
      else some { w with waiters := w.waiters ++ [none] }
  | .granted, w => w.grant? none
  | .release, w => if w.locked = true then some { w with locked := false } else none
  | .change d, w => some { w with data := d }

/-- The configurations of tasks that share a wrapper. -/
abbrev Tasks (α ι D : Type) := Loop (iterating α) (Option (List α)) IterExc α Unit ι (World α ι D)

/-- A new wrapper. The lock may be held, and others may wait for it. -/
def fresh (inner : D → List α) (locked : Bool) (others : Nat) (d : D) : Tasks α ι D :=
  .start none ⟨locked, List.replicate others none, d, some inner, []⟩

/-- The runs whose steps are all `ok`. -/
abbrev Runs (ok : Tasks α ι D → Act ι Unit (Other D) → Prop) (L L' : Tasks α ι D) : Prop :=
  Loop.Reaches (fun _ => anext) answer interfere ok L L'

/-! ## What a call does -/

/-- `next` on the snapshot, with its exception. -/
def given : List α → IterProg α α
  | [] => .raise .stopAsyncIteration
  | x :: _ => .pure x

/-- The rest of a call that waits for the lock. -/
def parked : IterProg α α :=
  (Program.perform (I := iterating α) IterOp.wait).bind fun _ =>
    (takeSnapshot.tryFinally release).bind fun _ => next.tryCatch stopAsync

variable {i : ι} {w w' : World α ι D}

theorem runUntil_next (l : List α) :
    (next.tryCatch stopAsync).runUntil (answer i) (some l) w = (given l, some l.tail, w) := by
  cases l <;> rfl

/-- Once the call has the lock, it takes a snapshot. -/
theorem runUntil_granted (s : Option (List α)) :
    ((takeSnapshot.tryFinally release).bind fun _ => next.tryCatch stopAsync).runUntil
        (answer i) s w =
      (given w.elements, some w.elements.tail, { w.listed with locked := false }) :=
  runUntil_next (w := { w.listed with locked := false }) w.elements

theorem runUntil_anext_some (l : List α) :
    anext.runUntil (answer i) (some l) w = (given l, some l.tail, w) :=
  runUntil_next l

theorem answer_wait_none (hw : w.grant? (some i) = none) : answer i w .wait = none := by
  show Option.map _ _ = none
  rw [hw]
  rfl

theorem answer_wait_some (hw : w.grant? (some i) = some w') :
    answer i w .wait = some ((), w') := by
  show Option.map _ _ = _
  rw [hw]
  rfl

/-- A free lock is taken at once. -/
theorem runUntil_anext_free (hw : w.free = true) :
    anext.runUntil (answer i) none w =
      (given w.elements, some w.elements.tail, { w.listed with locked := false }) := by
  have hanswer : answer i w .tryAcquire = some (true, { w with locked := true }) := if_pos hw
  show Program.runUntil (answer i) (.call .tryAcquire _) none w = _
  rw [runUntil_call_some hanswer]
  exact runUntil_granted (w := { w with locked := true }) none

/-- A lock that is not free has to be waited for. -/
theorem runUntil_anext_busy (hw : w.free = false) (hi : some i ∉ w.waiters) :
    anext.runUntil (answer i) none w =
      (parked, none, { w with waiters := w.waiters ++ [some i] }) := by
  have hanswer : answer i w .tryAcquire =
      some (false, { w with waiters := w.waiters ++ [some i] }) := if_neg (by simp [hw])
  -- the lock is held, or somebody else is the first to get it
  have hgrant : World.grant? { w with waiters := w.waiters ++ [some i] } (some i) = none := by
    apply if_neg
    rintro ⟨hlocked, hhead⟩
    cases hwaiters : w.waiters with
    | nil => simp [World.free, hwaiters, show w.locked = false from hlocked] at hw
    | cons who rest =>
        rw [hwaiters] at hhead hi
        obtain rfl : who = some i := Option.some.inj hhead
        exact hi List.mem_cons_self
  show Program.runUntil (answer i) (.call .tryAcquire _) none w = _
  rw [runUntil_call_some hanswer]
  exact runUntil_call_none (answer_wait_none hgrant)

/-- A call that is not given the lock stays where it is. -/
theorem runUntil_parked_none (s : Option (List α)) (hw : w.grant? (some i) = none) :
    parked.runUntil (answer i) s w = (parked, s, w) :=
  runUntil_call_none (answer_wait_none hw)

/-- A call that is given the lock takes a snapshot, whatever the snapshot is by then. -/
theorem runUntil_parked_some (s : Option (List α)) (hw : w.grant? (some i) = some w') :
    parked.runUntil (answer i) s w =
      (given w'.elements, some w'.elements.tail, { w'.listed with locked := false }) := by
  show Program.runUntil (answer i) (.call .wait _) s w = _
  rw [runUntil_call_some (answer_wait_some hw)]
  exact runUntil_granted s

/-! ### The sequential wrapper -/

/-- The first call, if nobody disturbs it, is that of the sequential wrapper. -/
theorem runUntil_first (pre : Text.Str) {w : World Text.Str ι MemoryBlob} (hw : w.free = true)
    (hinner : w.inner = some (MemoryBlob.listed pre)) :
    ∃ it, (Aio.MemoryBlob.wrapper pre).anext.run uncontended w.data () =
        (.ok ((MemoryBlob.listed pre w.data).head?, it), w.data, ()) ∧
      anext.runUntil (answer i) none w =
        (given (MemoryBlob.listed pre w.data), it.snapshot, { w.listed with locked := false }) := by
  obtain ⟨it, hrun, hsnapshot⟩ := (MemoryBlob.snapshotAio pre).first w.data ()
  refine ⟨it, hrun, ?_⟩
  have helements : w.elements = MemoryBlob.listed pre w.data := by
    unfold World.elements
    rw [hinner]
  rw [runUntil_anext_free hw, helements, show it.snapshot = some _ from hsnapshot]

/-- So is every later one. -/
theorem runUntil_later (p : Program locking MemoryBlob PyExc (List Text.Str)) (l : List Text.Str)
    {w : World Text.Str ι MemoryBlob} :
    ∃ it, Aio.AsyncIterWrapper.anext ⟨p, some l⟩ = .pure (l.head?, it) ∧
      anext.runUntil (answer i) (some l) w = (given l, it.snapshot, w) :=
  ⟨⟨p, some l.tail⟩, MemoryBlob.anext_some p l, runUntil_anext_some l⟩

end EventLoop

/-! ## Nothing is lost -/

/-- What a call returns from a snapshot. -/
def resultOf : List α → Outcome IterExc α
  | [] => .error .stopAsyncIteration
  | x :: _ => .ok x

/-- The element that a call returned. -/
def value? : Outcome IterExc α → Option α
  | .ok x => some x
  | _ => none

/-- The results of all calls, in the order in which they ended. -/
def results (L : Tasks α ι D) : List (Outcome IterExc α) := L.log.map fun r => r.2.2

/-- The inner iterable was made a list of once, if a call has ended; no element of it was returned
twice; and all were returned before a call raised `StopAsyncIteration`. -/
inductive LosesNothing (inner : D → List α) (L : Tasks α ι D) : Prop where
  | unlisted : L.world.lists = [] → L.log = [] → LosesNothing inner L
  | listed (d : D) : L.world.lists = [inner d] →
      ((results L).filterMap value?).Subperm (inner d) →
      (∀ before e after, results L = before ++ .error e :: after →
        e = .stopAsyncIteration ∧ (before.filterMap value?).Perm (inner d)) →
      LosesNothing inner L

/-- No call begins while another one waits to take the first snapshot. -/
def OneWaits (L : Tasks α ι D) : Act ι Unit (Other D) → Prop
  | .begin _ _ => L.state.isNone = true → ∀ j, (L.now j).isNone = true
  | _ => True

instance [Fintype ι] (L : Tasks α ι D) : (a : Act ι Unit (Other D)) → Decidable (OneWaits L a)
  | .begin _ _ =>
      inferInstanceAs (Decidable (L.state.isNone = true → ∀ j, (L.now j).isNone = true))
  | .resume _ => .isTrue trivial
  | .other _ => .isTrue trivial

section Unlisted

variable [DecidableEq ι]

/-- No call has taken a snapshot; `who` waits to do so, if anybody does. -/
structure Unlisted (inner : D → List α) (who : Option ι) (L : Tasks α ι D) : Prop where
  state : L.state = none
  inner_eq : L.world.inner = some inner
  lists : L.world.lists = []
  log : L.log = []
  consumers : L.world.consumers = who.toList
  now : ∀ i, L.now i = if who = some i then some ((), parked) else none

end Unlisted

/-- The calls return the elements of the snapshot one after the other. -/
structure Listed (xs : List α) (L : Tasks α ι D) : Prop where
  state : L.state = some (xs.drop L.log.length)
  lists : L.world.lists = [xs]
  now : ∀ i, L.now i = none
  results : results L = (List.range L.log.length).map fun n => resultOf (xs.drop n)

/-! ### The snapshot -/

theorem outcome_given (l : List α) : (given l).outcome? = some (resultOf l) := by
  cases l <;> rfl

/-- The first calls return the first elements. -/
theorem filterMap_resultOf (xs : List α) (m : Nat) :
    ((List.range m).map fun n => resultOf (xs.drop n)).filterMap value? = xs.take m := by
  induction m with
  | zero => rfl
  | succ m ih =>
      have hlast : [resultOf (xs.drop m)].filterMap value? = xs[m]?.toList := by
        rw [← List.head?_drop]
        cases xs.drop m <;> rfl
      rw [List.range_succ, List.map_append, List.filterMap_append, ih, List.map_singleton, hlast,
        List.take_add_one]

theorem Listed.losesNothing {inner : D → List α} {d : D} {L : Tasks α ι D}
    (h : Listed (inner d) L) : LosesNothing inner L := by
  apply LosesNothing.listed d h.lists
  · rw [h.results, filterMap_resultOf]
    exact (List.take_sublist _ _).subperm
  · intro before e after heq
    rw [h.results] at heq
    have hlen : before.length < L.log.length := by
      have := congrArg List.length heq
      simp at this
      omega
    -- the calls before the error took the elements one after the other
    have hbefore : before = (List.range before.length).map fun n => resultOf ((inner d).drop n) := by
      have htake := congrArg (List.take before.length) heq
      rw [List.take_left, ← List.map_take, List.take_range, min_eq_left hlen.le] at htake
      exact htake.symm
    have hlast : resultOf ((inner d).drop before.length) = .error e := by
      have hget := congrArg (·[before.length]?) heq
      simpa [hlen] using hget
    cases hdrop : (inner d).drop before.length with
    | nil =>
        rw [hdrop] at hlast
        cases hlast
        refine ⟨rfl, ?_⟩
        rw [hbefore, filterMap_resultOf, List.take_of_length_le (List.drop_eq_nil_iff.mp hdrop)]
    | cons x xs =>
        rw [hdrop] at hlast
        cases hlast

/-! ### Steps -/

section Steps

variable [DecidableEq ι] {inner : D → List α} {who : Option ι} {L L' : Tasks α ι D} {i : ι}

/-- Either no snapshot has been taken, or it is the only one. -/
def Inv (inner : D → List α) (L : Tasks α ι D) : Prop :=
  (∃ who, Unlisted inner who L) ∨ ∃ d, Listed (inner d) L

/-- A call that gets on to the snapshot ends there. -/
theorem settle_given (l : List α) (s : Option (List α)) (w : World α ι D) :
    L.settle i () (given l, s, w) =
      ⟨Function.update L.now i none, s, w, L.log ++ [(i, (), resultOf l)]⟩ := by
  unfold Loop.settle
  rw [outcome_given]

/-- A call that has to wait is suspended. -/
theorem settle_parked (s : Option (List α)) (w : World α ι D) :
    L.settle i () (parked, s, w) =
      ⟨Function.update L.now i (some ((), parked)), s, w, L.log⟩ := rfl

/-- Whoever is given the lock was the first to wait for it. -/
theorem grant?_frame {who : Option ι} {w w' : World α ι D} (h : w.grant? who = some w') :
    w'.inner = w.inner ∧ w'.lists = w.lists ∧ w.consumers = who.toList ++ w'.consumers := by
  rw [World.grant?] at h
  split at h
  · next hfree =>
      obtain rfl := Option.some.inj h
      refine ⟨rfl, rfl, ?_⟩
      obtain ⟨rest, hrest⟩ := List.head?_eq_some_iff.mp hfree.2
      unfold World.consumers
      rw [hrest]
      cases who <;> rfl
  · cases h

/-- What else happens touches neither the inner iterable nor the consumers that wait. -/
theorem interfere_frame {a : Other D} {w w' : World α ι D} (h : interfere a w = some w') :
    w'.inner = w.inner ∧ w'.lists = w.lists ∧ w'.consumers = w.consumers := by
  cases a with
  | tryAcquire =>
      rw [interfere] at h
      split at h
      · obtain rfl := Option.some.inj h
        exact ⟨rfl, rfl, rfl⟩
      · obtain rfl := Option.some.inj h
        refine ⟨rfl, rfl, ?_⟩
        show (w.waiters ++ [none]).filterMap id = _
        rw [List.filterMap_append]
        exact List.append_nil _
  | granted =>
      obtain ⟨hinner, hlists, hconsumers⟩ := grant?_frame h
      exact ⟨hinner, hlists, hconsumers.symm⟩
  | release =>
      rw [interfere] at h
      split at h
      · obtain rfl := Option.some.inj h
        exact ⟨rfl, rfl, rfl⟩
      · cases h
  | change d =>
      obtain rfl := Option.some.inj h
      exact ⟨rfl, rfl, rfl⟩

/-- A call gets the lock when no other one waits: the snapshot is taken. -/
theorem Unlisted.take (h : Unlisted inner who L) (hwho : ∀ j, who = some j → j = i)
    {w w' : World α ι D} (hw : w.inner = some inner) (hlists : w'.lists = [w.elements]) :
    Listed (inner w.data) (L.settle i () (given w.elements, some w.elements.tail, w')) := by
  have helements : w.elements = inner w.data := by
    unfold World.elements
    rw [hw]
  rw [settle_given, helements]
  constructor
  · show some (inner w.data).tail = some (List.drop (L.log ++ [_]).length (inner w.data))
    rw [h.log, ← List.drop_one]
    rfl
  · rw [← helements]
    exact hlists
  · rw [Function.forall_update_iff L.now fun _ r => r = none]
    refine ⟨rfl, fun j hj => ?_⟩
    rw [h.now j, if_neg]
    exact fun heq => hj (hwho j heq)
  · show (L.log ++ [_]).map _ = (List.range (L.log ++ [_]).length).map _
    rw [h.log]
    rfl

/-- A call begins when no other one waits: it takes the snapshot, or is the only one that waits. -/
theorem Unlisted.begin (h : Unlisted inner none L) (i : ι) :
    Inv inner (L.settle i () (anext.runUntil (answer i) L.state L.world)) := by
  rw [h.state]
  cases hfree : L.world.free with
  | true =>
      right
      refine ⟨L.world.data, ?_⟩
      rw [runUntil_anext_free hfree]
      apply h.take (fun j hj => by cases hj) h.inner_eq
      show L.world.lists ++ [_] = _
      rw [h.lists]
      rfl
  | false =>
      left
      have hwaiting : some i ∉ L.world.waiters := by
        rw [← World.mem_consumers, h.consumers]
        exact List.not_mem_nil
      rw [runUntil_anext_busy hfree hwaiting, settle_parked]
      refine ⟨some i, rfl, h.inner_eq, h.lists, h.log, ?_, ?_⟩
      · rw [World.consumers_append, h.consumers]
        rfl
      · rw [Function.forall_update_iff L.now fun j r =>
          r = if some i = some j then some ((), parked) else none]
        refine ⟨(if_pos rfl).symm, fun j hj => ?_⟩
        rw [h.now j, if_neg (by simp), if_neg (by simpa using Ne.symm hj)]

/-- The call that waits goes on: it takes the snapshot, or waits again. -/
theorem Unlisted.resume (h : Unlisted inner (some i) L) :
    Inv inner (L.settle i () (parked.runUntil (answer i) L.state L.world)) := by
  cases hgrant : L.world.grant? (some i) with
  | none =>
      left
      rw [runUntil_parked_none L.state hgrant,
        Loop.settle_self ((h.now i).trans (if_pos rfl)) rfl]
      exact ⟨some i, h⟩
  | some w =>
      right
      obtain ⟨hinner, hlists, _⟩ := grant?_frame hgrant
      refine ⟨w.data, ?_⟩
      rw [runUntil_parked_some L.state hgrant]
      apply h.take (fun j hj => (Option.some.inj hj).symm) (hinner.trans h.inner_eq)
      show w.lists ++ [_] = _
      rw [hlists, h.lists]
      rfl

theorem Unlisted.other (h : Unlisted inner who L) {a : Other D} {w : World α ι D}
    (hw : interfere a L.world = some w) : Unlisted inner who { L with world := w } := by
  obtain ⟨hinner, hlists, hconsumers⟩ := interfere_frame hw
  exact ⟨h.state, hinner.trans h.inner_eq, hlists.trans h.lists, h.log,
    hconsumers.trans h.consumers, h.now⟩

/-- A call pops the snapshot. -/
theorem Listed.begin {xs : List α} (h : Listed xs L) (i : ι) :
    Listed xs (L.settle i () (anext.runUntil (answer i) L.state L.world)) := by
  rw [h.state, runUntil_anext_some, settle_given]
  constructor
  · show some (xs.drop _).tail = some (xs.drop (L.log ++ [_]).length)
    rw [List.tail_drop, List.length_append]
    rfl
  · exact h.lists
  · rw [Function.forall_update_iff L.now fun _ r => r = none]
    exact ⟨rfl, fun j _ => h.now j⟩
  · show (L.log ++ [_]).map _ = (List.range (L.log ++ [_]).length).map _
    rw [List.map_append, List.length_append, List.length_singleton, List.range_succ,
      List.map_append]
    exact congrArg (· ++ _) h.results

theorem Inv.step (h : Inv inner L) {a : Act ι Unit (Other D)} (hok : OneWaits L a)
    (hstep : L.step? (fun _ => anext) answer interfere a = some L') : Inv inner L' := by
  cases a with
  | begin i c =>
      cases hi : L.now i with
      | some r => simp [Loop.step?, hi] at hstep
      | none =>
          obtain rfl : L.settle i () (anext.runUntil (answer i) L.state L.world) = L' := by
            simpa [Loop.step?, hi] using hstep
          rcases h with ⟨who, h⟩ | ⟨d, h⟩
          · cases who with
            | none => exact h.begin i
            -- somebody waits, and so no call may begin
            | some j =>
                have hj := hok (by rw [h.state]; rfl) j
                rw [h.now j, if_pos rfl] at hj
                cases hj
          · exact .inr ⟨d, h.begin i⟩
  | resume i =>
      obtain ⟨r, hi, rfl⟩ := Option.map_eq_some_iff.mp hstep
      rcases h with ⟨who, h⟩ | ⟨d, h⟩
      · rw [h.now i] at hi
        split at hi
        · next hwho =>
            subst hwho
            obtain rfl := Option.some.inj hi
            exact h.resume
        · cases hi
      · rw [h.now i] at hi
        cases hi
  | other a =>
      obtain ⟨w, hw, rfl⟩ := Option.map_eq_some_iff.mp hstep
      rcases h with ⟨who, h⟩ | ⟨d, h⟩
      · exact .inl ⟨who, h.other hw⟩
      · have hlists := (interfere_frame hw).2.1
        exact .inr ⟨d, h.state, hlists.trans h.lists, h.now, h.results⟩

theorem inv_fresh (inner : D → List α) (locked : Bool) (others : Nat) (d : D) :
    Inv inner (fresh inner locked others d : Tasks α ι D) := by
  refine .inl ⟨none, rfl, rfl, rfl, rfl, ?_, fun i => (if_neg (by simp)).symm⟩
  show (List.replicate others none).filterMap id = []
  simp

/-- What holds in every run in which one call at most waits for the snapshot. -/
theorem inv_of_runs {locked : Bool} {others : Nat} {d : D}
    (hruns : Runs OneWaits (fresh inner locked others d) L) : Inv inner L :=
  hruns.invariant (inv_fresh inner locked others d) fun _ _ _ h hok hstep => h.step hok hstep

theorem Inv.losesNothing (h : Inv inner L) : LosesNothing inner L := by
  rcases h with ⟨who, h⟩ | ⟨d, h⟩
  · exact .unlisted h.lists h.log
  · exact h.losesNothing

/-- **In a run in which no second call begins while one waits to take the first snapshot, nothing is
lost**, whatever is iterated over, in any number of tasks and whoever else takes the lock. -/
theorem losesNothing_of_oneWaits (inner : D → List α) (locked : Bool) (others : Nat) (d : D)
    (hruns : Runs OneWaits (fresh inner locked others d) L) : LosesNothing inner L :=
  (inv_of_runs hruns).losesNothing

end Steps

/-- One call that waits while another task holds the lock, and two that come later. -/
theorem losesNothing_later :
    ∃ L : Tasks Nat Bool Unit, Runs OneWaits (fresh (fun _ => [1, 2]) false 0 ()) L ∧
      results L = [.ok 1, .ok 2, .error .stopAsyncIteration] ∧
      LosesNothing (fun _ => [1, 2]) L := by
  let acts : List (Act Bool Unit (Other Unit)) :=
    [.other .tryAcquire, .begin false (), .other .release, .resume false, .begin true (),
      .begin false ()]
  have hresults : (Loop.runActs (fun _ => anext) answer interfere OneWaits acts
      (fresh (fun _ => [1, 2]) false 0 ())).map results =
        some [.ok 1, .ok 2, .error .stopAsyncIteration] := by decide +kernel
  obtain ⟨L, hrun, hL⟩ := Option.map_eq_some_iff.mp hresults
  have hruns := Loop.reaches_of_runActs acts hrun
  exact ⟨L, hruns, hL, losesNothing_of_oneWaits (fun _ => [1, 2]) false 0 () hruns⟩

/-! ## Two calls that wait -/

section Waiting

variable [DecidableEq ι] {inner : D → List α} {L M : Tasks α ι D} {k : ι} {ks : List ι}

/-- Whoever holds the lock releases it. -/
theorem runs_unlock (L : Tasks α ι D) :
    Runs (fun _ _ => True) L { L with world := { L.world with locked := false } } := by
  cases hlocked : L.world.locked with
  | false =>
      rw [← hlocked]
      exact .refl
  | true =>
      refine .step (.other .release) .refl trivial ?_
      show Option.map _ (interfere .release L.world) = _
      rw [interfere, if_pos hlocked]
      rfl

/-- The lock comes to the first consumer that waits for it. -/
theorem runs_drain (hconsumers : L.world.consumers = k :: ks) :
    ∃ w, Runs (fun _ _ => True) L { L with world := w } ∧ w.locked = false ∧
      w.waiters.head? = some (some k) ∧ w.consumers = k :: ks ∧ w.lists = L.world.lists := by
  induction hwaiters : L.world.waiters generalizing L with
  | nil => simp [World.consumers, hwaiters] at hconsumers
  | cons who rest ih =>
      have hunlock := runs_unlock L
      cases who with
      | some j =>
          obtain rfl : j = k := by
            rw [World.consumers, hwaiters] at hconsumers
            exact (List.cons.inj hconsumers).1
          refine ⟨_, hunlock, rfl, ?_, hconsumers, rfl⟩
          show L.world.waiters.head? = _
          rw [hwaiters]
          rfl
      -- another task is in front: it takes the lock, and releases it in the run that is left
      | none =>
          let M : Tasks α ι D :=
            { L with world := { L.world with locked := true, waiters := rest } }
          have hgranted : Runs (fun _ _ => True) L M := by
            refine .step (.other .granted) hunlock trivial ?_
            show Option.map _ (World.grant? { L.world with locked := false } none) = _
            rw [World.grant?, if_pos ⟨rfl, by rw [hwaiters]; rfl⟩, hwaiters]
            rfl
          have hM : M.world.consumers = k :: ks := by
            rw [World.consumers, hwaiters] at hconsumers
            exact hconsumers
          obtain ⟨w, hruns, hw⟩ := ih hM rfl
          exact ⟨w, hgranted.trans hruns, hw⟩

/-- It makes a list. -/
theorem runs_grab (hconsumers : L.world.consumers = k :: ks) (hk : L.now k = some ((), parked)) :
    ∃ N, Runs (fun _ _ => True) L N ∧ N.world.lists.length = L.world.lists.length + 1 ∧
      N.world.consumers = ks ∧ ∀ j, j ≠ k → N.now j = L.now j := by
  obtain ⟨w, hruns, hlocked, hhead, hw, hlists⟩ := runs_drain hconsumers
  have hgrant : w.grant? (some k) =
      some { w with locked := true, waiters := w.waiters.tail } := if_pos ⟨hlocked, hhead⟩
  obtain ⟨_, _, hrest⟩ := grant?_frame hgrant
  have hstep : Loop.step? (fun _ => anext) answer interfere { L with world := w } (.resume k) =
      some (Loop.settle { L with world := w } k () (parked.runUntil (answer k) L.state w)) :=
    congrArg (Option.map _) hk
  rw [runUntil_parked_some L.state hgrant, settle_given] at hstep
  refine ⟨_, .step (.resume k) hruns trivial hstep, ?_, ?_, fun j hj => Function.update_of_ne hj _ _⟩
  · show (w.lists ++ [_]).length = _
    rw [List.length_append, hlists]
    rfl
  · rw [hw] at hrest
    exact (List.cons.inj hrest).2.symm

/-- Two calls that wait make two lists. -/
theorem loses_of_two {i j : ι} (hij : i ≠ j) (hconsumers : M.world.consumers = [j, i])
    (hj : M.now j = some ((), parked)) (hi : M.now i = some ((), parked)) :
    ∃ N, Runs (fun _ _ => True) M N ∧ ¬ LosesNothing inner N := by
  obtain ⟨M', hfirst, hlists, hconsumers', hnow⟩ := runs_grab hconsumers hj
  obtain ⟨N, hsecond, hlists', -, -⟩ := runs_grab hconsumers' ((hnow i hij).trans hi)
  refine ⟨N, hfirst.trans hsecond, fun hloses => ?_⟩
  cases hloses with
  | unlisted hnil _ =>
      rw [hnil, List.length_nil] at hlists'
      omega
  | listed d hone _ _ =>
      rw [hone, List.length_singleton] at hlists'
      omega

/-- The second call joins the queue. -/
theorem Unlisted.second {i j : ι} (h : Unlisted inner (some j) L) (hij : i ≠ j) :
    L.settle i () (anext.runUntil (answer i) L.state L.world) =
      ⟨Function.update L.now i (some ((), parked)), none,
        { L.world with waiters := L.world.waiters ++ [some i] }, L.log⟩ := by
  have hfree : L.world.free = false := by
    have hwaiting : some j ∈ L.world.waiters := by
      rw [← World.mem_consumers, h.consumers]
      exact List.mem_cons_self
    cases hwaiters : L.world.waiters with
    | nil => simp [hwaiters] at hwaiting
    | cons who rest => simp [World.free, hwaiters]
  have hwaiting : some i ∉ L.world.waiters := by
    rw [← World.mem_consumers, h.consumers]
    simpa using hij
  rw [h.state, runUntil_anext_busy hfree hwaiting, settle_parked]

/-- **As soon as a second call begins while one waits**, the run can go on to lose elements. -/
theorem loses_of_not_oneWaits {locked : Bool} {others : Nat} {d : D}
    {a : Act ι Unit (Other D)} (hruns : Runs OneWaits (fresh inner locked others d) L)
    (hnot : ¬ OneWaits L a) (hstep : L.step? (fun _ => anext) answer interfere a = some M) :
    ∃ N, Runs (fun _ _ => True) M N ∧ ¬ LosesNothing inner N := by
  have hinv := inv_of_runs hruns
  cases a with
  | resume i => exact absurd trivial hnot
  | other a => exact absurd trivial hnot
  | begin i c =>
      obtain ⟨hstate, j, hj⟩ : L.state.isNone = true ∧ ∃ j, (L.now j).isNone ≠ true := by
        simpa [OneWaits] using hnot
      rcases hinv with ⟨who, h⟩ | ⟨d, h⟩
      · obtain rfl : who = some j := by
          by_contra hwho
          exact hj (by rw [h.now j, if_neg hwho]; rfl)
        have hi : L.now i = none := by
          cases hnow : L.now i with
          | none => rfl
          | some r => simp [Loop.step?, hnow] at hstep
        have hij : i ≠ j := by
          rintro rfl
          exact hj (by rw [hi]; rfl)
        obtain rfl : L.settle i () (anext.runUntil (answer i) L.state L.world) = M := by
          simpa [Loop.step?, hi] using hstep
        rw [h.second hij]
        apply loses_of_two hij
        · rw [World.consumers_append, h.consumers]
          rfl
        · show Function.update L.now i _ j = _
          rw [Function.update_of_ne (Ne.symm hij), h.now j, if_pos rfl]
        · exact Function.update_self _ _ _
      · rw [h.state] at hstate
        cases hstate

end Waiting

/-- Two calls begin while another task holds the lock. The second one finds the generator exhausted,
and with the list that it makes the element `2` is gone. -/
theorem not_losesNothing_waiting :
    ∃ L : Tasks Nat Bool Unit,
      Runs (fun _ _ => True) (fresh (fun _ => [1, 2]) false 0 ()) L ∧
        results L = [.ok 1, .error .stopAsyncIteration] ∧ ¬ LosesNothing (fun _ => [1, 2]) L := by
  let acts : List (Act Bool Unit (Other Unit)) :=
    [.other .tryAcquire, .begin false (), .begin true (), .other .release, .resume false,
      .resume true]
  have hresults : (Loop.runActs (fun _ => anext) answer interfere (fun _ _ => True) acts
      (fresh (fun _ => [1, 2]) false 0 ())).map (fun L => (results L, L.world.lists)) =
        some ([.ok 1, .error .stopAsyncIteration], [[1, 2], []]) := by decide +kernel
  obtain ⟨L, hrun, hL⟩ := Option.map_eq_some_iff.mp hresults
  obtain ⟨hreturned, hlists⟩ := Prod.mk.inj hL
  refine ⟨L, Loop.reaches_of_runActs acts hrun, hreturned, fun hloses => ?_⟩
  cases hloses with
  | unlisted hnil _ =>
      rw [hlists] at hnil
      cases hnil
  | listed d hone _ _ =>
      rw [hlists] at hone
      cases hone

end GufoBlob.Aio.SharedWrapper
