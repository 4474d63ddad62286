import GufoBlob.Memory.Blob

/-!
# What the calls of the memory backend do

`effect` states the meaning of every call as a function on the store: its result and the store it
leaves. `run_sync` and `run_aio` say that the two classes, with their locks, exception handlers and
generators, both do exactly that, so that a statement about `MemoryBlob` is proved once, about
`effect`.
-/

namespace GufoBlob

open Text Data Interaction

namespace MemoryBlob

/-- What `put` leaves once the limits allow it. -/
def store (b : MemoryBlob) (key : Str) (data : Bytes) : MemoryBlob :=
  { b with
    size := b.size + len data - ((b.data.get? key).map len).getD 0
    data := b.data.set key data }

/-- What `delete` leaves of a present key with the value `data`. -/
def discard (b : MemoryBlob) (key : Str) (data : Bytes) : MemoryBlob :=
  { b with data := b.data.erase key, size := b.size - len data }

/-- The outcome of a call and the store after it. -/
def effect : Call → MemoryBlob → Outcome PyExc Value × MemoryBlob
  | .open', b => (.ok .none, b)
  | .close, b => (.ok .none, b)
  | .put key data, b =>
      match b.checkLimits (some key) (len data) with
      | .ok _ => (.ok .none, b.store key data)
      | .error e => (.error e, b)
  | .get key, b =>
      match b.data.get? key with
      | some d => (.ok (.data d), b)
      | none => (.error (.keyError key), b)
  | .delete key, b =>
      match b.data.get? key with
      | some d => (.ok .none, b.discard key d)
      | none => (.error (.keyError key), b)
  | .exists' key, b => (.ok (.bool (decide (key ∈ b.data))), b)
  | .scan pre, b => (.ok (.keys (b.data.keys.filter fun k => pre.isPrefixOf k)), b)

/-- A key that is stored after a call was stored before, or the call is a `put` of it. -/
theorem mem_effect {c : Call} {m : MemoryBlob} {k : Str} (hk : k ∈ (effect c m).2.data) :
    k ∈ m.data ∨ ∃ data, c = .put k data := by
  cases c with
  | put key data =>
      simp only [effect] at hk
      split at hk
      · by_cases hkey : k = key
        · exact .inr ⟨data, by rw [hkey]⟩
        · left
          by_contra hno
          rw [← Dict.get?_eq_none_iff] at hno
          have hnone : (m.store key data).data.get? k = none := by
            simp [store, Dict.get?_set, hkey, hno]
          exact Dict.get?_eq_none_iff.mp hnone hk
      · exact .inl hk
  | delete key =>
      simp only [effect] at hk
      split at hk
      · left
        by_contra hno
        rw [← Dict.get?_eq_none_iff] at hno
        have hnone : (m.data.erase key).get? k = none := by simp [Dict.get?_erase, hno]
        exact Dict.get?_eq_none_iff.mp hnone hk
      · exact .inl hk
  | get key =>
      simp only [effect] at hk
      split at hk <;> exact .inl hk
  | open' => exact .inl hk
  | close => exact .inl hk
  | exists' key => exact .inl hk
  | scan pre => exact .inl hk

section Calls

variable {s : MemoryBlob} {w : Unit}

/-- The lock is nobody else's, so holding it changes nothing. -/
@[simp] theorem wp_withLock {α : Type} (p : Program locking MemoryBlob PyExc α)
    (Q : Outcome PyExc α → MemoryBlob → Unit → Prop) :
    Program.wp uncontended (withLock p) Q s w ↔ Program.wp uncontended p Q s w := by
  have hpost : Program.finallyPost uncontended (.perform LockOp.release) Q = Q := by
    funext o s w
    cases o <;> rfl
  show Program.wp uncontended (p.tryFinally (.perform LockOp.release)) Q s w ↔ _
  rw [Program.wp_tryFinally, hpost]

theorem wp_put (key : Str) (data : Bytes) (Q : Outcome PyExc Unit → MemoryBlob → Unit → Prop) :
    Program.wp uncontended (put key data) Q s w ↔
      match s.checkLimits (some key) (len data) with
      | .ok _ => Q (.ok ()) (s.store key data) w
      | .error e => Q (.error e) s w := by
  rw [put, wp_withLock]
  cases hc : s.checkLimits (some key) (len data) with
  | error e => simp [hc, Program.ofExcept]
  | ok u =>
      cases hold : s.data.get? key with
      | none => simp [hc, hold, Program.ofExcept, store]
      | some o =>
          have hsize : s.size + (len data - len o) = s.size + len data - len o := by omega
          simp [hc, hold, Program.ofExcept, store, hsize]

theorem wp_getItem (key : Str) (Q : Outcome PyExc Bytes → MemoryBlob → Unit → Prop) :
    Program.wp uncontended (getItem key) Q s w ↔
      match s.data.get? key with
      | some d => Q (.ok d) s w
      | none => Q (.error (.keyError key)) s w := by
  cases hd : s.data.get? key <;> simp [getItem, hd]

theorem wp_delete (key : Str) (Q : Outcome PyExc Unit → MemoryBlob → Unit → Prop) :
    Program.wp uncontended (delete key) Q s w ↔
      match s.data.get? key with
      | some d => Q (.ok ()) (s.discard key d) w
      | none => Q (.error (.keyError key)) s w := by
  rw [delete, wp_withLock]
  cases hd : s.data.get? key <;> simp [pop, wp_getItem, hd, discard, reraise]

theorem wp_exists (key : Str) (Q : Outcome PyExc Bool → MemoryBlob → Unit → Prop) :
    Program.wp uncontended (exists' key) Q s w ↔ Q (.ok (decide (key ∈ s.data))) s w := by
  rw [exists', wp_withLock]
  simp


/-! ## Both classes do what `effect` says -/

/-- A postcondition that says where `effect c` ends. -/
abbrev Ends (c : Call) (s : MemoryBlob) (w : Unit) : Outcome PyExc Value → MemoryBlob → Unit → Prop :=
  fun o s' w' => (o, s', w') = ((effect c s).1, (effect c s).2, w)

/-- The two classes share every method but `get` and `scan`. -/
theorem wp_perform_of_shared (b : BlobBase locking MemoryBlob) (hput : b.put = put)
    (hdelete : b.delete = delete) (hexists : b.exists' = exists') (hopen : b.open' = .pure ())
    (hclose : b.close = .pure ())
    (hget : ∀ key (Q : Outcome PyExc Bytes → MemoryBlob → Unit → Prop),
      Program.wp uncontended (b.get key) Q s w ↔ Program.wp uncontended (getItem key) Q s w)
    (hscan : ∀ pre, (b.scan pre).collect.run uncontended s w =
      (.ok (s.data.keys.filter fun k => pre.isPrefixOf k), s, w)) (c : Call) :
    Program.wp uncontended (b.perform c) (Ends c s w) s w := by
  cases c with
  | open' => simp [BlobBase.perform, hopen, effect]
  | close => simp [BlobBase.perform, hclose, effect]
  | put key data =>
      rw [BlobBase.perform, hput, Program.wp_bind, wp_put]
      cases hc : s.checkLimits (some key) (len data) <;> simp [effect, hc]
  | get key =>
      rw [BlobBase.perform, Program.wp_bind, hget, wp_getItem]
      cases hd : s.data.get? key <;> simp [effect, hd]
  | delete key =>
      rw [BlobBase.perform, hdelete, Program.wp_bind, wp_delete]
      cases hd : s.data.get? key <;> simp [effect, hd]
  | exists' key =>
      rw [BlobBase.perform, hexists, Program.wp_bind, wp_exists]
      simp [effect]
  | scan pre =>
      rw [BlobBase.perform, Program.wp_bind, Program.wp, hscan]
      simp [effect]

theorem wp_reraise (key : Str) (Q : Outcome PyExc Bytes → MemoryBlob → Unit → Prop) :
    Program.wp uncontended ((getItem key).tryCatch (reraise key)) Q s w ↔
      Program.wp uncontended (getItem key) Q s w := by
  rw [Program.wp_tryCatch, wp_getItem, wp_getItem]
  cases hd : s.data.get? key <;> simp [reraise]

theorem run_matching (pre : Str) : (matching pre).run uncontended s w =
    (.ok (s.data.keys.filter fun k => pre.isPrefixOf k), s, w) := rfl

theorem run_sync (c : Call) (s : MemoryBlob) (w : Unit) :
    (Sync.MemoryBlob.backend.perform c).run uncontended s w =
      ((effect c s).1, (effect c s).2, w) := by
  refine wp_perform_of_shared Sync.MemoryBlob.backend rfl rfl rfl rfl rfl ?_ ?_ c
  · intro key Q
    have hcatch := Program.wp_tryCatch (h := uncontended) (Q := Q) (s := s) (w := w)
      (withLock (getItem key)) (reraise key)
    rw [wp_withLock, ← Program.wp_tryCatch, wp_reraise] at hcatch
    exact hcatch
  · intro pre
    show ((withLock (matching pre)).embed.bind Program.yieldAll).collect.run uncontended s w = _
    rw [Program.collect_embed_bind]
    show Program.wp uncontended ((withLock (matching pre)).bind fun l =>
      (Program.yieldAll l).collect) (fun o s' w' => (o, s', w') = _) s w
    rw [Program.wp_bind, wp_withLock, Program.wp, run_matching]
    simp [Program.collect_yieldAll]

theorem run_aio (c : Call) (s : MemoryBlob) (w : Unit) :
    (Aio.MemoryBlob.backend.perform c).run uncontended s w =
      ((effect c s).1, (effect c s).2, w) := by
  refine wp_perform_of_shared Aio.MemoryBlob.backend rfl rfl rfl rfl rfl ?_ ?_ c
  · intro key Q
    exact (wp_withLock _ Q).trans (wp_reraise key Q)
  · intro pre
    show Program.wp uncontended (Aio.MemoryBlob.scan pre).collect
      (fun o s' w' => (o, s', w') = _) s w
    rw [Aio.MemoryBlob.scan, Aio.MemoryBlob.wrapper_eq, Aio.AsyncIterWrapper.iterate, Program.bind_eq,
      Program.collect_embed_bind, Program.wp_bind, Aio.AsyncIterWrapper.anext, Program.bind_eq,
      Program.wp_bind, wp_withLock, Program.wp, run_matching]
    -- the first element comes from `__anext__`, the others from the snapshot
    cases s.data.keys.filter fun k => pre.isPrefixOf k with
    | nil => rfl
    | cons x l =>
        show Program.wp uncontended
          ((Program.yieldAll l : Gen locking MemoryBlob PyExc Str Unit).collect.bind fun xs =>
            .pure (x :: xs)) (fun o s' w' => (o, s', w') = (.ok (x :: l), s, w)) s w
        rw [Program.collect_yieldAll]
        rfl

end Calls

end MemoryBlob

end GufoBlob
