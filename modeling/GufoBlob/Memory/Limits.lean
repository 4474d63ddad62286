import GufoBlob.Memory.Spec

/-!
# The limits of the memory backend

The invariant of a `MemoryBlob` over any history of calls: `_size` is the number of stored bytes,
and neither limit is exceeded. It needs a counter and a check that agree, although `_check_limits`
projects the size on its own: under the empty key it leaves the old value in the projection, which
only makes the check stricter (`checkLimits_ok`).

* `Inv` — the invariant, `Inv.effect` its step lemma.
* `effect_error` — a call that raises leaves the store as it was.
* `limits_hold` — both, in every state that a sequence of calls can reach.
-/

namespace GufoBlob

open Text Data Interaction

namespace MemoryBlob

/-- The number of stored bytes. -/
def stored (b : MemoryBlob) : Int := b.data.total len

/-- `_size` counts the stored bytes, and both limits hold; a negative limit counts as zero. -/
structure Inv (b : MemoryBlob) : Prop where
  size_eq : b.size = b.stored
  objects_le : ∀ n, b.maxObjects = some n → (b.data.size : Int) ≤ max 0 n
  stored_le : ∀ n, b.maxSize = some n → b.stored ≤ max 0 n

theorem inv_init (maxObjects maxSize : Option Int) : (init maxObjects maxSize).Inv where
  size_eq := rfl
  objects_le _ _ := Int.le_max_left 0 _
  stored_le _ _ := Int.le_max_left 0 _

theorem len_nonneg (d : Bytes) : 0 ≤ len d := Int.natCast_nonneg _

/-! ## What the limit check guarantees -/

/-- The old size that the check subtracts is never more than the real one. -/
theorem oldSize_le (b : MemoryBlob) (key : Str) :
    b.oldSize (some key) ≤ ((b.data.get? key).map len).getD 0 := by
  cases key with
  | nil =>
      show 0 ≤ _
      cases b.data.get? [] with
      | none => exact Int.le_refl 0
      | some d => exact len_nonneg d
  | cons c cs => exact Int.le_refl _

/-- A passed check bounds the store that the update leaves. -/
theorem checkLimits_ok {b : MemoryBlob} {key : Str} {data : Bytes}
    (h : b.checkLimits (some key) (len data) = .ok ()) :
    (∀ n, b.maxObjects = some n → key ∈ b.data ∨ (b.data.size : Int) + 1 ≤ n) ∧
      ∀ n, b.maxSize = some n → b.size + len data - ((b.data.get? key).map len).getD 0 ≤ n := by
  have hold := oldSize_le b key
  unfold checkLimits at h
  constructor
  · intro n hn
    by_contra hne
    obtain ⟨hmem, hlt⟩ := not_or.mp hne
    have hgt : (b.data.size : Int) + 1 > n := Int.not_le.mp hlt
    simp [hn, isNew, hmem, hgt, bind, Except.bind, throw, throwThe, MonadExceptOf.throw] at h
  · intro n hn
    by_contra hlt
    have hgt : b.size - b.oldSize (some key) + len data > n := by omega
    rw [hn] at h
    cases hm : b.maxObjects with
    | none => simp [hm, hgt, throw, throwThe, MonadExceptOf.throw] at h
    | some m =>
        simp only [hm, hgt, if_true] at h
        split at h <;> simp [bind, Except.bind, throw, throwThe, MonadExceptOf.throw] at h

/-! ## One call -/

theorem Inv.store {b : MemoryBlob} (hb : b.Inv) {key : Str} {data : Bytes}
    (h : b.checkLimits (some key) (len data) = .ok ()) : (b.store key data).Inv := by
  obtain ⟨hobjects, hsize⟩ := checkLimits_ok h
  have htotal : (b.store key data).stored =
      b.stored + len data - ((b.data.get? key).map len).getD 0 :=
    Dict.total_set len b.data key data
  refine ⟨?_, fun n hn => ?_, fun n hn => ?_⟩
  · show b.size + len data - _ = _
    rw [htotal, hb.size_eq]
  · show ((b.data.set key data).size : Int) ≤ _
    have hle := hb.objects_le n hn
    rw [Dict.size_set]
    split
    · exact hle
    · next hmem =>
        have hlt := (hobjects n hn).resolve_left hmem
        push_cast
        omega
  · have hle := hsize n hn
    rw [htotal, ← hb.size_eq]
    omega

theorem Inv.discard {b : MemoryBlob} (hb : b.Inv) {key : Str} {data : Bytes}
    (hd : b.data.get? key = some data) : (b.discard key data).Inv := by
  have htotal : (b.discard key data).stored = b.stored - len data := by
    show (b.data.erase key).total len = _
    rw [Dict.total_erase, hd]
    rfl
  have hnonneg := len_nonneg data
  refine ⟨?_, fun n hn => ?_, fun n hn => ?_⟩
  · show b.size - len data = _
    rw [htotal, hb.size_eq]
  · have hle := hb.objects_le n hn
    have hsize := Dict.size_erase_le b.data key
    show ((b.data.erase key).size : Int) ≤ _
    omega
  · have hle := hb.stored_le n hn
    omega

/-- Every call keeps the invariant and the two limits. -/
theorem Inv.effect {b : MemoryBlob} (hb : b.Inv) (c : Call) :
    (effect c b).2.Inv ∧ (effect c b).2.maxObjects = b.maxObjects ∧
      (effect c b).2.maxSize = b.maxSize := by
  cases c with
  | open' => exact ⟨hb, rfl, rfl⟩
  | close => exact ⟨hb, rfl, rfl⟩
  | put key data =>
      cases hc : b.checkLimits (some key) (len data) with
      | ok u => simpa [MemoryBlob.effect, hc] using ⟨hb.store hc, rfl, rfl⟩
      | error e => simpa [MemoryBlob.effect, hc] using hb
  | get key => cases hd : b.data.get? key <;> simpa [MemoryBlob.effect, hd] using hb
  | delete key =>
      cases hd : b.data.get? key with
      | none => simpa [MemoryBlob.effect, hd] using hb
      | some d => simpa [MemoryBlob.effect, hd] using ⟨hb.discard hd, rfl, rfl⟩
  | exists' key => exact ⟨hb, rfl, rfl⟩
  | scan pre => exact ⟨hb, rfl, rfl⟩

/-- A call that raises leaves the store as it was. -/
theorem effect_error {c : Call} {b : MemoryBlob} {e : PyExc} (h : (effect c b).1 = .error e) :
    (effect c b).2 = b := by
  cases c with
  | put key data => cases hc : b.checkLimits (some key) (len data) <;> simp_all [effect]
  | delete key => cases hd : b.data.get? key <;> simp_all [effect]
  | get key => cases hd : b.data.get? key <;> simp [effect, hd]
  | _ => rfl

/-! ## Every history -/

/-- The two classes. -/
def backends : List (BlobBase locking MemoryBlob) :=
  [Sync.MemoryBlob.backend, Aio.MemoryBlob.backend]

theorem run_backends {b : BlobBase locking MemoryBlob} (hb : b ∈ backends) (c : Call)
    (s : MemoryBlob) (w : Unit) :
    (b.perform c).run uncontended s w = ((effect c s).1, (effect c s).2, w) := by
  rcases List.mem_pair.mp hb with rfl | rfl
  · exact run_sync c s w
  · exact run_aio c s w

theorem reachable_inv {b : BlobBase locking MemoryBlob} (hb : b ∈ backends)
    {maxObjects maxSize : Option Int} {s : MemoryBlob} {w : Unit}
    (hs : Program.Reachable uncontended b.perform (fun s _ => s = init maxObjects maxSize) s w) :
    s.Inv ∧ s.maxObjects = maxObjects ∧ s.maxSize = maxSize := by
  refine Program.Reachable.invariant
    (J := fun s _ => s.Inv ∧ s.maxObjects = maxObjects ∧ s.maxSize = maxSize) ?_ ?_ hs
  · rintro s _ rfl
    exact ⟨inv_init maxObjects maxSize, rfl, rfl⟩
  · rintro c s w ⟨hinv, hobjects, hsize⟩
    obtain ⟨hinv', hobjects', hsize'⟩ := hinv.effect c
    rw [Program.wp, run_backends hb]
    exact fun _ => ⟨hinv', hobjects'.trans hobjects, hsize'.trans hsize⟩

/-- In every state that calls on an empty blob can reach, `_size` is the number of stored bytes,
neither limit is exceeded, and a call that raises changes neither the map nor `_size`. -/
theorem limits_hold {b : BlobBase locking MemoryBlob} (hb : b ∈ backends)
    (maxObjects maxSize : Option Int) {s : MemoryBlob} {w : Unit}
    (hs : Program.Reachable uncontended b.perform (fun s _ => s = init maxObjects maxSize) s w) :
    s.size = s.stored ∧
      (∀ n, maxObjects = some n → (s.data.size : Int) ≤ max 0 n) ∧
      (∀ n, maxSize = some n → s.stored ≤ max 0 n) ∧
      ∀ c e s' w', (b.perform c).run uncontended s w = (.error e, s', w') →
        s'.data = s.data ∧ s'.size = s.size := by
  obtain ⟨hinv, rfl, rfl⟩ := reachable_inv hb hs
  refine ⟨hinv.size_eq, hinv.objects_le, hinv.stored_le, fun c e s' w' hrun => ?_⟩
  rw [run_backends hb] at hrun
  obtain ⟨herr, hstate⟩ := Prod.mk.inj hrun
  obtain ⟨rfl, -⟩ := Prod.mk.inj hstate
  rw [effect_error herr]
  exact ⟨rfl, rfl⟩

/-- A full blob that refuses a second key. -/
theorem limits_hold_full :
    let s := ((Sync.MemoryBlob.backend.perform (.put ['a'] [1, 2])).run uncontended
      (init (some 1) none) ()).2.1
    (s.size = s.stored ∧ (s.data.size : Int) ≤ 1) ∧
      (Sync.MemoryBlob.backend.perform (.put ['b'] [3])).run uncontended s () =
        (.error (.blobError "max_objects limit exceeded"), s, ()) := by
  have hne : ((Sync.MemoryBlob.backend.perform (.put ['a'] [1, 2])).run uncontended
      (init (some 1) none) ()).1 ≠ .spun := by decide
  obtain ⟨hsize, hobjects, -⟩ := limits_hold (b := Sync.MemoryBlob.backend) (by simp [backends])
    (some 1) none (.step (.put ['a'] [1, 2]) (.init rfl) hne)
  exact ⟨⟨hsize, hobjects 1 rfl⟩, rfl⟩

end MemoryBlob

end GufoBlob
