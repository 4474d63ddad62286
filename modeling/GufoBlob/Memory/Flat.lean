import GufoBlob.FlatStore
import GufoBlob.Memory.Acceptance

/-!
# The memory backend as a flat store

A `MemoryBlob` of either class does what the flat store does, in every run; one with limits may refuse
a `put`, and then nothing has changed.
-/

namespace GufoBlob

open Text Data Interaction FlatStore

namespace MemoryBlob

/-- A blob with a limit may refuse to store data. -/
def refusals (maxObjects maxSize : Option Int) : Failures := fun c e =>
  (maxObjects.isSome ∨ maxSize.isSome) ∧ (∃ key data, c = .put key data) ∧
    ∃ text, e = .blobError text

/-- The store holds the map `m`. -/
def Holds (maxObjects maxSize : Option Int) (s : MemoryBlob) (m : Contents) : Prop :=
  s.data.get? = m ∧ s.maxObjects = maxObjects ∧ s.maxSize = maxSize

/-- A check that fails has a limit to fail on. -/
theorem limit_of_checkLimits {s : MemoryBlob} {key : Str} {size : Int} {e : PyExc}
    (h : s.checkLimits (some key) size = .error e) :
    (s.maxObjects.isSome ∨ s.maxSize.isSome) ∧ ∃ text, e = .blobError text := by
  rcases checkLimits_cases s key size with ⟨-, hok⟩ | ⟨hno, text, herror⟩
  · rw [hok] at h
    cases h
  · obtain rfl : PyExc.blobError text = e := Except.error.inj (herror.symm.trans h)
    refine ⟨?_, text, rfl⟩
    by_contra hnone
    obtain ⟨hobjects, hsize⟩ := not_or.mp hnone
    have hobjects' : s.maxObjects = none := Option.not_isSome_iff_eq_none.mp hobjects
    have hsize' : s.maxSize = none := Option.not_isSome_iff_eq_none.mp hsize
    exact hno ⟨by simp [hobjects'], by simp [hsize']⟩

/-- The keys that a dictionary lists are those of the map. -/
theorem mem_filter_keys {d : Dict Str Bytes} {pre k : Str} :
    (k ∈ d.keys.filter fun k => pre.isPrefixOf k) ↔ (d.get? k).isSome ∧ pre <+: k := by
  rw [List.mem_filter, Dict.isSome_get?_iff, List.isPrefixOf_iff_prefix]
  rfl

/-- What one call does to the map. -/
theorem spec_effect (s : MemoryBlob) (c : Call) :
    spec (refusals s.maxObjects s.maxSize) c s.data.get? (effect c s).1 (effect c s).2.data.get? := by
  cases c with
  | open' => exact ⟨.inl rfl, rfl⟩
  | close => exact ⟨.inl rfl, rfl⟩
  | put key data =>
      cases hcheck : s.checkLimits (some key) (len data) with
      | ok _ =>
          have heffect : effect (.put key data) s = (.ok .none, s.store key data) := by
            simp [effect, hcheck]
          rw [heffect]
          exact ⟨.inl rfl, Dict.get?_set_eq s.data key data⟩
      | error e =>
          have heffect : effect (.put key data) s = (.error e, s) := by simp [effect, hcheck]
          obtain ⟨hlimit, htext⟩ := limit_of_checkLimits hcheck
          rw [heffect]
          exact ⟨.inr ⟨e, rfl, hlimit, ⟨key, data, rfl⟩, htext⟩, rfl⟩
  | get key =>
      cases hd : s.data.get? key with
      | none =>
          have heffect : effect (.get key) s = (.error (.keyError key), s) := by simp [effect, hd]
          rw [heffect]
          exact ⟨.inl (by simp [Answers, hd]), rfl⟩
      | some d =>
          have heffect : effect (.get key) s = (.ok (.data d), s) := by simp [effect, hd]
          rw [heffect]
          exact ⟨.inl (by simp [Answers, hd]), rfl⟩
  | delete key =>
      cases hd : s.data.get? key with
      | none =>
          have heffect : effect (.delete key) s = (.error (.keyError key), s) := by
            simp [effect, hd]
          rw [heffect]
          exact ⟨.inl (by simp [Answers, hd]), rfl⟩
      | some d =>
          have heffect : effect (.delete key) s = (.ok .none, s.discard key d) := by
            simp [effect, hd]
          rw [heffect]
          exact ⟨.inl (by simp [Answers, hd]), Dict.get?_erase_eq s.data key⟩
  | exists' key =>
      refine ⟨.inl ?_, rfl⟩
      show Outcome.ok (Value.bool (decide (key ∈ s.data))) = _
      rw [Bool.eq_iff_iff.mpr (decide_eq_true_iff.trans Dict.isSome_get?_iff.symm)]
  | scan pre => exact ⟨.inl ⟨_, rfl, s.data.nodup.filter _, fun k => mem_filter_keys⟩, rfl⟩

theorem refines_flat {b : BlobBase locking MemoryBlob} (hb : b ∈ backends)
    (maxObjects maxSize : Option Int) :
    Refines uncontended b.perform (spec (refusals maxObjects maxSize)) (fun _ => True)
      (fun s _ m => Holds maxObjects maxSize s m) where
  ends c m m' h := not_responds_spun c h.1
  step := by
    rintro c s w m - ⟨rfl, rfl, rfl⟩
    rw [Program.wp, run_backends hb]
    refine ⟨_, spec_effect s c, rfl, ?_⟩
    cases c with
    | put key data =>
        cases hcheck : s.checkLimits (some key) (len data) <;> simp [effect, hcheck, store]
    | delete key => cases hd : s.data.get? key <;> simp [effect, hd, discard]
    | get key => cases hd : s.data.get? key <;> simp [effect, hd]
    | open' => exact ⟨rfl, rfl⟩
    | close => exact ⟨rfl, rfl⟩
    | exists' key => exact ⟨rfl, rfl⟩
    | scan pre => exact ⟨rfl, rfl⟩

/-- **A `MemoryBlob` is a flat store**: in every run of calls on an empty blob each call answers from
what the calls before it stored and deleted, or is a refused `put`, which a blob without limits does
not know; and what is stored at the end are their changes. -/
theorem memory_flat {b : BlobBase locking MemoryBlob} (hb : b ∈ backends)
    (maxObjects maxSize : Option Int) (cs : List Call) :
    let r := Program.runCalls uncontended b.perform cs (init maxObjects maxSize) ()
    r.1.length = cs.length ∧ Consistent (refusals maxObjects maxSize) empty (cs.zip r.1) ∧
      r.2.1.data.get? = contents empty (writes (cs.zip r.1)) := by
  have hinit : Holds maxObjects maxSize (init maxObjects maxSize) empty := ⟨rfl, rfl, rfl⟩
  have hall : ∀ c ∈ cs, True := fun _ _ => trivial
  obtain ⟨hlength, hconsistent, hend⟩ := consistent_of_refines (refines_flat hb maxObjects maxSize)
    hall (w := ()) hinit
  exact ⟨hlength, hconsistent, hend.1⟩

/-- A second key that is refused. -/
theorem memory_flat_refused :
    let cs : List Call := [.put ['a'] [7], .put ['b'] [8], .get ['a']]
    let r := Program.runCalls uncontended Aio.MemoryBlob.backend.perform cs (init (some 1) none) ()
    r.1 = [.ok .none, .error (.blobError "max_objects limit exceeded"), .ok (.data [7])] ∧
      Consistent (refusals (some 1) none) empty (cs.zip r.1) :=
  ⟨by decide, (memory_flat (b := Aio.MemoryBlob.backend) (by simp [backends]) (some 1) none _).2.1⟩

end MemoryBlob

end GufoBlob
