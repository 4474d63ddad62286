import GufoBlob.Interaction.Stepping
import GufoBlob.Memory.Spec

/-!
# A scan of the memory backend

The two versions of `scan` take their snapshot in different ways: the synchronous one is a generator
that copies the keys under the lock before it yields the first one, the asynchronous one hands a lazy
generator to an `AsyncIterWrapper`, which makes a list of it in the first `__anext__`. Either way the
keys are those of the store at the first request (`snapshotSync`, `snapshotAio`), so calls between the
requests make no difference (`scan_snapshot`).
-/

namespace GufoBlob

open Text Data Interaction Program

namespace MemoryBlob

/-- The keys that a scan gives. -/
def listed (pre : Str) (b : MemoryBlob) : List Str := b.data.keys.filter fun k => pre.isPrefixOf k

/-- With the lock held, the store is read once. -/
theorem run_withLock {p : Program locking MemoryBlob PyExc (List Str)} {pre : Str} {s : MemoryBlob}
    {w : Unit} (hp : p.run uncontended s w = (.ok (listed pre s), s, w)) :
    (withLock p).run uncontended s w = (.ok (listed pre s), s, w) := by
  have hrun : wp uncontended (withLock p)
      (fun o s' w' => (o, s', w') = (.ok (listed pre s), s, w)) s w := by
    rw [wp_withLock, wp, hp]
  exact hrun

def snapshotSync (pre : Str) :
    Snapshot uncontended resume (Sync.MemoryBlob.scan pre) (listed pre) :=
  snapshotYieldAll fun _ _ => run_withLock (run_matching pre)

/-- `__anext__` with the snapshot at hand. -/
theorem anext_some (p : Program locking MemoryBlob PyExc (List Str)) (l : List Str) :
    Aio.AsyncIterWrapper.anext ⟨p, some l⟩ = .pure (l.head?, ⟨p, some l.tail⟩) := by
  cases l <;> rfl

def snapshotAio (pre : Str) :
    Snapshot uncontended Aio.AsyncIterWrapper.anext (Aio.MemoryBlob.wrapper pre) (listed pre) where
  At it l := it.snapshot = some l
  first s w := by
    refine ⟨⟨matching pre, some (listed pre s).tail⟩, ?_, rfl⟩
    have hrun : wp uncontended (Aio.MemoryBlob.wrapper pre).anext
        (fun o s' w' => (o, s', w') = (.ok ((listed pre s).head?,
          ⟨matching pre, some (listed pre s).tail⟩), s, w)) s w := by
      rw [Aio.MemoryBlob.wrapper_eq, Aio.AsyncIterWrapper.anext, bind_eq, wp_bind, wp,
        run_withLock (run_matching pre), bindPost_ok]
      cases listed pre s <;> rfl
    exact hrun
  later it l s w hit := by
    obtain ⟨p, snapshot⟩ := it
    obtain rfl : snapshot = some l := hit
    refine ⟨⟨p, some l.tail⟩, ?_, rfl⟩
    rw [anext_some]
    rfl

/-- From the store `b`, with the calls `cs` before the first request and `css` before the others: the
requests give the keys with the prefix that are stored at the first one, each once and in insertion
order, and then the end. The calls leave what they leave without the scan. -/
def GivesSnapshot {ι : Type} (perform : Call → Program locking MemoryBlob PyExc Value)
    (step : ι → Program locking MemoryBlob PyExc (Option Str × ι)) (start : ι) (pre : Str)
    (b : MemoryBlob) (cs : List Call) (css : List (List Call)) : Prop :=
  let keys := listed pre (runCalls uncontended perform cs b ()).2.1
  interleave uncontended perform step (cs :: css) start b () =
      ((List.range (css.length + 1)).map fun i => .ok keys[i]?,
        afterCalls uncontended perform (cs :: css) b ()) ∧
    keys.Nodup ∧
    ∀ k, k ∈ keys ↔ k ∈ (runCalls uncontended perform cs b ()).2.1.data ∧ pre <+: k

/-- **A scan is a snapshot**, in both versions: from every store, for every prefix, and whatever
calls are made before the first key is requested and before each further request. -/
theorem scan_snapshot (pre : Str) (b : MemoryBlob) (cs : List Call) (css : List (List Call)) :
    GivesSnapshot Sync.MemoryBlob.backend.perform resume (Sync.MemoryBlob.scan pre) pre b cs css ∧
      GivesSnapshot Aio.MemoryBlob.backend.perform Aio.AsyncIterWrapper.anext
        (Aio.MemoryBlob.wrapper pre) pre b cs css := by
  have hkeys : ∀ m : MemoryBlob, (listed pre m).Nodup ∧
      ∀ k, k ∈ listed pre m ↔ k ∈ m.data ∧ pre <+: k := by
    intro m
    refine ⟨m.data.nodup.filter _, fun k => ?_⟩
    unfold listed
    rw [List.mem_filter, List.isPrefixOf_iff_prefix]
    exact Iff.rfl
  exact ⟨⟨interleave_snapshot (snapshotSync pre) _ cs css b (), hkeys _⟩,
    interleave_snapshot (snapshotAio pre) _ cs css b (), hkeys _⟩

end MemoryBlob

end GufoBlob
