import GufoBlob.Base
import GufoBlob.Data.Dict

/-!
# The memory backend

`MemoryBlob` of `sync/memory.py` and `aio/memory.py`. The two classes differ in the lock they use
and in `scan`: the synchronous one takes its snapshot when the first key is requested and yields
from it, the asynchronous one hands a lazy generator and the lock to an `AsyncIterWrapper`.
-/

namespace GufoBlob

open Text Data Interaction

/-- The state of a `MemoryBlob`: `_data`, the two limits and the running byte count `_size`. -/
structure MemoryBlob where
  data : Dict Str Bytes
  maxObjects : Option Int
  maxSize : Option Int
  size : Int

/-- Calls on `_data_lock`. -/
inductive LockOp where
  | acquire
  | release

abbrev locking : Interface := ⟨LockOp, fun _ => Unit⟩

/-- A lock that nobody else holds. -/
def uncontended : Handler locking Unit := fun _ _ => ((), ())

/-- `with self._data_lock: p`. -/
def withLock {α : Type} (p : Program locking MemoryBlob PyExc α) :
    Program locking MemoryBlob PyExc α := do
  Program.perform LockOp.acquire
  p.tryFinally (Program.perform LockOp.release)

namespace MemoryBlob

/-- `MemoryBlob(max_objects, max_size)`. -/
def init (maxObjects maxSize : Option Int) : MemoryBlob := ⟨.empty, maxObjects, maxSize, 0⟩

/-- `len(data)`. -/
def len (data : Bytes) : Int := data.length

/-- `is_new` of `_check_limits`: no key, or a key that is not stored. -/
def isNew (b : MemoryBlob) : Option Str → Bool
  | none => true
  | some k => decide (k ∉ b.data)

/-- `old_size` of `_check_limits`, which looks the old value up only under a key that is neither
`None` nor empty (`if new_key else 0`). -/
def oldSize (b : MemoryBlob) : Option Str → Int
  | some (c :: cs) => ((b.data.get? (c :: cs)).map len).getD 0
  | _ => 0

/-- `_check_limits`: refuses an update whose projected state exceeds a limit. -/
def checkLimits (b : MemoryBlob) (newKey : Option Str) (newSize : Int) : Except PyExc Unit := do
  let currentObjects : Int := b.data.size
  let currentSize := b.size
  if let some maxObjects := b.maxObjects then
    if b.isNew newKey && decide (currentObjects + 1 > maxObjects) then
      throw (.blobError "max_objects limit exceeded")
  if let some maxSize := b.maxSize then
    let projected := currentSize - b.oldSize newKey + newSize
    if projected > maxSize then
      throw (.blobError "max_size limit exceeded")
  return ()

def put (key : Str) (data : Bytes) : Program locking MemoryBlob PyExc Unit :=
  withLock do
    let b ← Program.read
    let old := b.data.get? key
    let newSize := len data
    Program.ofExcept (b.checkLimits (some key) newSize)
    match old with
    | none => Program.modify fun b => { b with size := b.size + newSize }
    | some o => Program.modify fun b => { b with size := b.size + (newSize - len o) }
    Program.modify fun b => { b with data := b.data.set key data }

/-- `self._data[key]`. -/
def getItem (key : Str) : Program locking MemoryBlob PyExc Bytes := do
  let b ← Program.read
  match b.data.get? key with
  | some d => return d
  | none => .raise (.keyError key)

/-- `except KeyError as e: raise KeyError(key) from e`. -/
def reraise {α : Type} (key : Str) : PyExc → Program locking MemoryBlob PyExc α
  | .keyError _ => .raise (.keyError key)
  | e => .raise e

/-- `self._data.pop(key)`. -/
def pop (key : Str) : Program locking MemoryBlob PyExc Bytes := do
  let d ← getItem key
  Program.modify fun b => { b with data := b.data.erase key }
  return d

def delete (key : Str) : Program locking MemoryBlob PyExc Unit :=
  withLock do
    let data ← (pop key).tryCatch (reraise key)
    Program.modify fun b => { b with size := b.size - len data }

def exists' (key : Str) : Program locking MemoryBlob PyExc Bool :=
  withLock do
    let b ← Program.read
    return decide (key ∈ b.data)

/-- `[k for k in self._data if k.startswith(prefix)]`. -/
def matching (pre : Str) : Program locking MemoryBlob PyExc (List Str) := do
  let b ← Program.read
  return b.data.keys.filter fun k => pre.isPrefixOf k

end MemoryBlob

namespace Sync.MemoryBlob

def get (key : Str) : Program locking MemoryBlob PyExc Bytes :=
  (withLock (MemoryBlob.getItem key)).tryCatch (MemoryBlob.reraise key)

def scan (pre : Str) : Gen locking MemoryBlob PyExc Str Unit := do
  let data ← (withLock (MemoryBlob.matching pre)).embed
  Program.yieldAll data

/-- `gufo.blob.sync.memory.MemoryBlob`. -/
def backend : BlobBase locking MemoryBlob where
  put := MemoryBlob.put
  get := get
  delete := MemoryBlob.delete
  exists' := MemoryBlob.exists'
  scan := scan

end Sync.MemoryBlob

namespace Aio

/-- `AsyncIterWrapper`: what it iterates over, and the snapshot once it is taken. -/
structure AsyncIterWrapper where
  inner : Program locking MemoryBlob PyExc (List Str)
  snapshot : Option (List Str)

/-- `__anext__`: the next element, or `none` for `StopAsyncIteration`, and the wrapper after it. -/
def AsyncIterWrapper.anext (it : AsyncIterWrapper) :
    Program locking MemoryBlob PyExc (Option Str × AsyncIterWrapper) := do
  let snapshot ← match it.snapshot with
    | none => withLock it.inner
    | some l => .pure l
  match snapshot with
  | [] => return (none, { it with snapshot := some [] })
  | x :: l => return (some x, { it with snapshot := some l })

/-- `async for x in it`: the first `__anext__` takes the snapshot, the later ones only pop it. -/
def AsyncIterWrapper.iterate (it : AsyncIterWrapper) : Gen locking MemoryBlob PyExc Str Unit := do
  let (x, it) ← it.anext.embed
  match x with
  | none => return ()
  | some x => do
    Program.yield x
    Program.yieldAll (it.snapshot.getD [])

namespace MemoryBlob

def get (key : Str) : Program locking MemoryBlob PyExc Bytes :=
  withLock ((MemoryBlob.getItem key).tryCatch (MemoryBlob.reraise key))

/-- `inner` of `scan`: a generator that looks at `_data` when it is run. It is only run as a whole,
by `list`. -/
def inner (pre : Str) : Gen locking MemoryBlob PyExc Str Unit := do
  let b ← Program.read
  Program.forEach b.data.keys fun k => if pre.isPrefixOf k then Program.yield k else .pure ()

/-- What `scan` returns. The wrapper makes a list of the generator. -/
def wrapper (pre : Str) : AsyncIterWrapper := ⟨(inner pre).collect, none⟩

/-- `async for key in scan(pre)`. -/
def scan (pre : Str) : Gen locking MemoryBlob PyExc Str Unit := (wrapper pre).iterate

/-- The list of the lazy generator is the list that the synchronous version makes. -/
theorem wrapper_eq (pre : Str) : wrapper pre = ⟨MemoryBlob.matching pre, none⟩ := by
  have hinner : (inner pre).collect = MemoryBlob.matching pre :=
    congrArg Program.get (funext fun b => Program.collect_forEach_if _ b.data.keys)
  rw [wrapper, hinner]

/-- `gufo.blob.aio.memory.MemoryBlob`. -/
def backend : BlobBase locking MemoryBlob where
  put := MemoryBlob.put
  get := get
  delete := MemoryBlob.delete
  exists' := MemoryBlob.exists'
  scan := scan

end MemoryBlob

end Aio

end GufoBlob
