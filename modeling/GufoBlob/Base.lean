import GufoBlob.Error
import GufoBlob.Interaction.Generator
import GufoBlob.Interaction.Runs

/-!
# The blob interface

`BlobBase`: what every backend offers, and the calls its callers make. `open` and `close` do nothing
unless a backend overrides them. `scan` is a generator; a call `scan p` consumes it to the end.

`Unified` is what the documentation promises of the errors of every backend.
-/

namespace GufoBlob

open Text Interaction

/-- The methods of a blob backend over the state `σ` and the calls of `I`. -/
structure BlobBase (I : Interface) (σ : Type) where
  open' : Program I σ PyExc Unit := .pure ()
  close : Program I σ PyExc Unit := .pure ()
  put : Str → Bytes → Program I σ PyExc Unit
  get : Str → Program I σ PyExc Bytes
  delete : Str → Program I σ PyExc Unit
  exists' : Str → Program I σ PyExc Bool
  scan : Str → Gen I σ PyExc Str Unit

/-- A call of a method. -/
inductive Call where
  | open'
  | close
  | put (key : Str) (data : Bytes)
  | get (key : Str)
  | delete (key : Str)
  | exists' (key : Str)
  | scan (pre : Str)
  deriving DecidableEq

/-- What a call returns. -/
inductive Value where
  | none
  | data (b : Bytes)
  | bool (b : Bool)
  | keys (ks : List Str)
  deriving DecidableEq

/-- The program that a call runs. -/
def BlobBase.perform {I : Interface} {σ : Type} (b : BlobBase I σ) :
    Call → Program I σ PyExc Value
  | .open' => b.open'.bind fun _ => .pure .none
  | .close => b.close.bind fun _ => .pure .none
  | .put key data => (b.put key data).bind fun _ => .pure .none
  | .get key => (b.get key).bind fun d => .pure (.data d)
  | .delete key => (b.delete key).bind fun _ => .pure .none
  | .exists' key => (b.exists' key).bind fun r => .pure (.bool r)
  | .scan pre => (b.scan pre).collect.bind fun ks => .pure (.keys ks)

/-- A call returns a value, raises `KeyError` exactly when `get` or `delete` is asked for a key that
is not stored, or raises `BlobError`. -/
def Unified (stored : Str → Prop) (c : Call) : Outcome PyExc Value → Prop
  | .ok _ => ∀ key, c = .get key ∨ c = .delete key → stored key
  | .error (.keyError key) => (c = .get key ∨ c = .delete key) ∧ ¬ stored key
  | .error (.blobError _) => True
  | _ => False

end GufoBlob
