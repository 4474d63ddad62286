import GufoBlob.Text.Basic

/-!
# Exceptions

The exceptions that the code raises or lets through. `BlobError` carries its message and `KeyError`
its key; the others are Python's own. An `OSError` of a socket call is an `IOErr`, which keeps the
three classes that the FTP backends tell apart, and one of a file system call is a `FileErr`.
-/

namespace GufoBlob

open Text

/-- What a call to the network may raise: `TimeoutError` and `ConnectionRefusedError` are subclasses
of `OSError`. Each carries `str(e)`. What is no `OSError` is a `runtime` error: a `RuntimeError`, or
an exception of another class, whose name is then in front of its text. -/
inductive IOErr where
  | timeout (e : String)
  | refused (e : String)
  | os (e : String)
  | runtime (e : String)
  deriving DecidableEq

/-- The subclasses of `OSError` that a file system call raises. -/
inductive FileErr where
  | fileNotFound
  | fileExists
  | isADirectory
  | notADirectory
  | other (e : String)
  deriving DecidableEq

/-- The exceptions of the modelled code. -/
inductive PyExc where
  | blobError (msg : String)
  | keyError (key : Str)
  | ioError (e : IOErr)
  | sqliteError (e : String)
  | osError (e : FileErr)
  | valueError (e : String)
  | indexError
  | attributeError
  deriving DecidableEq

/-- A string inside an f-string. -/
def fmt (s : Str) : String := String.ofList s

/-- A sequence returns exactly when both parts do. -/
theorem except_bind_eq_ok_iff {ε α β : Type} {x : Except ε α} {f : α → Except ε β} {b : β} :
    (x >>= f) = .ok b ↔ ∃ a, x = .ok a ∧ f a = .ok b := by
  cases x with
  | ok a => exact ⟨fun h => ⟨a, rfl, h⟩, fun ⟨_, ha, h⟩ => Except.ok.inj ha ▸ h⟩
  | error e => exact ⟨nofun, fun ⟨_, ha, _⟩ => nomatch ha⟩

/-- What a list of computations returns, one of them returned. -/
theorem exists_of_mem_mapM {ε α β : Type} {f : α → Except ε β} {l : List α} {bs : List β}
    (h : l.mapM f = .ok bs) {b : β} (hb : b ∈ bs) : ∃ a ∈ l, f a = .ok b := by
  induction l generalizing bs with
  | nil =>
      obtain rfl : [] = bs := Except.ok.inj h
      cases hb
  | cons a l ih =>
      rw [List.mapM_cons] at h
      obtain ⟨b', hb', h⟩ := except_bind_eq_ok_iff.mp h
      obtain ⟨bs', hbs', h⟩ := except_bind_eq_ok_iff.mp h
      obtain rfl : b' :: bs' = bs := Except.ok.inj h
      rcases List.mem_cons.mp hb with rfl | hb
      · exact ⟨a, List.mem_cons_self, hb'⟩
      · obtain ⟨a', ha', heq⟩ := ih hbs' hb
        exact ⟨a', List.mem_cons_of_mem _ ha', heq⟩

/-- A sequence raises what one of its parts raises. -/
theorem except_bind_eq_error {ε α β : Type} {x : Except ε α} {f : α → Except ε β} {e : ε}
    (h : (x >>= f) = .error e) : x = .error e ∨ ∃ a, x = .ok a ∧ f a = .error e := by
  cases x with
  | ok a => exact .inr ⟨a, rfl, h⟩
  | error e' => exact .inl (congrArg _ (Except.error.inj h))

end GufoBlob
