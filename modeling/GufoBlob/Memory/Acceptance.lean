import GufoBlob.Memory.Limits

/-!
# What the memory backend accepts

`put` is to accept an update exactly when the map that it leaves is within the limits. `_check_limits`
looks the old value up unless the key is empty, so a value under the empty key is counted beside the
one that replaces it.

* `put_exact_iff` — in every reachable state `put` is exact, but for the updates under the empty key
  that are refused for that reason.
* `not_put_exact_empty` — two octets are to replace two octets under the empty key.
-/

namespace GufoBlob

open Text Data Interaction

namespace MemoryBlob

/-- The map with `data` under `key` is within the limits. -/
structure Fits (s : MemoryBlob) (key : Str) (data : Bytes) : Prop where
  objects : ∀ n, s.maxObjects = some n → key ∈ s.data ∨ ((s.data.set key data).size : Int) ≤ n
  size : ∀ n, s.maxSize = some n → (s.data.set key data).total len ≤ n

/-- `put` stores `data` under `key` when that is within the limits, and raises `BlobError` when it is
not. -/
def PutExact (b : BlobBase locking MemoryBlob) (s : MemoryBlob) (key : Str) (data : Bytes) : Prop :=
  match (b.perform (.put key data)).run uncontended s () with
  | (.ok _, s', _) => s.Fits key data ∧ s'.data = s.data.set key data
  | (.error (.blobError _), _, _) => ¬ s.Fits key data
  | _ => False

/-- Data that replaces the value under the empty key fits beside that value too, or not even in its
place. -/
def FitsBeside (s : MemoryBlob) (key : Str) (data : Bytes) : Prop :=
  ∀ old n, key = [] → s.data.get? [] = some old → s.maxSize = some n →
    s.data.total len + len data ≤ n ∨ n < (s.data.set key data).total len

/-- The projected state of `_check_limits` is within the limits. -/
structure Projected (s : MemoryBlob) (key : Str) (size : Int) : Prop where
  objects : ∀ n, s.maxObjects = some n → key ∈ s.data ∨ (s.data.size : Int) + 1 ≤ n
  size : ∀ n, s.maxSize = some n → s.size - s.oldSize (some key) + size ≤ n

/-- `_check_limits` accepts exactly the projected states within the limits. -/
theorem checkLimits_cases (s : MemoryBlob) (key : Str) (size : Int) :
    (s.Projected key size ∧ s.checkLimits (some key) size = .ok ()) ∨
      (¬ s.Projected key size ∧
        ∃ msg, s.checkLimits (some key) size = .error (.blobError msg)) := by
  have hprojected : s.Projected key size ↔
      (∀ n, s.maxObjects = some n → key ∈ s.data ∨ (s.data.size : Int) + 1 ≤ n) ∧
        ∀ n, s.maxSize = some n → s.size - s.oldSize (some key) + size ≤ n :=
    ⟨fun h => ⟨h.objects, h.size⟩, fun h => ⟨h.1, h.2⟩⟩
  rw [hprojected]
  unfold checkLimits isNew
  cases s.maxObjects <;> cases s.maxSize <;>
    simp only [bind, Except.bind, throw, throwThe, MonadExceptOf.throw, pure, Except.pure] <;> grind

/-- The projection is the map that the update leaves, but for a value under the empty key. -/
theorem projected_iff {s : MemoryBlob} (hs : s.Inv) (key : Str) (data : Bytes) :
    s.Projected key (len data) ↔
      s.Fits key data ∧ ∀ old n, key = [] → s.data.get? [] = some old → s.maxSize = some n →
        s.data.total len + len data ≤ n := by
  have htotal := Dict.total_set len s.data key data
  have hcount := Dict.size_set s.data key data
  have hstored : s.size = s.data.total len := hs.size_eq
  have hobjects : (∀ n, s.maxObjects = some n → key ∈ s.data ∨ (s.data.size : Int) + 1 ≤ n) ↔
      ∀ n, s.maxObjects = some n → key ∈ s.data ∨ ((s.data.set key data).size : Int) ≤ n := by
    grind
  cases key with
  | cons c cs =>
      -- the old size that is subtracted is the right one
      have hold : s.oldSize (some (c :: cs)) = ((s.data.get? (c :: cs)).map len).getD 0 := rfl
      constructor
      · intro h
        refine ⟨⟨hobjects.mp h.objects, fun n hn => ?_⟩, by simp⟩
        have hle := h.size n hn
        omega
      · rintro ⟨h, -⟩
        refine ⟨hobjects.mpr h.objects, fun n hn => ?_⟩
        have hle := h.size n hn
        omega
  | nil =>
      have hold : s.oldSize (some []) = 0 := rfl
      have hnonneg : 0 ≤ ((s.data.get? []).map len).getD 0 := oldSize_le s []
      constructor
      · intro h
        refine ⟨⟨hobjects.mp h.objects, fun n hn => ?_⟩, fun old n _ _ hn => ?_⟩
        · have hle := h.size n hn
          omega
        · have hle := h.size n hn
          omega
      · rintro ⟨h, hbeside⟩
        refine ⟨hobjects.mpr h.objects, fun n hn => ?_⟩
        have hle := h.size n hn
        cases hget : s.data.get? [] with
        | none =>
            rw [hget] at htotal
            have hzero : ((none : Option Bytes).map len).getD 0 = 0 := rfl
            omega
        | some old =>
            have hle' := hbeside old n rfl hget hn
            omega

/-- **`put` accepts exactly the updates within the limits**, in both classes and every state that
calls on an empty blob can reach, if and only if a value that replaces the one under the empty key
fits beside it, or not at all. -/
theorem put_exact_iff {b : BlobBase locking MemoryBlob} (hb : b ∈ backends)
    (maxObjects maxSize : Option Int) {s : MemoryBlob} {w : Unit}
    (hs : Program.Reachable uncontended b.perform (fun s _ => s = init maxObjects maxSize) s w)
    (key : Str) (data : Bytes) : PutExact b s key data ↔ s.FitsBeside key data := by
  obtain ⟨hinv, -, -⟩ := reachable_inv hb hs
  have hprojected := projected_iff hinv key data
  unfold PutExact
  rw [run_backends hb]
  rcases checkLimits_cases s key (len data) with ⟨hp, hok⟩ | ⟨hp, msg, herror⟩
  · obtain ⟨hfits, hbeside⟩ := hprojected.mp hp
    have heffect : effect (.put key data) s = (.ok .none, s.store key data) := by
      simp [effect, hok]
    rw [heffect]
    exact iff_of_true ⟨hfits, rfl⟩ fun old n hkey hold hn => .inl (hbeside old n hkey hold hn)
  · have heffect : effect (.put key data) s = (.error (.blobError msg), s) := by
      simp [effect, herror]
    rw [heffect]
    show ¬ s.Fits key data ↔ s.FitsBeside key data
    constructor
    · rintro hno old n rfl hold hn
      right
      by_contra hle
      have hmem : [] ∈ s.data := by
        by_contra hmem
        rw [Dict.get?_eq_none_iff.mpr hmem] at hold
        cases hold
      refine hno ⟨fun _ _ => .inl hmem, fun m hm => ?_⟩
      obtain rfl : n = m := Option.some.inj (hn.symm.trans hm)
      exact Int.not_lt.mp hle
    · intro hbeside hfits
      refine hp (hprojected.mpr ⟨hfits, fun old n hkey hold hn => ?_⟩)
      exact (hbeside old n hkey hold hn).resolve_right (Int.not_lt.mpr (hfits.size n hn))

/-- A blob for three octets, with two of them under one key. -/
def holding (key : Str) : MemoryBlob :=
  ((Sync.MemoryBlob.backend.perform (.put key [1, 2])).run uncontended (init none (some 3)) ()).2.1

theorem reachable_holding (key : Str) : Program.Reachable uncontended
    Sync.MemoryBlob.backend.perform (fun s _ => s = init none (some 3)) (holding key) () := by
  refine Program.Reachable.step (Call.put key [1, 2]) (.init rfl) ?_
  cases key <;> exact nofun

/-- Under the key `a`, two octets are replaced. -/
theorem put_exact_iff_replaced : PutExact Sync.MemoryBlob.backend (holding ['a']) ['a'] [3, 4] :=
  (put_exact_iff (by simp [backends]) none (some 3) (reachable_holding ['a']) _ _).mpr nofun

/-- Under the empty key they are not, although there would be two octets afterwards. -/
theorem not_put_exact_empty :
    Program.Reachable uncontended Sync.MemoryBlob.backend.perform
        (fun s _ => s = init none (some 3)) (holding []) () ∧
      (Sync.MemoryBlob.backend.perform (.put [] [3, 4])).run uncontended (holding []) () =
        (.error (.blobError "max_size limit exceeded"), holding [], ()) ∧
      (holding []).Fits [] [3, 4] ∧ ¬ PutExact Sync.MemoryBlob.backend (holding []) [] [3, 4] := by
  have hfits : (holding []).Fits [] [3, 4] := by
    refine ⟨nofun, fun n hn => ?_⟩
    obtain rfl : 3 = n := Option.some.inj hn
    decide
  exact ⟨reachable_holding [], rfl, hfits, fun h => h hfits⟩

end MemoryBlob

end GufoBlob
