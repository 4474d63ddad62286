import Mathlib.Algebra.BigOperators.Group.List.Basic
import Mathlib.Algebra.Ring.Int.Defs
import Mathlib.Data.List.Nodup

/-!
# Insertion-ordered dictionaries

A Python `dict`: the entries in insertion order, no key twice. Assigning to a present key keeps its
place, assigning to a new one appends it. `total f` is the sum of `f` over the values; the two laws
`total_set` and `total_erase` say what one assignment and one deletion change in it.
-/

namespace GufoBlob.Data

variable {κ ν : Type}

structure Dict (κ ν : Type) where
  entries : List (κ × ν)
  nodup : (entries.map Prod.fst).Nodup

namespace Dict

/-- `{}`. -/
def empty : Dict κ ν := ⟨[], List.nodup_nil⟩

/-- The keys, in insertion order. -/
def keys (d : Dict κ ν) : List κ := d.entries.map Prod.fst

/-- `len(d)`. -/
def size (d : Dict κ ν) : Nat := d.entries.length

/-- The sum of `f` over the values. -/
def total (f : ν → Int) (d : Dict κ ν) : Int := (d.entries.map fun e => f e.2).sum

@[ext] theorem ext {d e : Dict κ ν} (h : d.entries = e.entries) : d = e := by
  cases d
  cases e
  cases h
  rfl

theorem size_eq_length_keys (d : Dict κ ν) : d.size = d.keys.length := by
  simp [size, keys]

instance : Membership κ (Dict κ ν) := ⟨fun d k => k ∈ d.keys⟩

section DecidableEq

variable [DecidableEq κ]

private def getEntry (k : κ) : List (κ × ν) → Option ν
  | [] => none
  | e :: es => if e.1 = k then some e.2 else getEntry k es

private def setEntry (k : κ) (v : ν) : List (κ × ν) → List (κ × ν)
  | [] => [(k, v)]
  | e :: es => if e.1 = k then (k, v) :: es else e :: setEntry k v es

private theorem keys_setEntry (k : κ) (v : ν) (es : List (κ × ν)) :
    (setEntry k v es).map Prod.fst =
      if k ∈ es.map Prod.fst then es.map Prod.fst else es.map Prod.fst ++ [k] := by
  induction es with
  | nil => simp [setEntry]
  | cons e es ih =>
      by_cases h : e.1 = k
      · simp [setEntry, h]
      · have hk : k ≠ e.1 := fun hk => h hk.symm
        simp only [setEntry, h, if_false, List.map_cons, ih, List.mem_cons, hk, false_or]
        split <;> rfl

/-- `d.get(k)`. -/
def get? (d : Dict κ ν) (k : κ) : Option ν := getEntry k d.entries

/-- `d[k] = v`. -/
def set (d : Dict κ ν) (k : κ) (v : ν) : Dict κ ν where
  entries := setEntry k v d.entries
  nodup := by
    rw [keys_setEntry]
    split
    · exact d.nodup
    · next h => exact List.nodup_append.mpr ⟨d.nodup, List.nodup_singleton k, by
        intro a ha b hb
        rw [List.mem_singleton.mp hb]
        exact fun hab => h (hab ▸ ha)⟩

/-- `d.pop(k)`, without its result. -/
def erase (d : Dict κ ν) (k : κ) : Dict κ ν where
  entries := d.entries.filter fun e => e.1 ≠ k
  nodup := d.nodup.sublist (List.filter_sublist.map _)

instance (k : κ) (d : Dict κ ν) : Decidable (k ∈ d) := inferInstanceAs (Decidable (k ∈ d.keys))

private theorem getEntry_eq_none_iff {k : κ} {es : List (κ × ν)} :
    getEntry k es = none ↔ k ∉ es.map Prod.fst := by
  induction es with
  | nil => simp [getEntry]
  | cons e es ih =>
      by_cases h : e.1 = k
      · simp [getEntry, h]
      · have hk : k ≠ e.1 := fun hk => h hk.symm
        simp only [getEntry, h, if_false, ih, List.map_cons, List.mem_cons, hk, false_or]

theorem get?_eq_none_iff {d : Dict κ ν} {k : κ} : d.get? k = none ↔ k ∉ d := getEntry_eq_none_iff

private theorem getEntry_setEntry (k j : κ) (v : ν) (es : List (κ × ν)) :
    getEntry j (setEntry k v es) = if j = k then some v else getEntry j es := by
  induction es with
  | nil => simp [setEntry, getEntry, eq_comm]
  | cons e es ih =>
      by_cases hek : e.1 = k
      · by_cases hjk : j = k
        · simp [setEntry, getEntry, hek, hjk]
        · have hkj : k ≠ j := fun h => hjk h.symm
          simp [setEntry, getEntry, hek, hjk, hkj]
      · by_cases hej : e.1 = j
        · have hjk : j ≠ k := fun h => hek (hej.trans h)
          simp [setEntry, getEntry, hej, hjk]
        · simp [setEntry, getEntry, hek, hej, ih]

/-- Looking up after an assignment. -/
theorem get?_set (d : Dict κ ν) (k j : κ) (v : ν) :
    (d.set k v).get? j = if j = k then some v else d.get? j := getEntry_setEntry k j v d.entries

/-- Looking up after a deletion. -/
theorem get?_erase (d : Dict κ ν) (k j : κ) :
    (d.erase k).get? j = if j = k then none else d.get? j := by
  have key : ∀ es : List (κ × ν), getEntry j (es.filter fun e => e.1 ≠ k) =
      if j = k then none else getEntry j es := by
    intro es
    induction es with
    | nil => simp [getEntry]
    | cons e es ih =>
        by_cases hek : e.1 = k
        · by_cases hjk : j = k
          · simpa [hek, hjk] using ih
          · have hkj : k ≠ j := fun h => hjk h.symm
            simpa [hek, hjk, hkj, getEntry] using ih
        · by_cases hej : e.1 = j
          · have hjk : j ≠ k := fun h => hek (hej.trans h)
            simp [hej, hjk, getEntry]
          · simpa [hek, hej, getEntry] using ih
  exact key d.entries

theorem get?_set_eq (d : Dict κ ν) (k : κ) (v : ν) :
    (d.set k v).get? = Function.update d.get? k (some v) := by
  funext j
  rw [get?_set, Function.update_apply]

theorem get?_erase_eq (d : Dict κ ν) (k : κ) :
    (d.erase k).get? = Function.update d.get? k none := by
  funext j
  rw [get?_erase, Function.update_apply]

theorem isSome_get?_iff {d : Dict κ ν} {k : κ} : (d.get? k).isSome ↔ k ∈ d := by
  rw [← not_iff_not, ← get?_eq_none_iff, Option.not_isSome_iff_eq_none]

theorem keys_set (d : Dict κ ν) (k : κ) (v : ν) :
    (d.set k v).keys = if k ∈ d then d.keys else d.keys ++ [k] := keys_setEntry k v d.entries

theorem size_set (d : Dict κ ν) (k : κ) (v : ν) :
    (d.set k v).size = if k ∈ d then d.size else d.size + 1 := by
  rw [size_eq_length_keys, keys_set, size_eq_length_keys]
  split <;> simp

theorem size_erase_le (d : Dict κ ν) (k : κ) : (d.erase k).size ≤ d.size :=
  List.length_filter_le _ _

/-- Deleting a new key again gives the dictionary back. -/
theorem erase_set {d : Dict κ ν} {k : κ} (h : k ∉ d) (v : ν) : (d.set k v).erase k = d := by
  have key : ∀ es : List (κ × ν), k ∉ es.map Prod.fst →
      (setEntry k v es).filter (fun e => e.1 ≠ k) = es := by
    intro es hes
    induction es with
    | nil => simp [setEntry]
    | cons e es ih =>
        obtain ⟨hne, hes⟩ : k ≠ e.1 ∧ k ∉ es.map Prod.fst := by simpa using hes
        have hek : e.1 ≠ k := fun h => hne h.symm
        have hrest := ih hes
        simpa [setEntry, hek] using hrest
  exact ext (key d.entries h)

/-- What one assignment adds to a sum over the values. -/
theorem total_set (f : ν → Int) (d : Dict κ ν) (k : κ) (v : ν) :
    (d.set k v).total f = d.total f + f v - ((d.get? k).map f).getD 0 := by
  have key : ∀ es : List (κ × ν), ((setEntry k v es).map fun e => f e.2).sum =
      (es.map fun e => f e.2).sum + f v - ((getEntry k es).map f).getD 0 := by
    intro es
    induction es with
    | nil => simp [setEntry, getEntry]
    | cons e es ih =>
        by_cases h : e.1 = k
        · simp [setEntry, getEntry, h]; omega
        · simp only [setEntry, getEntry, h, if_false, List.map_cons, List.sum_cons, ih]; omega
  exact key d.entries

/-- What one deletion takes from a sum over the values. -/
theorem total_erase (f : ν → Int) (d : Dict κ ν) (k : κ) :
    (d.erase k).total f = d.total f - ((d.get? k).map f).getD 0 := by
  have key : ∀ es : List (κ × ν), (es.map Prod.fst).Nodup →
      ((es.filter fun e => e.1 ≠ k).map fun e => f e.2).sum =
        (es.map fun e => f e.2).sum - ((getEntry k es).map f).getD 0 := by
    intro es hes
    induction es with
    | nil => simp [getEntry]
    | cons e es ih =>
        have hes' := List.nodup_cons.mp hes
        by_cases h : e.1 = k
        · -- the key occurs once, so the filter removes nothing else
          have hnone : getEntry k es = none := getEntry_eq_none_iff.mpr (h ▸ hes'.1)
          have hrest := ih hes'.2
          simp only [hnone, Option.map_none, Option.getD_none, sub_zero] at hrest
          simp [getEntry, h, ← hrest]
        · simp only [List.filter_cons, getEntry, h, ne_eq, not_false_eq_true, decide_true, if_true,
            if_false, List.map_cons, List.sum_cons]
          have hrest := ih hes'.2
          simp only [ne_eq] at hrest
          rw [hrest]
          omega
  exact key d.entries d.nodup

end DecidableEq

end Dict

end GufoBlob.Data
