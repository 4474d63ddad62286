import Mathlib.Logic.Function.Basic
import Mathlib.Data.List.Basic

/-!
# The contents of a map after a list of changes

`contents m l` is the map that the changes `l` make of `m`, and `contents_cases` says what it has
under a key: what the last change of that key left there.
-/

namespace GufoBlob.Data

open Function

variable {κ ν : Type}

/-- A change of a map. -/
inductive Write (κ ν : Type) where
  | assign (k : κ) (v : ν)
  | remove (k : κ)
  deriving DecidableEq

namespace Write

def key : Write κ ν → κ
  | .assign k _ => k
  | .remove k => k

/-- What the change leaves under its key. -/
def left : Write κ ν → Option ν
  | .assign _ v => some v
  | .remove _ => none

/-- The change of another map, whose keys have other names. -/
def rename {κ' : Type} (f : κ → κ') : Write κ ν → Write κ' ν
  | .assign k v => .assign (f k) v
  | .remove k => .remove (f k)

@[simp] theorem rename_key {κ' : Type} (f : κ → κ') (x : Write κ ν) : (x.rename f).key = f x.key := by
  cases x <;> rfl

@[simp] theorem rename_left {κ' : Type} (f : κ → κ') (x : Write κ ν) : (x.rename f).left = x.left := by
  cases x <;> rfl

end Write

variable [DecidableEq κ]

/-- The map after the changes, the first of them first. -/
def contents (m : κ → Option ν) : List (Write κ ν) → κ → Option ν
  | [] => m
  | x :: l => contents (update m x.key x.left) l

section Contents

variable (m : κ → Option ν) (k : κ) (v : ν)

@[simp] theorem contents_nil : contents m [] = m := rfl

@[simp] theorem contents_assign : contents m [.assign k v] = update m k (some v) := rfl

@[simp] theorem contents_remove : contents m [.remove k] = update m k none := rfl

variable {m k}

theorem contents_append (l l' : List (Write κ ν)) :
    contents m (l ++ l') = contents (contents m l) l' := by
  induction l generalizing m with
  | nil => rfl
  | cons x l ih => exact ih

/-- Changes of other keys leave a key alone. -/
theorem contents_of_ne {l : List (Write κ ν)} (hl : ∀ x ∈ l, x.key ≠ k) :
    contents m l k = m k := by
  induction l generalizing m with
  | nil => rfl
  | cons x l ih =>
      have hx : k ≠ x.key := Ne.symm (hl x List.mem_cons_self)
      rw [contents, ih fun y hy => hl y (List.mem_cons_of_mem x hy), update_of_ne hx]

/-- The last change of a key decides what is there. -/
theorem contents_of_last {l l' : List (Write κ ν)} {x : Write κ ν} (hl' : ∀ y ∈ l', y.key ≠ x.key) :
    contents m (l ++ x :: l') x.key = x.left := by
  rw [contents_append, contents, contents_of_ne hl', update_self]

/-- Either the last change of a key left what is there, or it has not been changed. -/
theorem contents_cases (m : κ → Option ν) (l : List (Write κ ν)) (k : κ) :
    (∃ l₁ x l₂, l = l₁ ++ x :: l₂ ∧ x.key = k ∧ (∀ y ∈ l₂, y.key ≠ k) ∧ contents m l k = x.left) ∨
      ((∀ x ∈ l, x.key ≠ k) ∧ contents m l k = m k) := by
  induction l generalizing m with
  | nil => exact .inr ⟨fun x hx => absurd hx List.not_mem_nil, rfl⟩
  | cons x l ih =>
      rcases ih (update m x.key x.left) with ⟨l₁, y, l₂, rfl, hy, hl₂, heq⟩ | ⟨hl, heq⟩
      · exact .inl ⟨x :: l₁, y, l₂, rfl, hy, hl₂, heq⟩
      · by_cases hx : x.key = k
        · refine .inl ⟨[], x, l, rfl, hx, hl, ?_⟩
          rw [contents, heq, hx, update_self]
        · refine .inr ⟨fun y hy => ?_, ?_⟩
          · rcases List.mem_cons.mp hy with rfl | hy
            · exact hx
            · exact hl y hy
          · rw [contents, heq, update_of_ne (Ne.symm hx)]

/-- What is under a key that was not there at first: the value that the last change of the key
assigned. -/
theorem contents_eq_some_iff {l : List (Write κ ν)} {v : ν} (hk : m k = none) :
    contents m l k = some v ↔
      ∃ l₁ l₂, l = l₁ ++ .assign k v :: l₂ ∧ ∀ y ∈ l₂, y.key ≠ k := by
  constructor
  · intro hv
    rcases contents_cases m l k with ⟨l₁, x, l₂, rfl, hx, hl₂, heq⟩ | ⟨-, heq⟩
    · cases x with
      | assign k' v' =>
          obtain rfl : k' = k := hx
          obtain rfl : v' = v := Option.some.inj (heq.symm.trans hv)
          exact ⟨l₁, l₂, rfl, hl₂⟩
      | remove k' => cases heq.symm.trans hv
    · rw [heq, hk] at hv
      cases hv
  · rintro ⟨l₁, l₂, rfl, hl₂⟩
    exact contents_of_last (x := .assign k v) hl₂

/-! ## Other names -/

variable {κ' : Type} [DecidableEq κ'] {m' : κ' → Option ν} {f : κ → κ'}

/-- Changes under other names are changes of the part that has these names. -/
theorem contents_rename (hf : Function.Injective f) (l : List (Write κ ν)) :
    (fun k => contents m' (l.map (Write.rename f)) (f k)) = contents (fun k => m' (f k)) l := by
  induction l generalizing m' with
  | nil => rfl
  | cons x l ih =>
      rw [List.map_cons, contents, contents, ih, Write.rename_key, Write.rename_left]
      congr 1
      exact update_comp_eq_of_injective m' hf x.key x.left

omit [DecidableEq κ] in
/-- They leave alone what has none of these names. -/
theorem contents_rename_of_ne {k' : κ'} (hk' : ∀ k, f k ≠ k') (l : List (Write κ ν)) :
    contents m' (l.map (Write.rename f)) k' = m' k' := by
  refine contents_of_ne fun x hx => ?_
  obtain ⟨y, -, rfl⟩ := List.mem_map.mp hx
  rw [Write.rename_key]
  exact hk' y.key

end Contents

end GufoBlob.Data
