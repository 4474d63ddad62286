import GufoBlob.FlatStore
import Mathlib.Data.List.Nodup

/-!
# Stores in one store

Several stores that keep their keys in one flat store, each below a prefix of its own. `Lifted` is
their common history as the whole sees it: every key has the prefix of its store in front.

* `answers_lift_iff` — a call answers from what is below its prefix.
* `consistent_own` — stores with prefixes of which none begins another one do not notice each other:
  the calls of each are a history of a store of its own.
-/

namespace GufoBlob.FlatStore

open Text Data Interaction

/-- The part of `m` whose keys begin with `p`, without it. -/
def below (p : Str) (m : Contents) : Contents := fun key => m (p ++ key)

/-- A call with `p` in front of its key. -/
def liftCall (p : Str) : Call → Call
  | .open' => .open'
  | .close => .close
  | .put key data => .put (p ++ key) data
  | .get key => .get (p ++ key)
  | .delete key => .delete (p ++ key)
  | .exists' key => .exists' (p ++ key)
  | .scan pre => .scan (p ++ pre)

/-- The keys of an outcome with `p` in front. -/
def liftOutcome (p : Str) : Outcome PyExc Value → Outcome PyExc Value
  | .ok (.keys ks) => .ok (.keys (ks.map fun key => p ++ key))
  | .error (.keyError key) => .error (.keyError (p ++ key))
  | o => o

section Lift

variable {p : Str} {m : Contents} {c : Call} {o : Outcome PyExc Value}

theorem liftOutcome_ok {v : Value} (hv : ∀ ks, v ≠ .keys ks) : liftOutcome p (.ok v) = .ok v := by
  cases v with
  | keys ks => exact absurd rfl (hv ks)
  | _ => rfl

theorem liftOutcome_eq_ok_iff {v : Value} (hv : ∀ ks, v ≠ .keys ks) :
    liftOutcome p o = .ok v ↔ o = .ok v := by
  constructor
  · intro h
    cases o with
    | ok w =>
        cases w with
        | keys ks => exact absurd (Outcome.ok.inj h).symm (hv _)
        | _ => exact h
    | error e => cases e <;> cases h
    | spun => cases h
  · rintro rfl
    exact liftOutcome_ok hv

theorem liftOutcome_eq_keyError_iff {key : Str} :
    liftOutcome p o = .error (.keyError (p ++ key)) ↔ o = .error (.keyError key) := by
  constructor
  · intro h
    cases o with
    | ok v => cases v <;> cases h
    | error e =>
        cases e with
        | keyError k =>
            have hk : p ++ k = p ++ key := PyExc.keyError.inj (Outcome.error.inj h)
            rw [List.append_cancel_left hk]
        | _ => cases h
    | spun => cases h
  · rintro rfl
    rfl

theorem liftOutcome_eq_keys_iff {ks' : List Str} :
    liftOutcome p o = .ok (.keys ks') ↔
      ∃ ks : List Str, o = .ok (.keys ks) ∧ (ks.map fun key => p ++ key) = ks' := by
  constructor
  · intro h
    cases o with
    | ok v =>
        cases v with
        | keys ks => exact ⟨ks, rfl, Value.keys.inj (Outcome.ok.inj h)⟩
        | _ => cases h
    | error e => cases e <;> cases h
    | spun => cases h
  · rintro ⟨ks, rfl, rfl⟩
    rfl

/-- The whole answers a call from what is below the prefix. -/
theorem answers_lift_iff :
    Answers m (liftCall p c) (liftOutcome p o) ↔ Answers (below p m) c o := by
  have hplain : ∀ {v : Value}, (∀ ks, v ≠ .keys ks) →
      (liftOutcome p o = .ok v ↔ o = .ok v) := liftOutcome_eq_ok_iff
  have hnone : liftOutcome p o = .ok .none ↔ o = .ok .none := hplain (by simp)
  cases c with
  | open' => exact hnone
  | close => exact hnone
  | put key data => exact hnone
  | get key =>
      cases hkey : m (p ++ key) with
      | some data => simpa [Answers, liftCall, below, hkey] using hplain (by simp)
      | none => simpa [Answers, liftCall, below, hkey] using liftOutcome_eq_keyError_iff
  | delete key =>
      cases hkey : m (p ++ key) with
      | some data => simpa [Answers, liftCall, below, hkey] using hplain (by simp)
      | none => simpa [Answers, liftCall, below, hkey] using liftOutcome_eq_keyError_iff
  | exists' key => exact hplain (by simp)
  | scan pre =>
      have hinj : Function.Injective fun key : Str => p ++ key := fun _ _ => List.append_cancel_left
      constructor
      · rintro ⟨ks', ho, hnodup, hmem⟩
        obtain ⟨ks, rfl, rfl⟩ := liftOutcome_eq_keys_iff.mp ho
        refine ⟨ks, rfl, hnodup.of_map _, fun k => ?_⟩
        have hk := hmem (p ++ k)
        rwa [List.mem_map_of_injective hinj, List.prefix_append_right_inj] at hk
      · rintro ⟨ks, rfl, hnodup, hmem⟩
        refine ⟨_, rfl, hnodup.map hinj, fun k => ?_⟩
        rw [List.mem_map]
        constructor
        · rintro ⟨k, hk, rfl⟩
          exact ⟨((hmem k).mp hk).1, (List.prefix_append_right_inj p).mpr ((hmem k).mp hk).2⟩
        · rintro ⟨hsome, t, rfl⟩
          rw [List.append_assoc] at hsome ⊢
          exact ⟨pre ++ t, (hmem _).mpr ⟨hsome, List.prefix_append pre t⟩, rfl⟩

/-- What a call has changed, with the prefix in front. -/
theorem writeOf_lift :
    writeOf (liftCall p c) (liftOutcome p o) = (writeOf c o).map (.rename fun key => p ++ key) := by
  have hok : ∀ v, ∃ v', liftOutcome p (.ok v) = .ok v' := fun v => by
    cases v <;> exact ⟨_, rfl⟩
  have herror : ∀ e, ∃ e', liftOutcome p (.error e) = .error e' := fun e => by
    cases e <;> exact ⟨_, rfl⟩
  cases o with
  | ok v =>
      obtain ⟨v', hv'⟩ := hok v
      rw [hv']
      cases c <;> rfl
  | error e =>
      obtain ⟨e', he'⟩ := herror e
      rw [he']
      cases c <;> rfl
  | spun => cases c <;> rfl

/-- A call changes what is below its prefix, as it would change a store of its own. -/
theorem below_contents_lift :
    below p (contents m (writeOf (liftCall p c) (liftOutcome p o))) =
      contents (below p m) (writeOf c o) := by
  rw [writeOf_lift]
  exact contents_rename (fun _ _ => List.append_cancel_left) _

/-- It leaves alone what is below another prefix, when neither of the two begins the other one. -/
theorem below_contents_apart {q : Str} (hpq : ¬ p <+: q) (hqp : ¬ q <+: p) :
    below q (contents m (writeOf (liftCall p c) (liftOutcome p o))) = below q m := by
  rw [writeOf_lift]
  funext key
  refine contents_rename_of_ne (fun k heq => ?_) _
  rcases List.prefix_or_prefix_of_prefix ⟨k, heq⟩ (List.prefix_append q key) with h | h
  · exact hpq h
  · exact hqp h

theorem liftOutcome_eq_blobError_iff {text : String} :
    liftOutcome p o = .error (.blobError text) ↔ o = .error (.blobError text) := by
  constructor
  · intro h
    cases o with
    | ok v => cases v <;> cases h
    | error e => cases e <;> first | exact h | cases h
    | spun => cases h
  · rintro rfl
    rfl

/-- Failures are instances of `BlobError`, and any call may have each of them. -/
def Uniform (raises : Failures) : Prop :=
  ∀ c c' e, raises c e → (∃ text, e = .blobError text) ∧ raises c' e

theorem responds_lift_iff {raises : Failures} (hraises : Uniform raises) :
    Responds raises m (liftCall p c) (liftOutcome p o) ↔ Responds raises (below p m) c o := by
  refine or_congr answers_lift_iff ?_
  constructor
  · rintro ⟨e, ho, he⟩
    obtain ⟨⟨text, rfl⟩, he'⟩ := hraises _ c e he
    exact ⟨_, liftOutcome_eq_blobError_iff.mp ho, he'⟩
  · rintro ⟨e, ho, he⟩
    obtain ⟨⟨text, rfl⟩, he'⟩ := hraises _ (liftCall p c) e he
    exact ⟨_, liftOutcome_eq_blobError_iff.mpr ho, he'⟩

end Lift

/-! ## A common history -/

section Shared

variable {ι : Type} {p : ι → Str} {raises : Failures} {m : Contents}
  {l : List ((ι × Call) × Outcome PyExc Value)}

/-- The common history of the stores, as the whole sees it. -/
def lifted (p : ι → Str) (l : List ((ι × Call) × Outcome PyExc Value)) :
    List (Call × Outcome PyExc Value) :=
  l.map fun r => (liftCall (p r.1.1) r.1.2, liftOutcome (p r.1.1) r.2)

/-- The calls of one store, with their outcomes. -/
def own [DecidableEq ι] (i : ι) (l : List ((ι × Call) × Outcome PyExc Value)) :
    List (Call × Outcome PyExc Value) :=
  (l.filter fun r => r.1.1 = i).map fun r => (r.1.2, r.2)

/-- **Stores whose prefixes do not begin one another do not notice each other.** -/
theorem consistent_own [DecidableEq ι] (hraises : Uniform raises)
    (hapart : ∀ i j, i ≠ j → ¬ p i <+: p j) (hl : Consistent raises m (lifted p l)) (i : ι) :
    Consistent raises (below (p i) m) (own i l) := by
  induction l generalizing m with
  | nil => exact fun l₁ c o l₂ heq => by simp [own] at heq
  | cons r l ih =>
      obtain ⟨⟨j, c⟩, o⟩ := r
      obtain ⟨hhead, htail⟩ := consistent_cons.mp hl
      have hrest := ih htail
      by_cases hij : j = i
      · subst hij
        rw [below_contents_lift] at hrest
        have hown : own j (((j, c), o) :: l) = (c, o) :: own j l := by simp [own]
        rw [hown]
        exact consistent_cons.mpr ⟨(responds_lift_iff hraises).mp hhead, hrest⟩
      · rw [below_contents_apart (hapart j i hij) (hapart i j (Ne.symm hij))] at hrest
        have hown : own i (((j, c), o) :: l) = own i l := by simp [own, hij]
        rw [hown]
        exact hrest

/-- What is below none of the prefixes stays. -/
theorem contents_lifted_outside {k : Str} (hk : ∀ i, ¬ p i <+: k) :
    contents m (writes (lifted p l)) k = m k := by
  refine contents_of_ne fun x hx heq => ?_
  obtain ⟨r', hr', hx⟩ := List.mem_flatMap.mp hx
  obtain ⟨r, -, rfl⟩ := List.mem_map.mp hr'
  rw [writeOf_lift] at hx
  obtain ⟨y, -, rfl⟩ := List.mem_map.mp hx
  rw [Write.rename_key] at heq
  exact hk r.1.1 ⟨y.key, heq⟩

end Shared

end GufoBlob.FlatStore
