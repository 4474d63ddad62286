import GufoBlob.Base
import GufoBlob.Data.Writes
import GufoBlob.Interaction.Refinement

/-!
# The flat key-value store

What a blob is for, without saying how: a map from keys to data. `FlatStore.spec` says what each call
does with it, and leaves open in which order `scan` lists the keys. A call may also fail, with an
exception that `raises` allows, and then changes nothing.

* `Consistent` — a history in which every call answers from the changes that the calls before it made.
  `runs_iff` says that these are the runs of the store.
* `Consistent.get_iff` — what `get` returns is what the last successful `put` of the key stored, unless
  the key was deleted after it.
* `same_of_consistent` — two stores that are asked the same give the same answers.
-/

namespace GufoBlob

open Text Data Interaction

/-- What is stored under each key. -/
abbrev Contents := Str → Option Bytes

namespace FlatStore

/-- Nothing is stored. -/
def empty : Contents := fun _ => none

/-- The change that a call has made when it ends so. -/
def writeOf : Call → Outcome PyExc Value → List (Write Str Bytes)
  | .put key data, .ok _ => [.assign key data]
  | .delete key, .ok _ => [.remove key]
  | _, _ => []

/-- What a call answers when `m` is stored. -/
def Answers (m : Contents) : Call → Outcome PyExc Value → Prop
  | .open', o => o = .ok .none
  | .close, o => o = .ok .none
  | .put _ _, o => o = .ok .none
  | .get key, o => o = match m key with
      | some data => .ok (.data data)
      | none => .error (.keyError key)
  | .delete key, o => o = match m key with
      | some _ => .ok .none
      | none => .error (.keyError key)
  | .exists' key, o => o = .ok (.bool (m key).isSome)
  | .scan pre, o => ∃ ks, o = .ok (.keys ks) ∧ ks.Nodup ∧
      ∀ k, k ∈ ks ↔ (m k).isSome ∧ pre <+: k

/-- The exceptions with which a call may fail. -/
abbrev Failures := Call → PyExc → Prop

/-- A store that never fails. -/
def noFailures : Failures := fun _ _ => False

/-- A call answers, or fails. -/
def Responds (raises : Failures) (m : Contents) (c : Call) (o : Outcome PyExc Value) : Prop :=
  Answers m c o ∨ ∃ e, o = .error e ∧ raises c e

/-- The store as a specification. -/
def spec (raises : Failures) : Spec Call PyExc Value Contents :=
  fun c m o m' => Responds raises m c o ∧ m' = contents m (writeOf c o)

/-- All changes that the calls of a history have made. -/
def writes (l : List (Call × Outcome PyExc Value)) : List (Write Str Bytes) :=
  l.flatMap fun r => writeOf r.1 r.2

/-- Every call answers from what the calls before it left, or fails. -/
def Consistent (raises : Failures) (m : Contents) (l : List (Call × Outcome PyExc Value)) : Prop :=
  ∀ l₁ c o l₂, l = l₁ ++ (c, o) :: l₂ → Responds raises (contents m (writes l₁)) c o

section Runs

variable {raises : Failures} {m m' : Contents} {l : List (Call × Outcome PyExc Value)}

theorem not_responds_spun (c : Call) : ¬ Responds raises m c .spun := by
  rintro (h | ⟨e, he, -⟩)
  · cases c with
    | open' => simp [Answers] at h
    | close => simp [Answers] at h
    | put key data => simp [Answers] at h
    | get key => cases hk : m key <;> simp [Answers, hk] at h
    | delete key => cases hk : m key <;> simp [Answers, hk] at h
    | exists' key => simp [Answers] at h
    | scan pre => simp [Answers] at h
  · cases he

theorem consistent_cons {c : Call} {o : Outcome PyExc Value} :
    Consistent raises m ((c, o) :: l) ↔
      Responds raises m c o ∧ Consistent raises (contents m (writeOf c o)) l := by
  constructor
  · intro h
    refine ⟨h [] c o l rfl, fun l₁ c' o' l₂ heq => ?_⟩
    have hlater := h ((c, o) :: l₁) c' o' l₂ (by rw [heq]; rfl)
    rwa [writes, List.flatMap_cons, contents_append] at hlater
  · rintro ⟨hhead, htail⟩ l₁ c' o' l₂ heq
    cases l₁ with
    | nil =>
        obtain ⟨hc, -⟩ := List.cons.inj heq
        obtain ⟨rfl, rfl⟩ := Prod.mk.inj hc
        exact hhead
    | cons r l₁ =>
        obtain ⟨rfl, rfl⟩ := List.cons.inj heq
        rw [writes, List.flatMap_cons, contents_append]
        exact htail l₁ c' o' l₂ rfl

/-- The runs of the store are the consistent histories. -/
theorem runs_iff : Spec.Runs (spec raises) m l m' ↔
    Consistent raises m l ∧ m' = contents m (writes l) := by
  induction l generalizing m with
  | nil =>
      constructor
      · intro h
        cases h
        exact ⟨fun l₁ c o l₂ heq => by simp at heq, rfl⟩
      · rintro ⟨-, rfl⟩
        exact .nil _
  | cons r l ih =>
      obtain ⟨c, o⟩ := r
      rw [consistent_cons, writes, List.flatMap_cons, contents_append]
      constructor
      · intro h
        cases h with
        | cons hc hl =>
            obtain ⟨hanswers, rfl⟩ := hc
            obtain ⟨hrest, hend⟩ := ih.mp hl
            exact ⟨⟨hanswers, hrest⟩, hend⟩
      · rintro ⟨⟨hanswers, hrest⟩, hend⟩
        exact .cons ⟨hanswers, rfl⟩ (ih.mpr ⟨hrest, hend⟩)

/-- A store with failures that another one has as well. -/
theorem Consistent.mono {raises' : Failures} (h : Consistent raises m l)
    (hle : ∀ c e, raises c e → raises' c e) : Consistent raises' m l := by
  intro l₁ c o l₂ hl
  rcases h l₁ c o l₂ hl with hanswers | ⟨e, he, hraises⟩
  · exact .inl hanswers
  · exact .inr ⟨e, he, hle c e hraises⟩

/-- What refines the store has consistent histories only, and holds what they left. -/
theorem consistent_of_refines {I : Interface} {σ W : Type} {h : Handler I W}
    {perform : Call → Program I σ PyExc Value} {K : Call → Prop} {R : σ → W → Contents → Prop}
    (href : Refines h perform (spec raises) K R) {cs : List Call} (hcs : ∀ c ∈ cs, K c) {s : σ} {w : W}
    (hR : R s w m) :
    (Program.runCalls h perform cs s w).1.length = cs.length ∧
      Consistent raises m (cs.zip (Program.runCalls h perform cs s w).1) ∧
      R (Program.runCalls h perform cs s w).2.1 (Program.runCalls h perform cs s w).2.2
        (contents m (writes (cs.zip (Program.runCalls h perform cs s w).1))) := by
  obtain ⟨m', hruns, hend, hlength⟩ := href.runs hcs hR
  obtain ⟨hconsistent, rfl⟩ := runs_iff.mp hruns
  exact ⟨hlength, hconsistent, hend⟩

end Runs

/-! ## What a key holds -/

section LastWrite

variable {raises : Failures} {l : List (Call × Outcome PyExc Value)} {key : Str}

/-- `get` returns data only when the last change of the key was a `put` of them, and without a failure
it does so whenever it was. -/
theorem Consistent.get_iff (h : Consistent raises empty l) {o : Outcome PyExc Value}
    {l₁ l₂ : List (Call × Outcome PyExc Value)} (hl : l = l₁ ++ (.get key, o) :: l₂)
    (ho : ∀ e, o = .error e → ¬ raises (.get key) e) (data : Bytes) :
    o = .ok (.data data) ↔
      ∃ x y, writes l₁ = x ++ .assign key data :: y ∧ ∀ z ∈ y, z.key ≠ key := by
  have hanswers : o = match contents empty (writes l₁) key with
      | some data => .ok (.data data)
      | none => .error (.keyError key) := (h l₁ _ o l₂ hl).resolve_right fun ⟨e, he, hr⟩ => ho e he hr
  rw [← contents_eq_some_iff (m := empty) rfl]
  cases hkey : contents empty (writes l₁) key with
  | none =>
      rw [hkey] at hanswers
      simp [hanswers]
  | some d =>
      rw [hkey] at hanswers
      simp [hanswers]

end LastWrite

/-! ## Stores give the same answers -/

/-- The same outcome, but for the order of keys. -/
inductive Same : Outcome PyExc Value → Outcome PyExc Value → Prop where
  | refl (o : Outcome PyExc Value) : Same o o
  | keys {ks ks' : List Str} : ks.Perm ks' → Same (.ok (.keys ks)) (.ok (.keys ks'))

/-- There is one answer to a call. -/
theorem same_of_answers {m : Contents} {c : Call} {o o' : Outcome PyExc Value}
    (h : Answers m c o) (h' : Answers m c o') : Same o o' := by
  have heq : o = o' → Same o o' := by
    rintro rfl
    exact .refl o
  cases c with
  | open' => exact heq (h.trans h'.symm)
  | close => exact heq (h.trans h'.symm)
  | put key data => exact heq (h.trans h'.symm)
  | get key => exact heq (h.trans h'.symm)
  | delete key => exact heq (h.trans h'.symm)
  | exists' key => exact heq (h.trans h'.symm)
  | scan pre =>
      obtain ⟨ks, rfl, hnodup, hmem⟩ := h
      obtain ⟨ks', rfl, hnodup', hmem'⟩ := h'
      exact .keys ((List.perm_ext_iff_of_nodup hnodup hnodup').mpr fun k =>
        (hmem k).trans (hmem' k).symm)

theorem Same.writeOf_eq {o o' : Outcome PyExc Value} (h : Same o o') (c : Call) :
    writeOf c o = writeOf c o' := by
  cases h with
  | refl => rfl
  | keys hperm => cases c <;> rfl

/-- **Stores that are asked the same answer the same**, but for the order of the keys of a `scan`. -/
theorem same_of_consistent {m : Contents} {cs : List Call} {os os' : List (Outcome PyExc Value)}
    (h : Consistent noFailures m (cs.zip os)) (h' : Consistent noFailures m (cs.zip os'))
    (hlength : os.length = cs.length) (hlength' : os'.length = cs.length) :
    List.Forall₂ Same os os' := by
  induction cs generalizing m os os' with
  | nil =>
      obtain rfl := List.length_eq_zero_iff.mp hlength
      obtain rfl := List.length_eq_zero_iff.mp hlength'
      exact .nil
  | cons c cs ih =>
      obtain ⟨o, os, rfl⟩ := List.exists_cons_of_length_eq_add_one hlength
      obtain ⟨o', os', rfl⟩ := List.exists_cons_of_length_eq_add_one hlength'
      obtain ⟨hc, hrest⟩ := consistent_cons.mp h
      obtain ⟨hc', hrest'⟩ := consistent_cons.mp h'
      have hanswers := hc.resolve_right fun ⟨_, _, hno⟩ => hno
      have hsame := same_of_answers hanswers (hc'.resolve_right fun ⟨_, _, hno⟩ => hno)
      rw [← hsame.writeOf_eq] at hrest'
      exact .cons hsame (ih hrest hrest' (Nat.succ.inj hlength) (Nat.succ.inj hlength'))

end FlatStore

end GufoBlob
