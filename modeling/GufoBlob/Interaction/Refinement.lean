import GufoBlob.Interaction.Runs
import Mathlib.Logic.Function.Basic

/-!
# Refinement

An object that does what a specification allows. The specification relates a call, the abstract state
before it, its outcome and the abstract state after it, and may leave open what the object does.

* `Refines` — one call, from related states, does what is allowed and leads to related states;
  `Refines.runs` — so does every run of calls.
* `focus`, `family` — several objects of one kind in one environment: a call names the object that it
  is made on. `refines_family` — when each of them refines a specification of the environment alone,
  they do so together.
-/

namespace GufoBlob.Interaction

open Function

variable {I : Interface} {σ ε α β κ ι W A : Type}

/-- What may happen: the call, the state before it, its outcome, and the state after it. -/
abbrev Spec (κ ε β A : Type) := κ → A → Outcome ε β → A → Prop

/-- Calls one after the other, with their outcomes, as the specification allows. -/
inductive Spec.Runs (spec : Spec κ ε β A) : A → List (κ × Outcome ε β) → A → Prop where
  | nil (a : A) : Runs spec a [] a
  | cons {a a' a'' : A} {c : κ} {o : Outcome ε β} {l : List (κ × Outcome ε β)} :
      spec c a o a' → Runs spec a' l a'' → Runs spec a ((c, o) :: l) a''

/-- A run of calls that are each a call of another kind, and whose outcomes are seen so. -/
theorem Spec.Runs.map {κ' ε' β' : Type} {spec : Spec κ ε β A} (f : κ' → κ)
    (g : κ' → Outcome ε' β' → Outcome ε β) {a a' : A} {l : List (κ' × Outcome ε' β')}
    (hl : Spec.Runs (fun c a o a' => spec (f c) a (g c o) a') a l a') :
    Spec.Runs spec a (l.map fun r => (f r.1, g r.1 r.2)) a' := by
  induction hl with
  | nil a => exact .nil a
  | cons hc _ ih => exact .cons hc ih

/-- Runs of a specification as runs of one that says less of the states. -/
theorem Spec.Runs.abstract {B : Type} {spec : Spec κ ε β A} {spec' : Spec κ ε β B} (f : A → B)
    (hf : ∀ c a o a', spec c a o a' → spec' c (f a) o (f a')) {a a' : A} {l : List (κ × Outcome ε β)}
    (hl : Spec.Runs spec a l a') : Spec.Runs spec' (f a) l (f a') := by
  induction hl with
  | nil a => exact .nil (f a)
  | cons hc _ ih => exact .cons (hf _ _ _ _ hc) ih

/-- The calls `K` do what `spec` allows, from the states that `R` relates to an abstract state. -/
structure Refines (h : Handler I W) (perform : κ → Program I σ ε β) (spec : Spec κ ε β A)
    (K : κ → Prop) (R : σ → W → A → Prop) : Prop where
  ends : ∀ c a a', ¬ spec c a .spun a'
  step : ∀ c s w a, K c → R s w a →
    Program.wp h (perform c) (fun o s' w' => ∃ a', spec c a o a' ∧ R s' w' a') s w

open Program

/-- What holds of one call holds of every run of calls. -/
theorem Refines.runs {h : Handler I W} {perform : κ → Program I σ ε β} {spec : Spec κ ε β A}
    {K : κ → Prop} {R : σ → W → A → Prop} (href : Refines h perform spec K R) {cs : List κ}
    (hcs : ∀ c ∈ cs, K c) {s : σ} {w : W} {a : A} (hR : R s w a) :
    ∃ a', Spec.Runs spec a (cs.zip (runCalls h perform cs s w).1) a' ∧
      R (runCalls h perform cs s w).2.1 (runCalls h perform cs s w).2.2 a' ∧
      (runCalls h perform cs s w).1.length = cs.length := by
  induction cs generalizing s w a with
  | nil => exact ⟨a, .nil a, hR, rfl⟩
  | cons c cs ih =>
      obtain ⟨a', hspec, hR'⟩ := href.step c s w a (hcs c List.mem_cons_self) hR
      have hne : ((perform c).run h s w).1 ≠ .spun := by
        intro hspun
        rw [hspun] at hspec
        exact href.ends c a a' hspec
      obtain ⟨a'', hruns, hend, hlength⟩ := ih (fun c' hc' => hcs c' (List.mem_cons_of_mem c hc')) hR'
      rw [runCalls_cons_of_ne hne]
      exact ⟨a'', .cons hspec hruns, hend, congrArg Nat.succ hlength⟩

/-! ## Several objects -/

/-- A program of the object `i`, where the state holds the objects of all `ι`. -/
def Program.focus [DecidableEq ι] (i : ι) : Program I σ ε α → Program I (ι → σ) ε α
  | .pure a => .pure a
  | .raise e => .raise e
  | .spin => .spin
  | .get k => .get fun ss => (k (ss i)).focus i
  | .set s k => .get fun ss => .set (update ss i s) (k.focus i)
  | .call o k => .call o fun r => (k r).focus i

/-- A call on one of the objects. -/
def family [DecidableEq ι] (perform : ι → κ → Program I σ ε β) (c : ι × κ) :
    Program I (ι → σ) ε β :=
  (perform c.1 c.2).focus c.1

section Family

variable [DecidableEq ι] {h : Handler I W}

/-- A program of one object leaves the states of the others alone. -/
theorem run_focus (i : ι) (p : Program I σ ε α) (ss : ι → σ) (w : W) :
    (p.focus i).run h ss w = ((p.run h (ss i) w).1, update ss i (p.run h (ss i) w).2.1,
      (p.run h (ss i) w).2.2) := by
  induction p generalizing ss w with
  | pure a => simp [Program.focus, Program.run]
  | raise e => simp [Program.focus, Program.run]
  | spin => simp [Program.focus, Program.run]
  | get k ih => simpa [Program.focus, Program.run] using ih (ss i) ss w
  | set s k ih => simpa [Program.focus, Program.run] using ih (update ss i s) w
  | call o k ih => simpa [Program.focus, Program.run] using ih (h w o).1 ss (h w o).2

/-- Objects that refine a specification of their environment, each from the states `Own` and without
taking the others out of theirs. -/
theorem refines_family {perform : ι → κ → Program I σ ε β} {spec : Spec κ ε β A} {K : κ → Prop}
    {Own : σ → W → Prop} {R : W → A → Prop}
    (href : ∀ i, Refines h (perform i) spec K fun s w a => Own s w ∧ R w a)
    (hown : ∀ i c s w s', K c → Own s w → Own s' w →
      Own s' ((perform i c).run h s w).2.2) :
    Refines h (family perform) (fun c => spec c.2) (fun c => K c.2)
      fun ss w a => (∀ i, Own (ss i) w) ∧ R w a where
  ends c := (href c.1).ends c.2
  step := by
    rintro ⟨i, c⟩ ss w a hK ⟨hall, hR⟩
    obtain ⟨a', hspec, hself, hR'⟩ := (href i).step c (ss i) w a hK ⟨hall i, hR⟩
    rw [wp, family, run_focus]
    refine ⟨a', hspec, fun j => ?_, hR'⟩
    show Own (update ss i _ j) _
    by_cases hj : j = i
    · subst hj
      simpa using hself
    · rw [update_of_ne hj]
      exact hown i c (ss i) w (ss j) hK (hall i) (hall j)

end Family

end GufoBlob.Interaction
