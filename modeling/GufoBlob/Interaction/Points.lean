import GufoBlob.Interaction.Linearization

/-!
# Calls with one point

Objects without a lock around a call, whose calls nevertheless take effect at one of their steps: every
other step of a call leaves the abstract state as it is.

* `Framing` — what the steps of the callers may do: `R` relates the shared state to the abstract one,
  and `G` is what no step of any caller undoes. `Framing.discipline` is this as rely-guarantee.
* `Pends` — from the shared state `x`, the rest of a call has such steps only until its point, and ends
  at once after it.
* `pends_bind` — a beginning that only frames, and then the rest.
* `linearizable_of_points` — if every call pends when it begins, every history is linearizable.
-/

namespace GufoBlob.Interaction

open Function

variable {I : Interface} {σ ε α β κ ι W A : Type}

/-- The abstract state that belongs to the shared state, and what every step keeps. -/
structure Framing (σ W A : Type) where
  R : σ × W → A → Prop
  G : σ × W → σ × W → Prop
  refl : ∀ x, G x x
  trans : ∀ x y z, G x y → G y z → G x z

namespace Framing

/-- A step leaves the abstract state alone; the others may have changed it. -/
def discipline (M : Framing σ W A) (ι : Type) : Discipline ι σ W where
  rely _ x y := (∃ a, M.R x a) → M.G x y ∧ ∃ a, M.R y a
  guarantee _ x y := ∀ a, M.R x a → M.G x y ∧ M.R y a
  rely_refl _ x hx := ⟨M.refl x, hx⟩
  rely_trans _ x y z hxy hyz hx := by
    obtain ⟨hG, hy⟩ := hxy hx
    obtain ⟨hG', hz⟩ := hyz hy
    exact ⟨M.trans x y z hG hG', hz⟩
  guarantee_refl _ x _ hx := ⟨M.refl x, hx⟩
  rely_of_guarantee _ _ x y _ hg := by
    rintro ⟨a, hx⟩
    exact ⟨(hg a hx).1, a, (hg a hx).2⟩

variable (M : Framing σ W A) (env : Shared I ι W) (spec : Sequential κ ε β A) (i : ι) (c : κ)

/-- The step from `x` to `y` is the point of the call `c`, and `p` is what is left of it. -/
def Point (x y : σ × W) (p : Program I σ ε β) : Prop :=
  ∀ a, M.R x a → M.G x y ∧ M.R y (spec c a).2 ∧ p.outcome? = some (spec c a).1

/-- The call `c` of the caller `i` has not come to its point, and `p` is what is left of it. A call
may also end without a point, when it leaves the abstract state as it is. -/
def Pends : Program I σ ε β → σ × W → Prop
  | .pure b, x => ∀ y a, (M.discipline ι).rely i x y → M.R y a → spec c a = (.ok b, a)
  | .raise e, x => ∀ y a, (M.discipline ι).rely i x y → M.R y a → spec c a = (.error e, a)
  | .spin, _ => True
  | .get k, x => ∀ y, (M.discipline ι).rely i x y → Pends (k y.1) y
  | .set s k, x => ∀ y, (M.discipline ι).rely i x y →
      (M.discipline ι).guarantee i y (s, y.2) ∧ Pends k (s, y.2)
  | .call o k, x => ∀ y, (M.discipline ι).rely i x y → ∀ r, env i y.2 o = some r →
      ((M.discipline ι).guarantee i y (y.1, r.2) ∧ Pends (k r.1) (y.1, r.2)) ∨
        M.Point spec c y (y.1, r.2) (k r.1)

section Pends

variable {M env spec i c} {x y : σ × W}

theorem pends_of_rely {p : Program I σ ε β} (hp : M.Pends env spec i c p x)
    (hxy : (M.discipline ι).rely i x y) : M.Pends env spec i c p y := by
  have htrans : ∀ z, (M.discipline ι).rely i y z → (M.discipline ι).rely i x z :=
    fun z => (M.discipline ι).rely_trans i x y z hxy
  cases p with
  | pure b => exact fun z a hz => hp z a (htrans z hz)
  | raise e => exact fun z a hz => hp z a (htrans z hz)
  | spin => trivial
  | get k => exact fun z hz => hp z (htrans z hz)
  | set s k => exact fun z hz => hp z (htrans z hz)
  | call o k => exact fun z hz => hp z (htrans z hz)

/-- A beginning that leaves the abstract state alone and raises nothing. -/
theorem pends_bind {p : Program I σ ε α} {f : α → Program I σ ε β}
    (hp : (M.discipline ι).Keeps env i (fun _ => True) p
      (fun o y => ∃ a, o = .ok a ∧ M.Pends env spec i c (f a) y) x) :
    M.Pends env spec i c (p.bind f) x := by
  induction p generalizing x with
  | pure a =>
      obtain ⟨a', ha', hf⟩ := hp x ((M.discipline ι).rely_refl i x)
      obtain rfl := Outcome.ok.inj ha'
      exact hf
  | raise e =>
      obtain ⟨a, ha, -⟩ := hp x ((M.discipline ι).rely_refl i x)
      cases ha
  | spin => trivial
  | get k ih => exact fun y hy => ih _ (hp y hy trivial)
  | set s k ih => exact fun y hy => ⟨(hp y hy).1, ih (hp y hy).2⟩
  | call o k ih => exact fun y hy r hr => .inl ⟨(hp y hy r hr).1, ih _ (hp y hy r hr).2⟩

/-- A step of the call before its point is a framing step or the point. -/
theorem Pends.step {p p' : Program I σ ε β} {s s' : σ} {w w' : W}
    (hp : M.Pends env spec i c p (s, w)) (hstep : p.Step env i s w p' s' w') :
    ((M.discipline ι).guarantee i (s, w) (s', w') ∧ M.Pends env spec i c p' (s', w')) ∨
      M.Point spec c (s, w) (s', w') p' := by
  have hrefl := (M.discipline ι).rely_refl i (s, w)
  cases hstep with
  | get k => exact .inl ⟨(M.discipline ι).guarantee_refl i (s, w), hp _ hrefl⟩
  | set s' k => exact .inl (hp _ hrefl)
  | call k _ hr => exact hp _ hrefl _ hr

theorem Pends.ends {p : Program I σ ε β} {o : Outcome ε β} {a : A}
    (hp : M.Pends env spec i c p x) (hx : M.R x a) (ho : p.outcome? = some o) :
    spec c a = (o, a) := by
  have hrefl := (M.discipline ι).rely_refl i x
  cases p with
  | pure b =>
      obtain rfl : .ok b = o := Option.some.inj ho
      exact hp x a hrefl hx
  | raise e =>
      obtain rfl : .error e = o := Option.some.inj ho
      exact hp x a hrefl hx
  | spin => cases ho
  | get k => cases ho
  | set s k => cases ho
  | call op k => cases ho

end Pends

/-! ## Histories -/

/-- Where a caller is. -/
def Stands (x : σ × W) : Phase I σ ε β κ → Prop
  | .idle => True
  | .pending c p => M.Pends env spec i c p x
  | .settled _ o p => p.outcome? = some o

variable {M env spec i} {perform : κ → Program I σ ε β} {K : κ → Prop}
  {ph : ι → Phase I σ ε β κ}

theorem Stands.of_rely {x y : σ × W} {q : Phase I σ ε β κ} (hq : M.Stands env spec i x q)
    (hxy : (M.discipline ι).rely i x y) : M.Stands env spec i y q := by
  cases q with
  | idle => trivial
  | pending c p => exact pends_of_rely hq hxy
  | settled c o p => exact hq

/-- The shared state and the callers, as far as the rule is concerned. -/
def Sim (M : Framing σ W A) (env : Shared I ι W) (spec : Sequential κ ε β A)
    (ph : ι → Phase I σ ε β κ) (s : σ) (w : W) (a : A) : Prop :=
  M.R (s, w) a ∧ ∀ i, M.Stands env spec i (s, w) (ph i)

variable [DecidableEq ι]

/-- One caller is at another place, and what it did the others can rely on. -/
theorem Sim.update {s s' : σ} {w w' : W} {a a' : A} (hsim : Sim M env spec ph s w a)
    {q : Phase I σ ε β κ} (hR : M.R (s', w') a') (hq : M.Stands env spec i (s', w') q)
    (hG : M.G (s, w) (s', w')) : Sim M env spec (update ph i q) s' w' a' := by
  refine ⟨hR, fun j => ?_⟩
  by_cases hj : j = i
  · subst hj
    rwa [update_self]
  · rw [update_of_ne hj]
    exact (hsim.2 j).of_rely fun _ => ⟨hG, a', hR⟩

theorem atomicity_of_points
    (hperform : ∀ i c, K c → ∀ x, (∃ a, M.R x a) → M.Pends env spec i c (perform c) x) :
    Atomicity perform env spec K (Sim M env spec) where
  invoke ph s w a i c hsim _ hc := hsim.update hsim.1 (hperform i c hc (s, w) ⟨a, hsim.1⟩) (M.refl _)
  pending ph s w a i c p p' s' w' hsim hph hstep := by
    have hstands := hsim.2 i
    rw [hph] at hstands
    rcases hstands.step hstep with ⟨hg, hp⟩ | hpoint
    · obtain ⟨hG, hR⟩ := hg a hsim.1
      exact .inl (hsim.update hR hp hG)
    · obtain ⟨hG, hR, ho⟩ := hpoint a hsim.1
      exact .inr (hsim.update hR ho hG)
  settled ph s w a i c o p p' s' w' hsim hph hstep := by
    have hstands := hsim.2 i
    rw [hph] at hstands
    -- nothing is left of the call
    cases hstep <;> cases hstands
  pending_end ph s w a i c p o hsim hph ho := by
    have hstands := hsim.2 i
    rw [hph] at hstands
    have hspec := hstands.ends hsim.1 ho
    rw [hspec]
    exact ⟨rfl, hsim.update hsim.1 trivial (M.refl _)⟩
  settled_end ph s w a i c o p o' hsim hph ho := by
    have hstands := hsim.2 i
    rw [hph] at hstands
    exact ⟨Option.some.inj (hstands.symm.trans ho), hsim.update hsim.1 trivial (M.refl _)⟩

/-- **Calls that pend when they begin are linearizable**, at their points. -/
theorem linearizable_of_points
    (hperform : ∀ i c, K c → ∀ x, (∃ a, M.R x a) → M.Pends env spec i c (perform c) x) {todo : ι → List κ}
    (htodo : ∀ i, ∀ c ∈ todo i, K c) {s : σ} {w : W} {a₀ : A} (hinit : M.R (s, w) a₀)
    {h : List (Event ι κ ε β)} {cfg : Config I σ ε β κ ι W}
    (hist : Config.Histories perform env (.start todo s w) h cfg) :
    ∃ l a, Linearization spec a₀ h l a ∧ M.R (cfg.state, cfg.world) a := by
  obtain ⟨l, ph, a, hlin, -, hsim⟩ :=
    (atomicity_of_points hperform).linearizable htodo ⟨hinit, fun _ => trivial⟩ hist
  exact ⟨l, a, hlin, hsim.1⟩

end Framing

end GufoBlob.Interaction
