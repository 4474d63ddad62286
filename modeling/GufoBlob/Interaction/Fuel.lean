import GufoBlob.Interaction.Denotation
import GufoBlob.Interaction.Refinement

/-!
# Fuel

A loop has its fuel as an argument, and a program whose fuel ran out has an outcome of its own. Such
a program is one of a sequence that goes further and further.

* `Extends h p q` — where `p` ends, `q` does the same. There is a rule for each combinator.
* `RefinesLater` — refinement of a specification by calls that have fuel: each call has enough of it
  at some point. `RefinesLater.runs` — so has every run of calls, and then more fuel changes nothing.
* `RefinesInTime` — the same when the abstract state tells how much fuel is enough, and what the state
  after the call is.
-/

namespace GufoBlob.Interaction

namespace Program

variable {I : Interface} {σ ε α β κ W A : Type} {h : Handler I W}

/-- In the environment `h`, the second program does what the first one does, unless that one runs out
of fuel. -/
def Extends (h : Handler I W) (p q : Program I σ ε α) : Prop :=
  ∀ s w, (p.run h s w).1 ≠ .spun → q.run h s w = p.run h s w

theorem extends_refl (p : Program I σ ε α) : Extends h p p := fun _ _ _ => rfl

theorem extends_spin (q : Program I σ ε α) : Extends h .spin q := fun _ _ hne => absurd rfl hne

theorem extends_bind {p p' : Program I σ ε α} {f f' : α → Program I σ ε β} (hp : Extends h p p')
    (hf : ∀ a, Extends h (f a) (f' a)) : Extends h (p.bind f) (p'.bind f') := by
  intro s w hne
  rw [run_bind, Denotation.andThen] at hne
  rw [run_bind, run_bind, Denotation.andThen, Denotation.andThen]
  have hp := hp s w
  rcases hrun : p.run h s w with ⟨o, s', w'⟩
  rw [hrun] at hne hp
  cases o with
  | ok a =>
      rw [hp (by simp)]
      exact hf a s' w' hne
  | error e => rw [hp (by simp)]
  | spun => exact absurd rfl hne

theorem extends_tryFinally {p p' : Program I σ ε α} (hp : Extends h p p') (f : Program I σ ε Unit) :
    Extends h (p.tryFinally f) (p'.tryFinally f) := by
  intro s w hne
  rw [run_tryFinally, Denotation.atLast] at hne
  rw [run_tryFinally, run_tryFinally, Denotation.atLast, Denotation.atLast]
  rw [hp s w fun hspun => hne ?_]
  rcases hrun : p.run h s w with ⟨o, s', w'⟩
  rw [hrun] at hspun
  obtain rfl : o = .spun := hspun
  rfl

/-- The list of a generator, run with a consumer that keeps everything. -/
theorem extends_collect {g g' : Gen I σ ε κ Unit} (hg : Extends (collecting h) g g') :
    Extends h g.collect g'.collect := by
  intro s w hne
  rw [run_collect] at hne
  rw [run_collect, run_collect, hg s (w, []) fun hspun => hne ?_]
  rcases hrun : g.run (collecting h) s (w, []) with ⟨o, s', w', xs⟩
  rw [hrun] at hspun
  obtain rfl : o = .spun := hspun
  rfl

/-! ## Refinement -/

/-- The calls `K`, with fuel, do what `spec` allows, as soon as they have enough of it. -/
structure RefinesLater (h : Handler I W) (perform : Nat → κ → Program I σ ε β) (spec : Spec κ ε β A)
    (K : κ → Prop) (R : σ → W → A → Prop) : Prop where
  ends : ∀ c a a', ¬ spec c a .spun a'
  more : ∀ c m n, m ≤ n → Extends h (perform m c) (perform n c)
  step : ∀ c s w a, K c → R s w a →
    ∃ n, wp h (perform n c) (fun o s' w' => ∃ a', spec c a o a' ∧ R s' w' a') s w

/-- For every run of calls there is enough fuel, and with it the run does what is allowed. -/
theorem RefinesLater.runs {perform : Nat → κ → Program I σ ε β} {spec : Spec κ ε β A} {K : κ → Prop}
    {R : σ → W → A → Prop} (href : RefinesLater h perform spec K R) {cs : List κ}
    (hcs : ∀ c ∈ cs, K c) {s : σ} {w : W} {a : A} (hR : R s w a) :
    ∃ n r a', (∀ m, n ≤ m → runCalls h (perform m) cs s w = r) ∧
      Spec.Runs spec a (cs.zip r.1) a' ∧ R r.2.1 r.2.2 a' ∧ r.1.length = cs.length := by
  induction cs generalizing s w a with
  | nil => exact ⟨0, ([], s, w), a, fun _ _ => rfl, .nil a, hR, rfl⟩
  | cons c cs ih =>
      obtain ⟨n, a', hspec, hR'⟩ := href.step c s w a (hcs c List.mem_cons_self) hR
      have hne : ((perform n c).run h s w).1 ≠ .spun := by
        intro hspun
        rw [hspun] at hspec
        exact href.ends c a a' hspec
      obtain ⟨n', r, a'', hrest, hruns, hend, hlength⟩ :=
        ih (fun c' hc' => hcs c' (List.mem_cons_of_mem c hc')) hR'
      refine ⟨max n n', (((perform n c).run h s w).1 :: r.1, r.2), a'', fun m hm => ?_,
        .cons hspec hruns, hend, congrArg Nat.succ hlength⟩
      -- the call does with more fuel what it did, and so do the calls after it
      have hcall := href.more c n m (Nat.le_trans (Nat.le_max_left n n') hm) s w hne
      rw [← hcall] at hne
      rw [runCalls_cons_of_ne hne, hcall, hrest m (Nat.le_trans (Nat.le_max_right n n') hm)]

/-- What is allowed when the abstract state after a call is known: the calls `K`, from states that
`Inv` holds of, with an outcome that `answers` allows. -/
def steps (answers : κ → A → Outcome ε β → Prop) (next : κ → A → A) (K : κ → Prop) (Inv : A → Prop) :
    Spec κ ε β A :=
  fun c a o a' => K c ∧ Inv a ∧ answers c a o ∧ a' = next c a

/-- From the states that `R` relates to an abstract state, the calls `K` answer as `answers` allows
and lead to its next state, with any fuel from some point on that the abstract state determines. -/
structure RefinesInTime (h : Handler I W) (perform : Nat → κ → Program I σ ε β)
    (answers : κ → A → Outcome ε β → Prop) (next : κ → A → A) (K : κ → Prop) (Inv : A → Prop)
    (R : σ → W → A → Prop) : Prop where
  ends : ∀ c a, ¬ answers c a .spun
  keeps : ∀ c a, K c → Inv a → Inv (next c a)
  step : ∀ c a, K c → Inv a → ∃ n, ∀ m, n ≤ m → ∀ s w, R s w a →
    wp h (perform m c) (fun o s' w' => answers c a o ∧ R s' w' (next c a)) s w

/-- For every run of calls there is enough fuel. -/
theorem RefinesInTime.runs {perform : Nat → κ → Program I σ ε β}
    {answers : κ → A → Outcome ε β → Prop} {next : κ → A → A} {K : κ → Prop} {Inv : A → Prop}
    {R : σ → W → A → Prop} (href : RefinesInTime h perform answers next K Inv R) {cs : List κ}
    (hcs : ∀ c ∈ cs, K c) {a : A} (ha : Inv a) :
    ∃ n, ∀ m, n ≤ m → ∀ s w, R s w a → ∃ a',
      Spec.Runs (steps answers next K Inv) a (cs.zip (runCalls h (perform m) cs s w).1) a' ∧
      R (runCalls h (perform m) cs s w).2.1 (runCalls h (perform m) cs s w).2.2 a' ∧
      (runCalls h (perform m) cs s w).1.length = cs.length := by
  induction cs generalizing a with
  | nil => exact ⟨0, fun m _ s w hR => ⟨a, .nil a, hR, rfl⟩⟩
  | cons c cs ih =>
      have hc := hcs c List.mem_cons_self
      obtain ⟨n, hstep⟩ := href.step c a hc ha
      obtain ⟨n', hrest⟩ :=
        ih (fun c' hc' => hcs c' (List.mem_cons_of_mem c hc')) (href.keeps c a hc ha)
      refine ⟨max n n', fun m hm s w hR => ?_⟩
      obtain ⟨hanswers, hR'⟩ := hstep m (Nat.le_trans (Nat.le_max_left n n') hm) s w hR
      have hne : ((perform m c).run h s w).1 ≠ .spun := by
        intro hspun
        rw [hspun] at hanswers
        exact href.ends c a hanswers
      obtain ⟨a', hruns, hend, hlength⟩ :=
        hrest m (Nat.le_trans (Nat.le_max_right n n') hm) _ _ hR'
      rw [runCalls_cons_of_ne hne]
      exact ⟨a', .cons ⟨hc, ha, hanswers, rfl⟩ hruns, hend, congrArg Nat.succ hlength⟩

end Program

end GufoBlob.Interaction
