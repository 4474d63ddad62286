import GufoBlob.Interaction.Threads
import GufoBlob.Interaction.Simulation

/-!
# Callers that take turns

Threads without any lock, in the runs in which nobody makes a step while another caller is in the
middle of a call. Such a run is the run of the calls one after the other, in the order in which they
were begun: `Turns` is that run, and `reaches_turns` finds it.

What the environment answers may depend on who is calling, and it may let a caller wait; `AnswersLike`
says that it answers like the handlers `h` whenever it does not.
-/

namespace GufoBlob.Interaction

open Program

variable {I : Interface} {σ ε β κ ι W : Type}

/-- Calls of several callers, one after the other: their results in order, and the state at the
end. -/
inductive Turns (h : ι → Handler I W) (perform : κ → Program I σ ε β) (K : κ → Prop) (x : σ × W) :
    List (ι × κ × Outcome ε β) → σ × W → Prop where
  | nil : Turns h perform K x [] x
  | snoc {l y} (i : ι) (c : κ) : Turns h perform K x l y → K c →
      ((perform c).run (h i) y.1 y.2).1 ≠ .spun →
      Turns h perform K x (l ++ [(i, c, ((perform c).run (h i) y.1 y.2).1)])
        ((perform c).run (h i) y.1 y.2).2

theorem Turns.ne_spun {h : ι → Handler I W} {perform : κ → Program I σ ε β} {K : κ → Prop}
    {x y : σ × W} {l : List (ι × κ × Outcome ε β)} (hturns : Turns h perform K x l y) :
    .spun ∉ l.map fun r => r.2.2 := by
  induction hturns with
  | nil => exact List.not_mem_nil
  | snoc i c _ _ hne ih =>
      rw [List.map_append, List.mem_append]
      rintro (hmem | hmem)
      · exact ih hmem
      · exact hne (List.mem_singleton.mp hmem).symm

/-- When the callers are one and the same in another environment, the calls are a run there. -/
theorem Turns.runCalls_eq {V : Type} {h : ι → Handler I W} {h' : Handler I V}
    {perform : κ → Program I σ ε β} {K : κ → Prop} {R : W → V → Prop}
    (hs : ∀ i c, K c → Simulates (h i) h' R (perform c)) {x y : σ × W}
    {l : List (ι × κ × Outcome ε β)} (hturns : Turns h perform K x l y) {v : V} (hxv : R x.2 v) :
    ∃ v', runCalls h' perform (l.map fun r => r.2.1) x.1 v = (l.map fun r => r.2.2, y.1, v') ∧
      R y.2 v' := by
  induction hturns with
  | nil => exact ⟨v, rfl, hxv⟩
  | @snoc l y i c hturns hc hne ih =>
      obtain ⟨v', hrun, hyv⟩ := ih
      obtain ⟨v'', hcall, hend⟩ := hs i c hc y.1 y.2 v' hyv
      refine ⟨v'', ?_, hend⟩
      have hspun : ((perform c).run h' y.1 v').1 ≠ .spun := by rwa [hcall]
      rw [List.map_append, List.map_append, runCalls_append hrun hturns.ne_spun]
      rw [List.map_cons, List.map_nil, runCalls_cons_of_ne hspun, hcall]
      rfl

/-- An environment that answers like `h`, when it answers. -/
def AnswersLike (env : Shared I ι W) (h : ι → Handler I W) : Prop :=
  ∀ i w o r, env i w o = some r → h i w o = r

/-- Nobody but the caller `i` is in the middle of a call. -/
def Alone (cfg : Config I σ ε β κ ι W) (i : ι) : Prop := ∀ j, j ≠ i → (cfg.threads j).now = none

/-- Between two calls, after which the state was `y`; or in a call made in `y`, the rest of which ends
as the whole of it does. -/
inductive Progress (h : ι → Handler I W) (perform : κ → Program I σ ε β) (K : κ → Prop)
    (cfg : Config I σ ε β κ ι W) (y : σ × W) : Prop where
  | between : (∀ i, (cfg.threads i).now = none) → (cfg.state, cfg.world) = y →
      Progress h perform K cfg y
  | within (i : ι) (c : κ) (p : Program I σ ε β) : K c → (cfg.threads i).now = some (c, p) →
      Alone cfg i → p.run (h i) cfg.state cfg.world = (perform c).run (h i) y.1 y.2 →
      Progress h perform K cfg y

/-- A rule for calls that keep `J`, in whose runs the world stays `Good`, and which leave it `Done`: a
world that is not good never becomes good again, and one that is done stays so. -/
structure TakesTurns (h : ι → Handler I W) (perform : κ → Program I σ ε β) (K : κ → Prop)
    (J : σ → W → Prop) (Good Done : W → Prop) : Prop where
  good : ∀ s w, J s w → Good w
  stable : ∀ i w o, Good (h i w o).2 → Good w
  lasting : ∀ i w o, Done w → Done (h i w o).2
  call : ∀ i c s w, K c → J s w →
    wp (h i) (perform c) (fun o s w => Good w ∧ (o ≠ .spun → J s w ∧ Done w)) s w

section Rule

variable {env : Shared I ι W} {h : ι → Handler I W} {perform : κ → Program I σ ε β} {K : κ → Prop}
  {J : σ → W → Prop} {Good Done : W → Prop}

/-- The rest of a run cannot mend the world. -/
theorem TakesTurns.good_of_run (ht : TakesTurns h perform K J Good Done) (i : ι)
    (p : Program I σ ε β) {s : σ} {w : W} (hgood : Good (p.run (h i) s w).2.2) : Good w := by
  induction p generalizing s w with
  | pure a => exact hgood
  | raise e => exact hgood
  | spin => exact hgood
  | get k ih => exact ih s hgood
  | set s' k ih => exact ih hgood
  | call o k ih => exact ht.stable i w o (ih _ hgood)

variable [DecidableEq ι]

/-- The results of the caller `i`. -/
def resultsOf (l : List (ι × κ × Outcome ε β)) (i : ι) : List (κ × Outcome ε β) :=
  (l.filter fun r => r.1 = i).map Prod.snd

theorem resultsOf_snoc_self (l : List (ι × κ × Outcome ε β)) (i : ι) (r : κ × Outcome ε β) :
    resultsOf (l ++ [(i, r)]) i = resultsOf l i ++ [r] := by
  simp [resultsOf]

theorem resultsOf_snoc_of_ne (l : List (ι × κ × Outcome ε β)) {i j : ι} (hij : j ≠ i)
    (r : κ × Outcome ε β) : resultsOf (l ++ [(i, r)]) j = resultsOf l j := by
  simp [resultsOf, Ne.symm hij]

/-- When nobody else has a result, the results are those of `i`. -/
theorem map_snd_eq_resultsOf {l : List (ι × κ × Outcome ε β)} {i : ι}
    (h : ∀ j, j ≠ i → resultsOf l j = []) : l.map Prod.snd = resultsOf l i := by
  have hown : ∀ r ∈ l, decide (r.1 = i) = true := by
    intro r hr
    by_contra hne
    have hmem : r.2 ∈ resultsOf l r.1 := List.mem_map_of_mem (by simp [hr])
    rw [h r.1 (by simpa using hne)] at hmem
    cases hmem
  rw [resultsOf, List.filter_eq_self.mpr hown]

/-- The calls that have ended were made one after the other. -/
structure InTurn (h : ι → Handler I W) (perform : κ → Program I σ ε β) (K : κ → Prop)
    (J : σ → W → Prop) (Done : W → Prop) (x : σ × W) (cfg : Config I σ ε β κ ι W)
    (l : List (ι × κ × Outcome ε β)) (y : σ × W) : Prop where
  todo : ∀ i, ∀ c ∈ (cfg.threads i).todo, K c
  turns : Turns h perform K x l y
  kept : J y.1 y.2
  results : ∀ i, (cfg.threads i).done = resultsOf l i
  done : l ≠ [] → Done cfg.world
  progress : Progress h perform K cfg y

variable {x y : σ × W} {cfg cfg' : Config I σ ε β κ ι W} {l : List (ι × κ × Outcome ε β)}

/-- A call makes a step: the rest of it still ends as the whole does. -/
theorem InTurn.advance {i : ι} {c : κ} {p p' : Program I σ ε β} {s' : σ} {w' : W}
    (hcfg : InTurn h perform K J Done x cfg l y) (hc : K c) (halone : Alone cfg i)
    (hrun : p.run (h i) cfg.state cfg.world = (perform c).run (h i) y.1 y.2)
    (hstep : p'.run (h i) s' w' = p.run (h i) cfg.state cfg.world)
    (hdone : Done cfg.world → Done w') :
    InTurn h perform K J Done x ⟨Function.update cfg.threads i
      { cfg.threads i with now := some (c, p') }, s', w'⟩ l y where
  todo := by
    rw [Function.forall_update_iff cfg.threads fun _ t => ∀ c ∈ t.todo, K c]
    exact ⟨hcfg.todo i, fun j _ => hcfg.todo j⟩
  turns := hcfg.turns
  kept := hcfg.kept
  results := by
    rw [Function.forall_update_iff cfg.threads fun j t => t.done = resultsOf l j]
    exact ⟨hcfg.results i, fun j _ => hcfg.results j⟩
  done hne := hdone (hcfg.done hne)
  progress := by
    refine .within i c p' hc ?_ ?_ (hstep.trans hrun)
    · simp
    · intro j hij
      simpa [Function.update_of_ne hij] using halone j hij

/-- A call ends. -/
theorem InTurn.finish (ht : TakesTurns h perform K J Good Done) {i : ι} {c : κ} {o : Outcome ε β}
    (hcfg : InTurn h perform K J Done x cfg l y) (hc : K c) (halone : Alone cfg i) (ho : o ≠ .spun)
    (hrun : (o, cfg.state, cfg.world) = (perform c).run (h i) y.1 y.2) :
    ∃ l y, InTurn h perform K J Done x ⟨Function.update cfg.threads i
      { cfg.threads i with now := none, done := (cfg.threads i).done ++ [(c, o)] },
      cfg.state, cfg.world⟩ l y := by
  have hcall := ht.call i c y.1 y.2 hc hcfg.kept
  have hend : Turns h perform K x (l ++ [(i, c, o)]) (cfg.state, cfg.world) := by
    have hne : ((perform c).run (h i) y.1 y.2).1 ≠ .spun := by rwa [← hrun]
    have hsnoc := hcfg.turns.snoc i c hc hne
    rwa [← hrun] at hsnoc
  unfold wp at hcall
  rw [← hrun] at hcall
  obtain ⟨hkept, hdone⟩ := hcall.2 ho
  refine ⟨_, _, ⟨?_, hend, hkept, ?_, fun _ => hdone, .between ?_ rfl⟩⟩
  · rw [Function.forall_update_iff cfg.threads fun _ t => ∀ c ∈ t.todo, K c]
    exact ⟨hcfg.todo i, fun j _ => hcfg.todo j⟩
  · rw [Function.forall_update_iff cfg.threads fun j t => t.done = resultsOf _ j]
    refine ⟨?_, fun j hij => ?_⟩
    · rw [resultsOf_snoc_self, hcfg.results i]
    · rw [resultsOf_snoc_of_ne _ hij, hcfg.results j]
  · rw [Function.forall_update_iff cfg.threads fun _ t => t.now = none]
    exact ⟨rfl, halone⟩

/-- A caller begins a call, and so the last one has ended. -/
theorem InTurn.begin {i : ι} {c : κ} {cs : List κ} (hcfg : InTurn h perform K J Done x cfg l y)
    (halone : Alone cfg i) (hnow : (cfg.threads i).now = none) (hcalls : (cfg.threads i).todo = c :: cs) :
    InTurn h perform K J Done x ⟨Function.update cfg.threads i
      { cfg.threads i with todo := cs, now := some (c, perform c) }, cfg.state, cfg.world⟩ l y := by
  have hy : (cfg.state, cfg.world) = y := by
    cases hcfg.progress with
    | between _ hy => exact hy
    | within j c p _ hj _ _ =>
        by_cases hij : j = i
        · subst hij
          simp [hnow] at hj
        · simp [halone j hij] at hj
  have hmem : ∀ c' ∈ c :: cs, K c' := by
    rw [← hcalls]
    exact hcfg.todo i
  refine ⟨?_, hcfg.turns, hcfg.kept, ?_, hcfg.done,
    .within i c (perform c) (hmem c List.mem_cons_self) ?_ ?_ (hy ▸ rfl)⟩
  · rw [Function.forall_update_iff cfg.threads fun _ t => ∀ c ∈ t.todo, K c]
    exact ⟨fun c' hc' => hmem c' (List.mem_cons_of_mem c hc'), fun j _ => hcfg.todo j⟩
  · rw [Function.forall_update_iff cfg.threads fun j t => t.done = resultsOf l j]
    exact ⟨hcfg.results i, fun j _ => hcfg.results j⟩
  · simp
  · intro j hij
    simpa [Function.update_of_ne hij] using halone j hij

/-- One step of a caller that is alone. -/
theorem InTurn.step (ht : TakesTurns h perform K J Good Done) (henv : AnswersLike env h) {i : ι}
    (hcfg : InTurn h perform K J Done x cfg l y) (halone : Alone cfg i)
    (hstep : cfg.step? perform env i = some cfg') :
    ∃ l y, InTurn h perform K J Done x cfg' l y := by
  obtain ⟨⟨t', s', w'⟩, hthread, rfl⟩ := Option.map_eq_some_iff.mp hstep
  cases hnow : (cfg.threads i).now with
  | none =>
      cases hcalls : (cfg.threads i).todo with
      | nil => simp [Thread.step?, hnow, hcalls] at hthread
      | cons c cs =>
          obtain ⟨rfl, rfl, rfl⟩ :
              { cfg.threads i with todo := cs, now := some (c, perform c) } = t' ∧
                cfg.state = s' ∧ cfg.world = w' := by
            simpa [Thread.step?, hnow, hcalls] using hthread
          exact ⟨l, y, hcfg.begin halone hnow hcalls⟩
  | some r =>
      obtain ⟨c, p⟩ := r
      -- the call is the one that is in progress
      obtain ⟨hc, hrun⟩ : K c ∧
          p.run (h i) cfg.state cfg.world = (perform c).run (h i) y.1 y.2 := by
        cases hcfg.progress with
        | between hidle _ => simp [hidle i] at hnow
        | within j c' p' hc' hj _ hrun =>
            by_cases hij : j = i
            · subst hij
              obtain ⟨rfl, rfl⟩ : c' = c ∧ p' = p := by simpa [hj] using hnow
              exact ⟨hc', hrun⟩
            · simp [halone j hij] at hj
      cases p with
      | pure a =>
          obtain ⟨rfl, rfl, rfl⟩ : _ = t' ∧ cfg.state = s' ∧ cfg.world = w' := by
            simpa [Thread.step?, hnow] using hthread
          exact hcfg.finish ht hc halone (by simp) hrun
      | raise e =>
          obtain ⟨rfl, rfl, rfl⟩ : _ = t' ∧ cfg.state = s' ∧ cfg.world = w' := by
            simpa [Thread.step?, hnow] using hthread
          exact hcfg.finish ht hc halone (by simp) hrun
      | spin => simp [Thread.step?, hnow] at hthread
      | get k =>
          obtain ⟨rfl, rfl, rfl⟩ : _ = t' ∧ cfg.state = s' ∧ cfg.world = w' := by
            simpa [Thread.step?, hnow] using hthread
          exact ⟨l, y, hcfg.advance hc halone hrun rfl id⟩
      | set s₁ k =>
          obtain ⟨rfl, rfl, rfl⟩ : _ = t' ∧ s₁ = s' ∧ cfg.world = w' := by
            simpa [Thread.step?, hnow] using hthread
          exact ⟨l, y, hcfg.advance hc halone hrun rfl id⟩
      | call o k =>
          obtain ⟨a, hr, rfl, rfl⟩ : ∃ a, env i cfg.world o = some (a, w') ∧
              { cfg.threads i with now := some (c, k a) } = t' ∧ cfg.state = s' := by
            simpa [Thread.step?, hnow] using hthread
          have hanswer := henv i cfg.world o _ hr
          have hrest : (Program.call o k).run (h i) cfg.state cfg.world =
              (k a).run (h i) cfg.state w' := by
            rw [Program.run, hanswer]
          have hdone : Done cfg.world → Done w' := by
            intro hdone
            have hlasts := ht.lasting i cfg.world o hdone
            rwa [hanswer] at hlasts
          exact ⟨l, y, hcfg.advance hc halone hrun hrest.symm hdone⟩

/-- **Callers that take turns might as well be one.** In every configuration that is reached when
nobody makes a step while another caller is in the middle of a call, the calls that have ended gave
the results that they give one after the other, each caller's in its order; the world is `Good`, and
`Done` when a call has ended. -/
theorem reaches_turns (ht : TakesTurns h perform K J Good Done) (henv : AnswersLike env h)
    {todo : ι → List κ} (htodo : ∀ i, ∀ c ∈ todo i, K c) {s : σ} {w : W} (hJ : J s w)
    (hr : Config.Reaches perform env Alone (.start todo s w) cfg) :
    Good cfg.world ∧ ∃ l y, InTurn h perform K J Done (s, w) cfg l y := by
  have hturn : ∃ l y, InTurn h perform K J Done (s, w) cfg l y := by
    induction hr with
    | refl =>
        exact ⟨[], (s, w), ⟨htodo, .nil, hJ, fun _ => rfl, fun hne => absurd rfl hne,
          .between (fun _ => rfl) rfl⟩⟩
    | step i _ halone hstep ih =>
        obtain ⟨l, y, hcfg⟩ := ih
        exact hcfg.step ht henv halone hstep
  refine ⟨?_, hturn⟩
  obtain ⟨l, y, hcfg⟩ := hturn
  cases hcfg.progress with
  | between _ heq =>
      have hkept := hcfg.kept
      rw [← heq] at hkept
      exact ht.good _ _ hkept
  | within i c p hc _ _ hrun =>
      apply ht.good_of_run i p (s := cfg.state)
      rw [hrun]
      exact (ht.call i c y.1 y.2 hc hcfg.kept).1

end Rule

end GufoBlob.Interaction
