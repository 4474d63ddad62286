import GufoBlob.Interaction.Compositional

/-!
# Programs that run alike

The run of a program in a fixed environment is a function of the two states, and it commutes with
the combinators (`run_bind`, `run_tryCatch`, `run_tryFinally`). So two programs with the same text
run alike when the parts do in which the texts differ; for generators this is `Matches`.
-/

namespace GufoBlob.Interaction

namespace Program

variable {I : Interface} {σ ε α β W κ δ : Type} {h : Handler I W}

/-- What a program does: its outcome and the states that it leaves. -/
abbrev Denotation (σ W ε α : Type) := σ → W → Outcome ε α × σ × W

namespace Denotation

/-- `r`, and then `f` with its value. -/
def andThen (r : Denotation σ W ε α) (f : α → Denotation σ W ε β) : Denotation σ W ε β := fun s w =>
  match r s w with
  | (.ok a, s', w') => f a s' w'
  | (.error e, s', w') => (.error e, s', w')
  | (.spun, s', w') => (.spun, s', w')

theorem andThen_ok {r : Denotation σ W ε α} {s s' : σ} {w w' : W} {a : α}
    (h : r s w = (.ok a, s', w')) (f : α → Denotation σ W ε β) : r.andThen f s w = f a s' w' := by
  unfold andThen
  rw [h]

/-- `r`, and `g` with its exception. -/
def recover (r : Denotation σ W ε α) (g : ε → Denotation σ W ε α) : Denotation σ W ε α := fun s w =>
  match r s w with
  | (.error e, s', w') => g e s' w'
  | (o, s', w') => (o, s', w')

/-- `r`, and then `f` however `r` ended. -/
def atLast (r : Denotation σ W ε α) (f : Denotation σ W ε Unit) : Denotation σ W ε α := fun s w =>
  match r s w with
  | (.ok a, s', w') => andThen f (fun _ s w => (.ok a, s, w)) s' w'
  | (.error e, s', w') => andThen f (fun _ s w => (.error e, s, w)) s' w'
  | (.spun, s', w') => (.spun, s', w')

end Denotation

open Denotation

theorem run_bind (p : Program I σ ε α) (f : α → Program I σ ε β) :
    (p.bind f).run h = andThen (p.run h) fun a => (f a).run h := by
  funext s w
  induction p generalizing s w with
  | pure a => rfl
  | raise e => rfl
  | spin => rfl
  | get k ih => exact ih s s w
  | set s' k ih => exact ih s' w
  | call o k ih => exact ih _ s _

theorem run_tryCatch (p : Program I σ ε α) (g : ε → Program I σ ε α) :
    (p.tryCatch g).run h = recover (p.run h) fun e => (g e).run h := by
  funext s w
  induction p generalizing s w with
  | pure a => rfl
  | raise e => rfl
  | spin => rfl
  | get k ih => exact ih s s w
  | set s' k ih => exact ih s' w
  | call o k ih => exact ih _ s _

theorem run_tryFinally (p : Program I σ ε α) (f : Program I σ ε Unit) :
    (p.tryFinally f).run h = atLast (p.run h) (f.run h) := by
  funext s w
  induction p generalizing s w with
  | pure a => exact congrFun₂ (run_bind f fun _ => .pure a) s w
  | raise e => exact congrFun₂ (run_bind f fun _ => .raise e) s w
  | spin => rfl
  | get k ih => exact ih s s w
  | set s' k ih => exact ih s' w
  | call o k ih => exact ih _ s _

/-- That programs run alike in two environments is a property of the calls they make. -/
theorem run_eq_compositional (h h' : Handler I W) :
    Compositional (fun p : Program I σ ε _ => p.run h = p.run h') where
  pure _ := rfl
  raise _ := rfl
  spin := rfl
  bind hp hf := by rw [run_bind, run_bind, hp, funext hf]
  tryCatch hp hg := by rw [run_tryCatch, run_tryCatch, hp, funext hg]
  tryFinally hp hf := by rw [run_tryFinally, run_tryFinally, hp, hf]

/-! ## Congruence -/

theorem run_bind_congr {p p' : Program I σ ε α} {f f' : α → Program I σ ε β}
    (hp : p.run h = p'.run h) (hf : ∀ a, (f a).run h = (f' a).run h) :
    (p.bind f).run h = (p'.bind f').run h := by
  rw [run_bind, run_bind, hp, funext hf]

theorem run_tryCatch_congr {p p' : Program I σ ε α} {g g' : ε → Program I σ ε α}
    (hp : p.run h = p'.run h) (hg : ∀ e, (g e).run h = (g' e).run h) :
    (p.tryCatch g).run h = (p'.tryCatch g').run h := by
  rw [run_tryCatch, run_tryCatch, hp, funext hg]

/-- The handlers need to agree on the exceptions that are raised. -/
theorem run_tryCatch_congr_of {p p' : Program I σ ε α} {g g' : ε → Program I σ ε α} {φ : ε → Prop}
    (hp : p.run h = p'.run h) (hφ : ∀ s w, wp h p (fun o _ _ => ∀ e, o = .error e → φ e) s w)
    (hg : ∀ e, φ e → (g e).run h = (g' e).run h) :
    (p.tryCatch g).run h = (p'.tryCatch g').run h := by
  rw [run_tryCatch, run_tryCatch, ← hp]
  funext s w
  have hraised := hφ s w
  unfold wp at hraised
  unfold recover
  generalize p.run h s w = r at hraised ⊢
  obtain ⟨o, s', w'⟩ := r
  cases o with
  | ok a => rfl
  | error e => exact congrFun₂ (hg e (hraised e rfl)) s' w'
  | spun => rfl

/-- The second programs need to run alike from the states that the first one leaves. -/
theorem run_bind_congr_at {p : Program I σ ε α} {f f' : α → Program I σ ε β} {s : σ} {w : W}
    (hf : wp h p (fun o s' w' => ∀ a, o = .ok a → (f a).run h s' w' = (f' a).run h s' w') s w) :
    (p.bind f).run h s w = (p.bind f').run h s w := by
  rw [run_bind, run_bind]
  unfold wp at hf
  unfold andThen
  generalize p.run h s w = r at hf ⊢
  obtain ⟨o, s', w'⟩ := r
  cases o with
  | ok a => exact hf a rfl
  | error e => rfl
  | spun => rfl

theorem run_tryFinally_congr {p p' : Program I σ ε α} {f f' : Program I σ ε Unit}
    (hp : p.run h = p'.run h) (hf : f.run h = f'.run h) :
    (p.tryFinally f).run h = (p'.tryFinally f').run h := by
  rw [run_tryFinally, run_tryFinally, hp, hf]

theorem run_ite_congr {c : Prop} [Decidable c] {p p' q q' : Program I σ ε α}
    (hp : c → p.run h = p'.run h) (hq : ¬ c → q.run h = q'.run h) :
    (if c then p else q).run h = (if c then p' else q').run h := by
  by_cases hc : c
  · rw [if_pos hc, if_pos hc, hp hc]
  · rw [if_neg hc, if_neg hc, hq hc]

theorem run_forEach_congr {l : List κ} {f f' : κ → Program I σ ε Unit}
    (hf : ∀ x ∈ l, (f x).run h = (f' x).run h) : (forEach l f).run h = (forEach l f').run h := by
  induction l with
  | nil => rfl
  | cons x xs ih =>
      apply run_bind_congr (hf x List.mem_cons_self)
      exact fun _ => ih fun y hy => hf y (List.mem_cons_of_mem _ hy)

/-! ## Generators -/

/-- Both ways to consume the generators run alike. -/
def Matches (h : Handler I W) (g g' : Gen I σ ε κ Unit) : Prop :=
  g.collect.run h = g'.collect.run h ∧ ∀ q, (g.anyYield q).run h = (g'.anyYield q).run h

theorem matches_refl (g : Gen I σ ε κ Unit) : Matches h g g := ⟨rfl, fun _ => rfl⟩

theorem matches_embed_bind {p p' : Program I σ ε α} {f f' : α → Gen I σ ε κ Unit}
    (hp : p.run h = p'.run h) (hf : ∀ a, Matches h (f a) (f' a)) :
    Matches h (p.embed.bind f) (p'.embed.bind f') := by
  refine ⟨?_, fun q => ?_⟩
  · rw [collect_embed_bind, collect_embed_bind]
    exact run_bind_congr hp fun a => (hf a).1
  · rw [anyYield_embed_bind, anyYield_embed_bind]
    exact run_bind_congr hp fun a => (hf a).2 q

theorem matches_bind {p p' r r' : Gen I σ ε κ Unit} (hp : Matches h p p') (hr : Matches h r r') :
    Matches h (p.bind fun _ => r) (p'.bind fun _ => r') := by
  refine ⟨?_, fun q => ?_⟩
  · rw [collect_bind, collect_bind]
    exact run_bind_congr hp.1 fun xs => run_bind_congr hr.1 fun ys => rfl
  · rw [anyYield_bind, anyYield_bind]
    refine run_bind_congr (hp.2 q) fun hit => ?_
    exact run_ite_congr (fun _ => rfl) fun _ => hr.2 q

theorem matches_ite {c : Prop} [Decidable c] {g g' r r' : Gen I σ ε κ Unit}
    (hg : c → Matches h g g') (hr : ¬ c → Matches h r r') :
    Matches h (if c then g else r) (if c then g' else r') := by
  by_cases hc : c
  · rw [if_pos hc, if_pos hc]
    exact hg hc
  · rw [if_neg hc, if_neg hc]
    exact hr hc

theorem matches_forEach {l : List δ} {f f' : δ → Gen I σ ε κ Unit}
    (hf : ∀ x ∈ l, Matches h (f x) (f' x)) : Matches h (forEach l f) (forEach l f') := by
  induction l with
  | nil => exact matches_refl _
  | cons x xs ih =>
      apply matches_bind (hf x List.mem_cons_self)
      exact ih fun y hy => hf y (List.mem_cons_of_mem _ hy)

end Program

end GufoBlob.Interaction
