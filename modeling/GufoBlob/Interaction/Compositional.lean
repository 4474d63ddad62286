import GufoBlob.Interaction.Generator

/-!
# Properties preserved by the combinators

A property of programs is `Compositional` when sequencing, `try` and `finally` preserve it, and
`Sequential` when sequencing does. Such a property has to be proved of the calls that a development
is built from only; what is put together from them has it by the structure of its text.

* `preserves_compositional` — keeping an invariant is such a property.
* `Generates` — the same for a generator: it holds of `list(generator)` and of
  `any(… for … in generator)`, and the rules below follow the text of the generator.
* `Generative` — what the rules for generators need.
-/

namespace GufoBlob.Interaction

namespace Program

variable {I : Interface} {σ ε α β W κ : Type}

/-- `any(p(x) for x in generator)` over two generators in sequence stops in the first one or goes
on in the second. -/
theorem anyYield_bind (q : κ → Bool) (p r : Gen I σ ε κ Unit) :
    (p.bind fun _ => r).anyYield q =
      (p.anyYield q).bind fun hit => if hit then .pure true else r.anyYield q := by
  induction p with
  | pure a => rfl
  | raise e => rfl
  | spin => rfl
  | get k ih => exact congrArg _ (funext ih)
  | set s k ih => exact congrArg _ ih
  | call o k ih =>
      cases o with
      | inl o => exact congrArg _ (funext ih)
      | inr x =>
          show (if q x then .pure true else ((k ()).bind fun _ => r).anyYield q) = _
          rw [ih (), show Program.anyYield q (.call (.inr x) k) =
            if q x then .pure true else (k ()).anyYield q from rfl]
          split
          · rfl
          · rfl

/-- A property of programs that sequencing preserves. -/
structure Sequential (P : ∀ {α : Type}, Program I σ ε α → Prop) : Prop where
  pure : ∀ {α : Type} (a : α), P (.pure a : Program I σ ε α)
  bind : ∀ {α β : Type} {p : Program I σ ε α} {f : α → Program I σ ε β}, P p → (∀ a, P (f a)) →
    P (p.bind f)

/-- A property of programs that the combinators preserve. -/
structure Compositional (P : ∀ {α : Type}, Program I σ ε α → Prop) : Prop extends Sequential P where
  raise : ∀ {α : Type} (e : ε), P (.raise e : Program I σ ε α)
  spin : ∀ {α : Type}, P (.spin : Program I σ ε α)
  tryCatch : ∀ {α : Type} {p : Program I σ ε α} {g : ε → Program I σ ε α}, P p → (∀ e, P (g e)) →
    P (p.tryCatch g)
  tryFinally : ∀ {α : Type} {p : Program I σ ε α} {f : Program I σ ε Unit}, P p → P f →
    P (p.tryFinally f)

theorem preserves_compositional (h : Handler I W) (J : σ → W → Prop) :
    Compositional (fun p : Program I σ ε _ => Preserves h J p) where
  pure := preserves_pure
  raise := preserves_raise
  spin := preserves_spin
  bind := preserves_bind
  tryCatch := preserves_tryCatch
  tryFinally := preserves_tryFinally

/-- What has every one of several properties. -/
theorem compositional_forall {ι : Type} {P : ι → ∀ {α : Type}, Program I σ ε α → Prop}
    (hP : ∀ i, Compositional (P i)) : Compositional (fun p : Program I σ ε _ => ∀ i, P i p) where
  pure a i := (hP i).pure a
  raise e i := (hP i).raise e
  spin i := (hP i).spin
  bind hp hf i := (hP i).bind (hp i) fun a => hf a i
  tryCatch hp hg i := (hP i).tryCatch (hp i) fun e => hg e i
  tryFinally hp hf i := (hP i).tryFinally (hp i) (hf i)

namespace Compositional

variable {P : ∀ {α : Type}, Program I σ ε α → Prop} (hP : Compositional P)

include hP

theorem ofExcept (r : Except ε α) : P (Program.ofExcept r : Program I σ ε α) := by
  cases r with
  | ok a => exact hP.pure a
  | error e => exact hP.raise e

theorem forEach {l : List κ} {f : κ → Program I σ ε Unit} (hf : ∀ x ∈ l, P (f x)) :
    P (Program.forEach l f) := by
  induction l with
  | nil => exact hP.pure ()
  | cons x xs ih =>
      apply hP.bind (hf x List.mem_cons_self)
      exact fun _ => ih fun y hy => hf y (List.mem_cons_of_mem _ hy)

end Compositional

/-! ## Generators -/

/-- Both ways to consume the generator have the property. -/
def Generates (P : ∀ {α : Type}, Program I σ ε α → Prop) (g : Gen I σ ε κ Unit) : Prop :=
  P g.collect ∧ ∀ q, P (g.anyYield q)

namespace Sequential

variable {P : ∀ {α : Type}, Program I σ ε α → Prop} (hP : Sequential P)

include hP

theorem generates_pure : Generates P (.pure () : Gen I σ ε κ Unit) :=
  ⟨hP.pure [], fun _ => hP.pure false⟩

theorem generates_yield (x : κ) : Generates P (yield x : Gen I σ ε κ Unit) := by
  refine ⟨hP.pure [x], fun q => ?_⟩
  show P (if q x then .pure true else .pure false)
  split
  · exact hP.pure true
  · exact hP.pure false

/-- Code that yields nothing, and a generator after it. -/
theorem generates_embed_bind {p : Program I σ ε α} {f : α → Gen I σ ε κ Unit} (hp : P p)
    (hf : ∀ a, Generates P (f a)) : Generates P (p.embed.bind f) := by
  refine ⟨?_, fun q => ?_⟩
  · rw [collect_embed_bind]
    exact hP.bind hp fun a => (hf a).1
  · rw [anyYield_embed_bind]
    exact hP.bind hp fun a => (hf a).2 q

theorem generates_bind {p r : Gen I σ ε κ Unit} (hp : Generates P p) (hr : Generates P r) :
    Generates P (p.bind fun _ => r) := by
  refine ⟨?_, fun q => ?_⟩
  · rw [collect_bind]
    apply hP.bind hp.1
    exact fun xs => hP.bind hr.1 fun ys => hP.pure (xs ++ ys)
  · rw [anyYield_bind]
    apply hP.bind (hp.2 q)
    intro hit
    split
    · exact hP.pure true
    · exact hr.2 q

theorem generates_forEach {δ : Type} {l : List δ} {f : δ → Gen I σ ε κ Unit}
    (hf : ∀ x ∈ l, Generates P (f x)) : Generates P (Program.forEach l f) := by
  induction l with
  | nil => exact hP.generates_pure
  | cons x xs ih =>
      apply hP.generates_bind (hf x List.mem_cons_self)
      exact ih fun y hy => hf y (List.mem_cons_of_mem _ hy)

end Sequential

/-- A property of generators that follows their text: the pieces between two yields have the
property `P`. -/
structure Generative (P : ∀ {α : Type}, Program I σ ε α → Prop) (G : Gen I σ ε κ Unit → Prop) :
    Prop where
  pure : G (.pure ())
  raise : ∀ e, G (.raise e)
  yield : ∀ x, G (Program.yield x)
  embed_bind : ∀ {α : Type} {p : Program I σ ε α} {f : α → Gen I σ ε κ Unit}, P p →
    (∀ a, G (f a)) → G (p.embed.bind f)
  bind : ∀ {p r : Gen I σ ε κ Unit}, G p → G r → G (p.bind fun _ => r)

/-- So does what holds of both ways to consume a generator. -/
theorem Compositional.generative {P : ∀ {α : Type}, Program I σ ε α → Prop}
    (hP : Compositional P) : Generative P (Generates P (κ := κ)) where
  pure := hP.generates_pure
  raise e := ⟨hP.raise e, fun _ => hP.raise e⟩
  yield := hP.generates_yield
  embed_bind hp hf := hP.generates_embed_bind hp hf
  bind hp hr := hP.generates_bind hp hr

namespace Generative

variable {P : ∀ {α : Type}, Program I σ ε α → Prop} {G : Gen I σ ε κ Unit → Prop}
  (hG : Generative P G)

include hG

theorem ofExcept_bind {r : Except ε α} {f : α → Gen I σ ε κ Unit} (hf : ∀ a, G (f a)) :
    G ((Program.ofExcept r : Gen I σ ε κ α).bind f) := by
  cases r with
  | ok a => exact hf a
  | error e => exact hG.raise e

theorem forEach {δ : Type} {l : List δ} {f : δ → Gen I σ ε κ Unit} (hf : ∀ x ∈ l, G (f x)) :
    G (Program.forEach l f) := by
  induction l with
  | nil => exact hG.pure
  | cons x xs ih =>
      apply hG.bind (hf x List.mem_cons_self)
      exact ih fun y hy => hf y (List.mem_cons_of_mem _ hy)

end Generative

end Program

end GufoBlob.Interaction
