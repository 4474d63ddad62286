import GufoBlob.Interaction.Ends

/-!
# Runs with a known end

When the environment is known, so is how a program ends: `exactly o R` says that the outcome is `o`
and that the states it leaves are in `R`. There is one rule for each combinator.

`Emits` is the same for a generator: it ends, keeps an invariant, and yields the given values to
`list(generator)` and to `any(… for … in generator)`, which may drop it early.
-/

namespace GufoBlob.Interaction

namespace Program

variable {I : Interface} {σ ε α β γ W κ δ : Type} {h : Handler I W} {s : σ} {w : W}

/-- The outcome is `o`, and the states it leaves are in `R`. -/
def exactly (o : Outcome ε α) (R : σ → W → Prop) : Outcome ε α → σ → W → Prop :=
  fun o' s w => o' = o ∧ R s w

theorem wp_bind_ok {p : Program I σ ε α} {f : α → Program I σ ε β} {a : α} {R : σ → W → Prop}
    {Q : Outcome ε β → σ → W → Prop} (hp : wp h p (exactly (.ok a) R) s w)
    (hf : ∀ s w, R s w → wp h (f a) Q s w) : wp h (p.bind f) Q s w := by
  rw [wp_bind]
  apply wp_mono hp
  rintro o s' w' ⟨rfl, hR⟩
  exact hf s' w' hR

theorem wp_tryCatch_ok {p : Program I σ ε α} {g : ε → Program I σ ε α} {a : α} {R : σ → W → Prop}
    (hp : wp h p (exactly (.ok a) R) s w) :
    wp h (p.tryCatch g) (exactly (.ok a) R) s w := by
  rw [wp_tryCatch]
  apply wp_mono hp
  rintro o s' w' ⟨rfl, hR⟩
  exact ⟨rfl, hR⟩

/-- A `finally` clause that returns leaves the outcome as it is. -/
theorem wp_tryFinally_of {p : Program I σ ε α} {f : Program I σ ε Unit}
    {R Q : Outcome ε α → σ → W → Prop} (hp : wp h p (fun o s w => o ≠ .spun ∧ R o s w) s w)
    (hf : ∀ o s w, R o s w → wp h f (exactly (.ok ()) (Q o)) s w) :
    wp h (p.tryFinally f) Q s w := by
  rw [wp_tryFinally]
  apply wp_mono hp
  rintro o s' w' ⟨ho, hR⟩
  cases o with
  | ok a =>
      rw [finallyPost_ok]
      apply wp_bind_ok (hf _ s' w' hR)
      exact fun _ _ hQ => hQ
  | error e =>
      rw [finallyPost_error]
      apply wp_bind_ok (hf _ s' w' hR)
      exact fun _ _ hQ => hQ
  | spun => exact absurd rfl ho

/-! ## Generators -/

/-- The program ends, keeps `J` and returns `a`. -/
abbrev EndsWith (h : Handler I W) (J : σ → W → Prop) (a : α) (p : Program I σ ε α) : Prop :=
  Ends False h J (fun _ _ _ => False) (· = a) p

theorem EndsWith.bind {J : σ → W → Prop} {a : α} {b : β} {p : Program I σ ε α}
    {f : α → Program I σ ε β} (hp : EndsWith h J a p) (hf : EndsWith h J b (f a)) :
    EndsWith h J b (p.bind f) := by
  apply ends_bind hp
  rintro x rfl
  exact hf

theorem EndsWith.exactly {J : σ → W → Prop} {a : α} {p : Program I σ ε α} (hp : EndsWith h J a p)
    (hJ : J s w) : wp h p (exactly (.ok a) J) s w := by
  apply wp_mono (hp s w hJ)
  rintro (x | e | _) s' w' ho
  · exact ⟨congrArg _ ho.1, ho.2⟩
  · exact ho.elim
  · exact ho.elim

theorem EndsWith.run {J : σ → W → Prop} {a : α} {p : Program I σ ε α} (hp : EndsWith h J a p)
    (hJ : J s w) : (p.run h s w).1 = .ok a := by
  have hend := hp s w hJ
  unfold wp at hend
  cases hout : (p.run h s w).1 with
  | ok x =>
      rw [hout] at hend
      exact congrArg _ hend.1
  | error e =>
      rw [hout] at hend
      exact hend.elim
  | spun =>
      rw [hout] at hend
      exact hend.elim

theorem EndsWith.tryCatch {J : σ → W → Prop} {a : α} {p : Program I σ ε α}
    {g : ε → Program I σ ε α} (hp : EndsWith h J a p) : EndsWith h J a (p.tryCatch g) := by
  intro s w hJ
  rw [wp_tryCatch]
  apply wp_mono (hp s w hJ)
  rintro (x | e | _) s' w' ho
  · exact ho
  · exact ho.elim
  · exact ho.elim

/-- The generator ends, keeps `J` between two calls and yields `xs`. -/
structure Emits (h : Handler I W) (J : σ → W → Prop) (xs : List κ) (g : Gen I σ ε κ Unit) : Prop where
  list : EndsWith h J xs g.collect
  any : ∀ q : κ → Bool, EndsWith h J (xs.any q) (g.anyYield q)

variable {J : σ → W → Prop}

theorem emits_pure : Emits h J [] (.pure () : Gen I σ ε κ Unit) :=
  ⟨ends_pure rfl, fun _ => ends_pure rfl⟩

theorem emits_yield (x : κ) : Emits h J [x] (yield x : Gen I σ ε κ Unit) where
  list := ends_pure rfl
  any q := by
    show EndsWith h J ([x].any q) (if q x then .pure true else .pure false)
    split
    · next hq => exact ends_pure (by simp [hq])
    · next hq => exact ends_pure (by simp [hq])

theorem emits_bind {xs ys : List κ} {g r : Gen I σ ε κ Unit} (hg : Emits h J xs g)
    (hr : Emits h J ys r) : Emits h J (xs ++ ys) (g.bind fun _ => r) where
  list := by
    rw [collect_bind]
    exact hg.list.bind (hr.list.bind (ends_pure rfl))
  any q := by
    rw [anyYield_bind, List.any_append]
    apply (hg.any q).bind
    split
    · next hq => exact ends_pure (by simp [hq])
    · next hq => simpa [hq] using hr.any q

theorem emits_embed_bind {a : α} {xs : List κ} {p : Program I σ ε α} {f : α → Gen I σ ε κ Unit}
    (hp : EndsWith h J a p) (hf : Emits h J xs (f a)) : Emits h J xs (p.embed.bind f) where
  list := by
    rw [collect_embed_bind]
    exact hp.bind hf.list
  any q := by
    rw [anyYield_embed_bind]
    exact hp.bind (hf.any q)

/-- A loop over the images of the elements of `l`. -/
theorem emits_forEach {l : List γ} {m : γ → δ} {f : δ → Gen I σ ε κ Unit} {g : γ → List κ}
    (hf : ∀ x ∈ l, Emits h J (g x) (f (m x))) : Emits h J (l.flatMap g) (forEach (l.map m) f) := by
  induction l with
  | nil => exact emits_pure
  | cons x l ih =>
      rw [List.flatMap_cons, List.map_cons, forEach]
      apply emits_bind (hf x List.mem_cons_self)
      exact ih fun y hy => hf y (List.mem_cons_of_mem x hy)

end Program

end GufoBlob.Interaction
