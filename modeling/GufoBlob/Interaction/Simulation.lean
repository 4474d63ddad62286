import GufoBlob.Interaction.Denotation
import GufoBlob.Interaction.Runs

/-!
# Programs in two environments

A program `Simulates` its run in another environment when, from states that are related, it ends in
the same way in both and leaves related states. This is a compositional property, so that it has to
be proved of the calls that a development is built from only.
-/

namespace GufoBlob.Interaction

namespace Program

variable {I : Interface} {σ ε α β κ W V : Type} {h : Handler I W} {h' : Handler I V}
  {R R' : W → V → Prop}

/-- In the environments `h` and `h'` the program ends in the same way, and it leaves states that are
related by `R` when it begins in such states. -/
def Simulates (h : Handler I W) (h' : Handler I V) (R : W → V → Prop) (p : Program I σ ε α) : Prop :=
  ∀ s w v, R w v → wp h p (fun o s' w' => ∃ v', p.run h' s v = (o, s', v') ∧ R w' v') s w

theorem simulates_pure (a : α) : Simulates h h' R (.pure a : Program I σ ε α) :=
  fun _ _ v hwv => ⟨v, rfl, hwv⟩

theorem simulates_raise (e : ε) : Simulates h h' R (.raise e : Program I σ ε α) :=
  fun _ _ v hwv => ⟨v, rfl, hwv⟩

theorem simulates_call {o : I.Op} {k : I.Ans o → Program I σ ε α}
    (ho : ∀ w v, R w v → (h w o).1 = (h' v o).1 ∧ R (h w o).2 (h' v o).2)
    (hk : ∀ r, Simulates h h' R (k r)) : Simulates h h' R (.call o k) := by
  intro s w v hwv
  obtain ⟨hanswer, hnext⟩ := ho w v hwv
  rw [wp_call, hanswer]
  exact hk _ s _ _ hnext

theorem simulates_read : Simulates h h' R (read : Program I σ ε σ) := fun _ _ v hwv => ⟨v, rfl, hwv⟩

theorem simulates_modify (f : σ → σ) : Simulates h h' R (modify f : Program I σ ε Unit) :=
  fun _ _ v hwv => ⟨v, rfl, hwv⟩

/-- The first program may lead from `R` to a relation that the second one keeps. -/
theorem simulates_bind_of {p : Program I σ ε α} {f : α → Program I σ ε β} {s : σ} {w : W} {v : V}
    (hp : wp h p (fun o s' w' => ∃ v', p.run h' s v = (o, s', v') ∧ R w' v' ∧
      ∀ a, o = .ok a → R' w' v') s w)
    (hf : ∀ a, Simulates h h' R' (f a)) (hR : ∀ w v, R' w v → R w v) :
    wp h (p.bind f) (fun o s' w' => ∃ v', (p.bind f).run h' s v = (o, s', v') ∧ R w' v') s w := by
  rw [wp_bind]
  apply wp_mono hp
  rintro (a | e | _) s' w' ⟨v', hrun, hwv, hok⟩
  · rw [bindPost_ok]
    apply wp_mono (hf a s' w' v' (hok a rfl))
    rintro o s'' w'' ⟨v'', hrest, hwv'⟩
    refine ⟨v'', ?_, hR _ _ hwv'⟩
    rw [run_bind, Denotation.andThen_ok hrun, hrest]
  · refine ⟨v', ?_, hwv⟩
    rw [run_bind, Denotation.andThen, hrun]
  · refine ⟨v', ?_, hwv⟩
    rw [run_bind, Denotation.andThen, hrun]

theorem simulates_bind {p : Program I σ ε α} {f : α → Program I σ ε β} (hp : Simulates h h' R p)
    (hf : ∀ a, Simulates h h' R (f a)) : Simulates h h' R (p.bind f) := by
  intro s w v hwv
  refine simulates_bind_of (wp_mono (hp s w v hwv) ?_) hf fun _ _ hwv' => hwv'
  rintro o s' w' ⟨v', hrun, hwv'⟩
  exact ⟨v', hrun, hwv', fun _ _ => hwv'⟩

theorem simulates_compositional (h : Handler I W) (h' : Handler I V) (R : W → V → Prop) :
    Compositional (fun p : Program I σ ε _ => Simulates h h' R p) where
  pure := simulates_pure
  raise := simulates_raise
  spin _ _ v hwv := ⟨v, rfl, hwv⟩
  bind := simulates_bind
  tryCatch := by
    intro α p g hp hg s w v hwv
    rw [wp_tryCatch]
    apply wp_mono (hp s w v hwv)
    rintro (a | e | _) s' w' ⟨v', hrun, hwv'⟩
    · refine ⟨v', ?_, hwv'⟩
      rw [run_tryCatch, Denotation.recover, hrun]
    · rw [catchPost_error]
      apply wp_mono (hg e s' w' v' hwv')
      rintro o s'' w'' ⟨v'', hrest, hwv''⟩
      refine ⟨v'', ?_, hwv''⟩
      rw [run_tryCatch, Denotation.recover, hrun]
      exact hrest
    · refine ⟨v', ?_, hwv'⟩
      rw [run_tryCatch, Denotation.recover, hrun]
  tryFinally := by
    intro α p f hp hf s w v hwv
    -- the clause runs in both environments, and then the outcome of `p` is that of the whole
    have hclause : ∀ (q : Program I σ ε α), Simulates h h' R q → Simulates h h' R (f.bind fun _ => q) :=
      fun q hq => simulates_bind hf fun _ => hq
    rw [wp_tryFinally]
    apply wp_mono (hp s w v hwv)
    rintro (a | e | _) s' w' ⟨v', hrun, hwv'⟩
    · rw [finallyPost_ok]
      apply wp_mono (hclause _ (simulates_pure a) s' w' v' hwv')
      rintro o s'' w'' ⟨v'', hrest, hwv''⟩
      refine ⟨v'', ?_, hwv''⟩
      rw [run_bind] at hrest
      rw [run_tryFinally, Denotation.atLast, hrun]
      exact hrest
    · rw [finallyPost_error]
      apply wp_mono (hclause _ (simulates_raise e) s' w' v' hwv')
      rintro o s'' w'' ⟨v'', hrest, hwv''⟩
      refine ⟨v'', ?_, hwv''⟩
      rw [run_bind] at hrest
      rw [run_tryFinally, Denotation.atLast, hrun]
      exact hrest
    · refine ⟨v', ?_, hwv'⟩
      rw [run_tryFinally, Denotation.atLast, hrun]

end Program

end GufoBlob.Interaction
