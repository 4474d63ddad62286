import GufoBlob.Interaction.Compositional

/-!
# Conditions that hold unless the environment has failed

An environment can get into a state `B` for good, after which nothing is claimed any more. `orFailed`
weakens a postcondition accordingly, and each combinator has a rule in which only the part of the
environment that has not failed has to be followed.

`KeepsUnless` is the invariant form: between two pieces of a program `J` holds, and of a piece that
never ends only `K` is known. It is a compositional property.
-/

namespace GufoBlob.Interaction

namespace Program

variable {I : Interface} {σ ε α β W : Type} {h : Handler I W} {B : W → Prop} {s : σ} {w : W}

/-- `Q` holds, or the environment has failed. -/
def orFailed (B : W → Prop) (Q : Outcome ε α → σ → W → Prop) : Outcome ε α → σ → W → Prop :=
  fun o s w => B w ∨ Q o s w

section Rules

variable (hB : ∀ w o, B w → B (h w o).2)

include hB

theorem wp_unless_failed {p : Program I σ ε α} {Q : Outcome ε α → σ → W → Prop} (hw : B w) :
    wp h p (orFailed B Q) s w :=
  wp_mono (preserves_of_stable hB p s w hw) fun _ _ _ hw => .inl hw

theorem wp_bind_unless {p : Program I σ ε α} {f : α → Program I σ ε β}
    {R : Outcome ε α → σ → W → Prop} {Q : Outcome ε β → σ → W → Prop}
    (hp : wp h p (orFailed B R) s w)
    (hok : ∀ a s w, R (.ok a) s w → wp h (f a) (orFailed B Q) s w)
    (herror : ∀ e s w, R (.error e) s w → Q (.error e) s w)
    (hspun : ∀ s w, R .spun s w → Q .spun s w) : wp h (p.bind f) (orFailed B Q) s w := by
  rw [wp_bind]
  apply wp_mono hp
  intro o s' w' ho
  cases o with
  | ok a =>
      rcases ho with hw | hR
      · exact wp_unless_failed hB hw
      · exact hok a s' w' hR
  | error e => exact ho.imp_right (herror e s' w')
  | spun => exact ho.imp_right (hspun s' w')

theorem wp_tryCatch_unless {p : Program I σ ε α} {g : ε → Program I σ ε α}
    {R Q : Outcome ε α → σ → W → Prop} (hp : wp h p (orFailed B R) s w)
    (hok : ∀ a s w, R (.ok a) s w → Q (.ok a) s w)
    (herror : ∀ e s w, R (.error e) s w → wp h (g e) (orFailed B Q) s w)
    (hspun : ∀ s w, R .spun s w → Q .spun s w) : wp h (p.tryCatch g) (orFailed B Q) s w := by
  rw [wp_tryCatch]
  apply wp_mono hp
  intro o s' w' ho
  cases o with
  | ok a => exact ho.imp_right (hok a s' w')
  | error e =>
      rcases ho with hw | hR
      · exact wp_unless_failed hB hw
      · exact herror e s' w' hR
  | spun => exact ho.imp_right (hspun s' w')

theorem wp_tryFinally_unless {p : Program I σ ε α} {f : Program I σ ε Unit}
    {R Q : Outcome ε α → σ → W → Prop} (hp : wp h p (orFailed B R) s w)
    (hok : ∀ a s w, R (.ok a) s w → wp h (f.bind fun _ => .pure a) (orFailed B Q) s w)
    (herror : ∀ e s w, R (.error e) s w → wp h (f.bind fun _ => .raise e) (orFailed B Q) s w)
    (hspun : ∀ s w, R .spun s w → Q .spun s w) : wp h (p.tryFinally f) (orFailed B Q) s w := by
  rw [wp_tryFinally]
  apply wp_mono hp
  intro o s' w' ho
  cases o with
  | ok a =>
      rcases ho with hw | hR
      · exact wp_unless_failed hB hw
      · exact hok a s' w' hR
  | error e =>
      rcases ho with hw | hR
      · exact wp_unless_failed hB hw
      · exact herror e s' w' hR
  | spun => exact ho.imp_right (hspun s' w')

end Rules

/-! ## Invariants -/

variable {J : σ → W → Prop} {K : W → Prop}

/-- What is left of the invariant when a program ends with the outcome `o`. -/
def afterwards (J : σ → W → Prop) (K : W → Prop) : Outcome ε α → σ → W → Prop
  | .ok _ => J
  | .error _ => J
  | .spun => fun _ => K

/-- `p` keeps the invariant, unless the environment fails. -/
def KeepsUnless (h : Handler I W) (B : W → Prop) (J : σ → W → Prop) (K : W → Prop)
    (p : Program I σ ε α) : Prop :=
  ∀ s w, J s w → wp h p (orFailed B (afterwards J K)) s w

theorem keepsUnless_compositional (hB : ∀ w o, B w → B (h w o).2) (hJ : ∀ s w, J s w → K w) :
    Compositional (fun p : Program I σ ε _ => KeepsUnless h B J K p) where
  pure _ := fun _ _ hs => .inr hs
  raise _ := fun _ _ hs => .inr hs
  spin := fun s w hs => .inr (hJ s w hs)
  bind := by
    intro α β p f hp hf s w hs
    apply wp_bind_unless hB (hp s w hs)
    · exact fun a s' w' hs' => hf a s' w' hs'
    · exact fun _ _ _ hs' => hs'
    · exact fun _ _ hK => hK
  tryCatch := by
    intro α p g hp hg s w hs
    apply wp_tryCatch_unless hB (hp s w hs)
    · exact fun _ _ _ hs' => hs'
    · exact fun e s' w' hs' => hg e s' w' hs'
    · exact fun _ _ hK => hK
  tryFinally := by
    intro α p f hp hf s w hs
    have hend : ∀ (q : Program I σ ε α), (∀ s w, J s w → wp h q (orFailed B (afterwards J K)) s w) →
        ∀ s w, J s w → wp h (f.bind fun _ => q) (orFailed B (afterwards J K)) s w := by
      intro q hq s w hs
      apply wp_bind_unless hB (hf s w hs)
      · exact fun _ s' w' hs' => hq s' w' hs'
      · exact fun _ _ _ hs' => hs'
      · exact fun _ _ hK => hK
    apply wp_tryFinally_unless hB (hp s w hs)
    · exact fun a s' w' hs' => hend (.pure a) (fun _ _ hs => .inr hs) s' w' hs'
    · exact fun e s' w' hs' => hend (.raise e) (fun _ _ hs => .inr hs) s' w' hs'
    · exact fun _ _ hK => hK

end Program

end GufoBlob.Interaction
