import GufoBlob.Interaction.Compositional

/-!
# Programs that end

`Ends` is correctness with exceptions: the program ends, keeps an invariant `J` and returns values
in `R`, or raises what `E` says. There is a rule for each combinator. `Raises φ J` is the usual `E`:
the exceptions satisfy `φ`, and the invariant holds. The first argument says whether the program may
also run out of fuel: with `False` this is total correctness, with `True` partial correctness.

A loop with fuel ends when every iteration lowers a bound that the fuel exceeds; the proofs of such
loops are by induction on the fuel, with the rules of `wp`.
-/

namespace GufoBlob.Interaction

namespace Program

variable {I : Interface} {σ ε α β W κ : Type} {h : Handler I W}

/-- What `Ends` asks of an outcome. -/
def endsPost (F : Prop) (J : σ → W → Prop) (E : ε → σ → W → Prop) (R : α → Prop) :
    Outcome ε α → σ → W → Prop
  | .ok a => fun s w => R a ∧ J s w
  | .error e => E e
  | .spun => fun _ _ => F

/-- `p` ends, unless `F` holds, and keeps `J`; it returns values in `R`, or raises an exception as
in `E`. -/
def Ends (F : Prop) (h : Handler I W) (J : σ → W → Prop) (E : ε → σ → W → Prop) (R : α → Prop)
    (p : Program I σ ε α) : Prop := ∀ s w, J s w → wp h p (endsPost F J E R) s w

/-- The exception satisfies `φ`, and the invariant holds. -/
def Raises (φ : ε → Prop) (J : σ → W → Prop) : ε → σ → W → Prop := fun e s w => φ e ∧ J s w

variable {F : Prop} {J : σ → W → Prop} {E E' : ε → σ → W → Prop} {R : α → Prop} {φ ψ : ε → Prop}

theorem ends_pure {a : α} (ha : R a) : Ends F h J E R (.pure a) := fun _ _ hJ => ⟨ha, hJ⟩

theorem ends_raise {e : ε} (he : φ e) : Ends F h J (Raises φ J) R (.raise e) := fun _ _ hJ => ⟨he, hJ⟩

theorem ends_spin (hF : F) : Ends F h J E R .spin := fun _ _ _ => hF

theorem ends_read {R : σ → Prop} (hR : ∀ s w, J s w → R s) : Ends F h J E R read :=
  fun s w hJ => ⟨hR s w hJ, hJ⟩

theorem ends_modify {f : σ → σ} (hf : ∀ s w, J s w → J (f s) w) :
    Ends F h J E (fun _ : Unit => True) (modify f) := fun s w hJ => ⟨trivial, hf s w hJ⟩

theorem ends_ofExcept {r : Except ε α} (hok : ∀ a, r = .ok a → R a)
    (herror : ∀ e, r = .error e → φ e) : Ends F h J (Raises φ J) R (Program.ofExcept r) := by
  cases r with
  | ok a => exact ends_pure (hok a rfl)
  | error e => exact ends_raise (herror e rfl)

/-- The consequence rule. -/
theorem Ends.mono {R' : α → Prop} {p : Program I σ ε α} (hp : Ends F h J E R p)
    (hE : ∀ e s w, E e s w → E' e s w) (hR : ∀ a, R a → R' a) : Ends F h J E' R' p := by
  intro s w hJ
  apply wp_mono (hp s w hJ)
  rintro (a | e | _) s' w' ho
  · exact ⟨hR a ho.1, ho.2⟩
  · exact hE e s' w' ho
  · exact ho

theorem Ends.weaken {p : Program I σ ε α} (hp : Ends F h J (Raises φ J) R p)
    (hφ : ∀ e, φ e → ψ e) : Ends F h J (Raises ψ J) R p :=
  hp.mono (fun _ _ _ he => ⟨hφ _ he.1, he.2⟩) fun _ ha => ha

/-- Nothing is claimed of the result. -/
theorem Ends.forget {p : Program I σ ε α} (hp : Ends F h J E R p) :
    Ends F h J E (fun _ => True) p := hp.mono (fun _ _ _ he => he) fun _ _ => trivial

theorem ends_bind {R' : β → Prop} {p : Program I σ ε α} {f : α → Program I σ ε β}
    (hp : Ends F h J E R p) (hf : ∀ a, R a → Ends F h J E R' (f a)) : Ends F h J E R' (p.bind f) := by
  intro s w hJ
  rw [wp_bind]
  apply wp_mono (hp s w hJ)
  rintro (a | e | _) s' w' ho
  · exact hf a ho.1 s' w' ho.2
  · exact ho
  · exact ho

theorem ends_tryCatch {p : Program I σ ε α} {g : ε → Program I σ ε α}
    (hp : Ends F h J (Raises φ J) R p) (hg : ∀ e, φ e → Ends F h J E R (g e)) :
    Ends F h J E R (p.tryCatch g) := by
  intro s w hJ
  rw [wp_tryCatch]
  apply wp_mono (hp s w hJ)
  rintro (a | e | _) s' w' ho
  · exact ho
  · exact hg e ho.1 s' w' ho.2
  · exact ho

/-- A `finally` clause that raises nothing. -/
theorem ends_tryFinally {p : Program I σ ε α} {f : Program I σ ε Unit}
    (hp : Ends F h J (Raises φ J) R p) (hf : ∀ ψ, Ends F h J (Raises ψ J) (fun _ => True) f) :
    Ends F h J (Raises φ J) R (p.tryFinally f) := by
  intro s w hJ
  rw [wp_tryFinally]
  apply wp_mono (hp s w hJ)
  rintro (a | e | _) s' w' ho
  · exact ends_bind (hf φ) (fun _ _ => ends_pure ho.1) s' w' ho.2
  · exact ends_bind (hf φ) (fun _ _ => ends_raise ho.1) s' w' ho.2
  · exact ho

theorem ends_forEach {l : List κ} {f : κ → Program I σ ε Unit}
    (hf : ∀ x ∈ l, Ends F h J E (fun _ => True) (f x)) :
    Ends F h J E (fun _ => True) (Program.forEach l f) := by
  induction l with
  | nil => exact ends_pure trivial
  | cons x xs ih =>
      apply ends_bind (hf x List.mem_cons_self)
      exact fun _ _ => ih fun y hy => hf y (List.mem_cons_of_mem _ hy)

/-- Ending is a sequential property. -/
theorem ends_sequential (F : Prop) (h : Handler I W) (J : σ → W → Prop)
    (E : ε → σ → W → Prop) :
    Sequential (fun p : Program I σ ε _ => Ends F h J E (fun _ => True) p) where
  pure _ := ends_pure trivial
  bind hp hf := ends_bind hp fun a _ => hf a

end Program

end GufoBlob.Interaction
