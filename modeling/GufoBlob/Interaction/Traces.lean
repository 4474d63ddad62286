import GufoBlob.Interaction.Generator

/-!
# Traces

The calls that a program makes, with the answers that it gets: `Shows p s l o s'` when the answers in
`l` lead the program `p` through exactly the calls in `l`, from the state `s` to the outcome `o` and
the state `s'`. No environment is fixed, so that what holds of all traces holds whatever the
environment does (`run_logging`).
-/

namespace GufoBlob.Interaction

/-- A call, with its answer. -/
abbrev Entry (I : Interface) := (o : I.Op) × I.Ans o

def Outcome.ofExcept {ε α : Type} : Except ε α → Outcome ε α
  | .ok a => .ok a
  | .error e => .error e

theorem Outcome.ofExcept_ne_spun {ε α : Type} (r : Except ε α) : Outcome.ofExcept r ≠ .spun := by
  cases r <;> simp [Outcome.ofExcept]

namespace Program

variable {I : Interface} {σ ε α β W κ : Type}

/-- With these answers the program makes these calls, and ends so. -/
def Shows : Program I σ ε α → σ → List (Entry I) → Outcome ε α → σ → Prop
  | .pure a, s, l, o, s' => l = [] ∧ o = .ok a ∧ s' = s
  | .raise e, s, l, o, s' => l = [] ∧ o = .error e ∧ s' = s
  | .spin, s, l, o, s' => l = [] ∧ o = .spun ∧ s' = s
  | .get k, s, l, o, s' => (k s).Shows s l o s'
  | .set s₁ k, _, l, o, s' => k.Shows s₁ l o s'
  | .call op k, s, l, o, s' => ∃ r l', l = ⟨op, r⟩ :: l' ∧ (k r).Shows s l' o s'

section Shows

variable {s s' : σ} {l : List (Entry I)}

@[simp] theorem shows_pure {a : α} {o : Outcome ε α} :
    (pure a : Program I σ ε α).Shows s l o s' ↔ l = [] ∧ o = .ok a ∧ s' = s := Iff.rfl

@[simp] theorem shows_raise {e : ε} {o : Outcome ε α} :
    (raise e : Program I σ ε α).Shows s l o s' ↔ l = [] ∧ o = .error e ∧ s' = s := Iff.rfl

@[simp] theorem shows_call {op : I.Op} {k : I.Ans op → Program I σ ε α} {o : Outcome ε α} :
    (call op k).Shows s l o s' ↔ ∃ r l', l = ⟨op, r⟩ :: l' ∧ (k r).Shows s l' o s' := Iff.rfl

/-- A result that is there already. -/
@[simp] theorem shows_ofExcept {r : Except ε α} {o : Outcome ε α} :
    (ofExcept r : Program I σ ε α).Shows s l o s' ↔ l = [] ∧ o = .ofExcept r ∧ s' = s := by
  cases r <;> exact Iff.rfl

/-- The two parts of a sequence, or a first part that did not return. -/
theorem shows_bind {p : Program I σ ε α} {f : α → Program I σ ε β} {o : Outcome ε β}
    (h : (p.bind f).Shows s l o s') :
    (∃ a s₁ l₁ l₂, p.Shows s l₁ (.ok a) s₁ ∧ (f a).Shows s₁ l₂ o s' ∧ l = l₁ ++ l₂) ∨
      (∃ e, p.Shows s l (.error e) s' ∧ o = .error e) ∨ (p.Shows s l .spun s' ∧ o = .spun) := by
  induction p generalizing s l with
  | pure a => exact .inl ⟨a, s, [], l, ⟨rfl, rfl, rfl⟩, h, rfl⟩
  | raise e =>
      obtain ⟨rfl, rfl, rfl⟩ := h
      exact .inr (.inl ⟨e, ⟨rfl, rfl, rfl⟩, rfl⟩)
  | spin =>
      obtain ⟨rfl, rfl, rfl⟩ := h
      exact .inr (.inr ⟨⟨rfl, rfl, rfl⟩, rfl⟩)
  | get k ih => exact ih s h
  | set s₁ k ih => exact ih h
  | call op k ih =>
      obtain ⟨r, l', rfl, hrest⟩ := h
      rcases ih r hrest with ⟨a, s₁, l₁, l₂, hp, hf, rfl⟩ | ⟨e, hp, ho⟩ | ⟨hp, ho⟩
      · exact .inl ⟨a, s₁, ⟨op, r⟩ :: l₁, l₂, ⟨r, l₁, rfl, hp⟩, hf, rfl⟩
      · exact .inr (.inl ⟨e, ⟨r, l', rfl, hp⟩, ho⟩)
      · exact .inr (.inr ⟨⟨r, l', rfl, hp⟩, ho⟩)

/-- A `finally` clause that makes one call, raises nothing and leaves the state. -/
theorem shows_tryFinally {p : Program I σ ε α} {op : I.Op} {o : Outcome ε α}
    (h : (p.tryFinally (.call op fun _ => .pure ())).Shows s l o s') :
    (∃ l₁ r, p.Shows s l₁ o s' ∧ o ≠ .spun ∧ l = l₁ ++ [⟨op, r⟩]) ∨
      (p.Shows s l .spun s' ∧ o = .spun) := by
  induction p generalizing s l with
  | pure a =>
      obtain ⟨r, l', rfl, rfl, rfl, rfl⟩ := h
      exact .inl ⟨[], r, ⟨rfl, rfl, rfl⟩, by simp, rfl⟩
  | raise e =>
      obtain ⟨r, l', rfl, rfl, rfl, rfl⟩ := h
      exact .inl ⟨[], r, ⟨rfl, rfl, rfl⟩, by simp, rfl⟩
  | spin =>
      obtain ⟨rfl, rfl, rfl⟩ := h
      exact .inr ⟨⟨rfl, rfl, rfl⟩, rfl⟩
  | get k ih => exact ih s h
  | set s₁ k ih => exact ih h
  | call op' k ih =>
      obtain ⟨r, l', rfl, hrest⟩ := h
      rcases ih r hrest with ⟨l₁, r', hp, ho, rfl⟩ | ⟨hp, ho⟩
      · exact .inl ⟨⟨op', r⟩ :: l₁, r', ⟨r, l₁, rfl, hp⟩, ho, rfl⟩
      · exact .inr ⟨⟨r, l', rfl, hp⟩, ho⟩

end Shows

/-! ## Generators -/

/-- The calls of a generator, without what it yields. -/
def callsOf : List (Entry (I.yielding κ)) → List (Entry I)
  | [] => []
  | ⟨.inl o, r⟩ :: l => ⟨o, r⟩ :: callsOf l
  | ⟨.inr _, _⟩ :: l => callsOf l

@[simp] theorem callsOf_append (l l' : List (Entry (I.yielding κ))) :
    callsOf (l ++ l') = callsOf l ++ callsOf l' := by
  induction l with
  | nil => rfl
  | cons x l ih =>
      obtain ⟨o | x, r⟩ := x
      · exact congrArg (List.cons _) ih
      · exact ih

theorem shows_embed {p : Program I σ ε α} {s s' : σ} {l : List (Entry (I.yielding κ))}
    {o : Outcome ε α} (h : p.embed.Shows s l o s') : p.Shows s (callsOf l) o s' := by
  induction p generalizing s l with
  | pure a =>
      obtain ⟨rfl, ho⟩ := h
      exact ⟨rfl, ho⟩
  | raise e =>
      obtain ⟨rfl, ho⟩ := h
      exact ⟨rfl, ho⟩
  | spin =>
      obtain ⟨rfl, ho⟩ := h
      exact ⟨rfl, ho⟩
  | get k ih => exact ih s h
  | set s₁ k ih => exact ih h
  | call op k ih =>
      obtain ⟨r, l', rfl, hrest⟩ := h
      exact ⟨r, callsOf l', rfl, ih r hrest⟩

/-- How the list of a generator ends when the generator ends so. -/
def Collects {ε α : Type} (o : Outcome ε Unit) (o' : Outcome ε (List α)) : Prop :=
  (o = .ok () ∧ ∃ xs, o' = .ok xs) ∨ (∃ e, o = .error e ∧ o' = .error e) ∨ (o = .spun ∧ o' = .spun)

/-- The list of a generator makes the calls of the generator. -/
theorem shows_collect {g : Gen I σ ε κ Unit} {s s' : σ} {l : List (Entry I)}
    {o' : Outcome ε (List κ)} (h : g.collect.Shows s l o' s') :
    ∃ l' o, g.Shows s l' o s' ∧ callsOf l' = l ∧ Collects o o' := by
  induction g generalizing s l o' with
  | pure a =>
      obtain ⟨rfl, rfl, rfl⟩ := h
      exact ⟨[], .ok (), ⟨rfl, rfl, rfl⟩, rfl, .inl ⟨rfl, [], rfl⟩⟩
  | raise e =>
      obtain ⟨rfl, rfl, rfl⟩ := h
      exact ⟨[], .error e, ⟨rfl, rfl, rfl⟩, rfl, .inr (.inl ⟨e, rfl, rfl⟩)⟩
  | spin =>
      obtain ⟨rfl, rfl, rfl⟩ := h
      exact ⟨[], .spun, ⟨rfl, rfl, rfl⟩, rfl, .inr (.inr ⟨rfl, rfl⟩)⟩
  | get k ih => exact ih s h
  | set s₁ k ih => exact ih h
  | call op k ih =>
      cases op with
      | inl op =>
          obtain ⟨r, l', rfl, hrest⟩ := h
          obtain ⟨l'', o, hg, rfl, ho⟩ := ih r hrest
          exact ⟨⟨.inl op, r⟩ :: l'', o, ⟨r, l'', rfl, hg⟩, rfl, ho⟩
      | inr x =>
          rcases shows_bind h with ⟨xs, s₁, l₁, l₂, hk, ⟨rfl, rfl, rfl⟩, rfl⟩ | ⟨e, hk, rfl⟩ |
            ⟨hk, rfl⟩
          · obtain ⟨l'', o, hg, rfl, ho⟩ := ih () hk
            have hok : o = .ok () := by
              rcases ho with ⟨rfl, -⟩ | ⟨e, -, he⟩ | ⟨-, he⟩
              · rfl
              · cases he
              · cases he
            refine ⟨⟨.inr x, ()⟩ :: l'', o, ⟨(), l'', rfl, hg⟩, ?_, .inl ⟨hok, _, rfl⟩⟩
            rw [List.append_nil]
            rfl
          · obtain ⟨l'', o, hg, rfl, ho⟩ := ih () hk
            have herror : o = .error e := by
              rcases ho with ⟨-, xs, he⟩ | ⟨e', rfl, he⟩ | ⟨-, he⟩
              · cases he
              · rw [Outcome.error.inj he]
              · cases he
            exact ⟨⟨.inr x, ()⟩ :: l'', o, ⟨(), l'', rfl, hg⟩, rfl, .inr (.inl ⟨e, herror, rfl⟩)⟩
          · obtain ⟨l'', o, hg, rfl, ho⟩ := ih () hk
            have hspun : o = .spun := by
              rcases ho with ⟨-, xs, he⟩ | ⟨e, -, he⟩ | ⟨rfl, -⟩
              · cases he
              · cases he
              · rfl
            exact ⟨⟨.inr x, ()⟩ :: l'', o, ⟨(), l'', rfl, hg⟩, rfl, .inr (.inr ⟨hspun, rfl⟩)⟩

/-! ## Runs -/

/-- The environment `h`, with a log of the calls and their answers. -/
def logging (h : Handler I W) : Handler I (W × List (Entry I)) := fun w o =>
  ((h w.1 o).1, (h w.1 o).2, w.2 ++ [⟨o, (h w.1 o).1⟩])

/-- The log of a run is a trace. -/
theorem run_logging (h : Handler I W) (p : Program I σ ε α) (s : σ) (w : W) (l : List (Entry I)) :
    ∃ l', (p.run (logging h) s (w, l)).2.2.2 = l ++ l' ∧
      p.Shows s l' (p.run (logging h) s (w, l)).1 (p.run (logging h) s (w, l)).2.1 := by
  induction p generalizing s w l with
  | pure a => exact ⟨[], (List.append_nil l).symm, rfl, rfl, rfl⟩
  | raise e => exact ⟨[], (List.append_nil l).symm, rfl, rfl, rfl⟩
  | spin => exact ⟨[], (List.append_nil l).symm, rfl, rfl, rfl⟩
  | get k ih => exact ih s s w l
  | set s₁ k ih => exact ih s₁ w l
  | call o k ih =>
      obtain ⟨l', hl', hshows⟩ := ih (h w o).1 s (h w o).2 (l ++ [⟨o, (h w o).1⟩])
      rw [List.append_assoc] at hl'
      exact ⟨⟨o, (h w o).1⟩ :: l', hl', _, l', rfl, hshows⟩

end Program

end GufoBlob.Interaction
