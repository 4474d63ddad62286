import GufoBlob.Interaction.Program

/-!
# Generators

A Python generator is a program with one more call, `yield`, whose answer is the resumption. What a
consumer does with the yielded values is an interpretation of that call: `collect` is
`list(generator)`, and `anyYield p` is `any(p(x) for x in generator)`, which drops the generator at
the first hit. `run_collect` lets the rules for programs be used on a generator: its run with a
consumer that keeps everything (`collecting`) is the run of its list.
-/

namespace GufoBlob.Interaction

/-- The calls of `I` and the yields of a generator of `κ`. -/
def Interface.yielding (I : Interface) (κ : Type) : Interface where
  Op := I.Op ⊕ κ
  Ans := Sum.elim I.Ans fun _ => Unit

/-- Code inside a generator of `κ`. -/
abbrev Gen (I : Interface) (σ ε κ : Type) := Program (I.yielding κ) σ ε

namespace Program

variable {I : Interface} {σ ε α κ W : Type}

/-- `yield x`. -/
def yield (x : κ) : Gen I σ ε κ Unit := .call (.inr x) fun _ => .pure ()

/-- Code inside a generator that yields nothing. -/
def embed : Program I σ ε α → Gen I σ ε κ α
  | .pure a => .pure a
  | .raise e => .raise e
  | .spin => .spin
  | .get k => .get fun s => (k s).embed
  | .set s k => .set s k.embed
  | .call o k => .call (.inl o) fun r => (k r).embed

/-- `list(generator)`. -/
def collect : Gen I σ ε κ Unit → Program I σ ε (List κ)
  | .pure _ => .pure []
  | .raise e => .raise e
  | .spin => .spin
  | .get k => .get fun s => (k s).collect
  | .set s k => .set s k.collect
  | .call (.inl o) k => .call o fun r => (k r).collect
  | .call (.inr x) k => (k ()).collect.bind fun xs => .pure (x :: xs)

/-- `any(p(x) for x in generator)`. -/
def anyYield (p : κ → Bool) : Gen I σ ε κ Unit → Program I σ ε Bool
  | .pure _ => .pure false
  | .raise e => .raise e
  | .spin => .spin
  | .get k => .get fun s => (k s).anyYield p
  | .set s k => .set s (k.anyYield p)
  | .call (.inl o) k => .call o fun r => (k r).anyYield p
  | .call (.inr x) k => if p x then .pure true else (k ()).anyYield p

theorem collect_embed_bind (p : Program I σ ε α) (f : α → Gen I σ ε κ Unit) :
    (p.embed.bind f).collect = p.bind fun a => (f a).collect := by
  induction p with
  | pure a => rfl
  | raise e => rfl
  | spin => rfl
  | get k ih => exact congrArg _ (funext ih)
  | set s k ih => exact congrArg _ ih
  | call o k ih => exact congrArg _ (funext ih)

theorem anyYield_embed_bind (q : κ → Bool) (p : Program I σ ε α) (f : α → Gen I σ ε κ Unit) :
    (p.embed.bind f).anyYield q = p.bind fun a => (f a).anyYield q := by
  induction p with
  | pure a => rfl
  | raise e => rfl
  | spin => rfl
  | get k ih => exact congrArg _ (funext ih)
  | set s k ih => exact congrArg _ ih
  | call o k ih => exact congrArg _ (funext ih)

/-- Two generators in sequence collect to the concatenation. -/
theorem collect_bind (p q : Gen I σ ε κ Unit) :
    (p.bind fun _ => q).collect =
      p.collect.bind fun xs => q.collect.bind fun ys => .pure (xs ++ ys) := by
  induction p with
  | pure a => exact (bind_pure' q.collect).symm
  | raise e => rfl
  | spin => rfl
  | get k ih => exact congrArg _ (funext ih)
  | set s k ih => exact congrArg _ ih
  | call o k ih =>
      cases o with
      | inl o => exact congrArg _ (funext ih)
      | inr x =>
          show ((k ()).bind fun _ => q).collect.bind _ = ((k ()).collect.bind _).bind _
          rw [ih (), bind_assoc', bind_assoc']
          congr 1
          funext xs
          rw [bind_assoc', pure_bind']
          rfl

/-- Yielding the elements of a list. -/
def yieldAll (l : List κ) : Gen I σ ε κ Unit := forEach l yield

theorem collect_yieldAll (l : List κ) :
    (yieldAll l : Gen I σ ε κ Unit).collect = .pure l := by
  induction l with
  | nil => rfl
  | cons x xs ih =>
      show (yieldAll xs : Gen I σ ε κ Unit).collect.bind _ = _
      rw [ih]
      rfl

/-- `list(x for x in l if p(x))`. -/
theorem collect_forEach_if (p : κ → Bool) (l : List κ) :
    (forEach l fun x => if p x then yield x else .pure () : Gen I σ ε κ Unit).collect =
      .pure (l.filter p) := by
  induction l with
  | nil => rfl
  | cons x xs ih =>
      rw [forEach, collect_bind, ih]
      cases hx : p x with
      | true =>
          rw [List.filter_cons_of_pos hx]
          rfl
      | false =>
          rw [List.filter_cons_of_neg (by simp [hx])]
          rfl

/-! ## Running a generator -/

/-- The environment of a consumer that keeps what is yielded. -/
def collecting (h : Handler I W) : Handler (I.yielding κ) (W × List κ)
  | w, .inl o => ((h w.1 o).1, (h w.1 o).2, w.2)
  | w, .inr x => ((), w.1, w.2 ++ [x])

/-- The end of `list(generator)`: the list is there only when the generator returned. -/
def collected {δ : Type} (xs : List κ) : Outcome ε δ × σ × W × List κ → Outcome ε (List κ) × σ × W
  | (.ok _, s, w, ys) => (.ok (xs ++ ys), s, w)
  | (.error e, s, w, _) => (.error e, s, w)
  | (.spun, s, w, _) => (.spun, s, w)

/-- What was yielded before stays in front. -/
theorem run_collecting (h : Handler I W) (g : Gen I σ ε κ α) (s : σ) (w : W) (xs : List κ) :
    g.run (collecting h) s (w, xs) =
      ((g.run (collecting h) s (w, [])).1, (g.run (collecting h) s (w, [])).2.1,
        (g.run (collecting h) s (w, [])).2.2.1, xs ++ (g.run (collecting h) s (w, [])).2.2.2) := by
  induction g generalizing s w xs with
  | pure a => simp [run]
  | raise e => simp [run]
  | spin => simp [run]
  | get k ih => exact ih s s w xs
  | set s' k ih => exact ih s' w xs
  | call o k ih =>
      cases o with
      | inl o => exact ih _ s _ xs
      | inr x =>
          have hleft := ih () s w (xs ++ [x])
          have hright := ih () s w ([] ++ [x])
          show (k ()).run (collecting h) s (w, xs ++ [x]) = _
          rw [hleft]
          show _ = (((k ()).run (collecting h) s (w, [] ++ [x])).1, _, _, xs ++ _)
          rw [show Program.run (collecting h) (.call (.inr x) k) s (w, []) =
            (k ()).run (collecting h) s (w, [] ++ [x]) from rfl, hright]
          simp

theorem run_collect_yield (h : Handler I W) {g : Gen I σ ε κ Unit} {s : σ} {w : W} (x : κ)
    (hg : g.collect.run h s w = collected [] (g.run (collecting h) s (w, []))) :
    (g.collect.bind fun xs => .pure (x :: xs)).run h s w =
      collected [] (g.run (collecting h) s (w, [x])) := by
  show wp h (g.collect.bind fun xs => .pure (x :: xs))
    (fun o s' w' => (o, s', w') = collected [] (g.run (collecting h) s (w, [x]))) s w
  rw [wp_bind, wp, hg, run_collecting h g s w [x]]
  rcases g.run (collecting h) s (w, []) with ⟨o, s', w', ys⟩
  cases o <;> rfl

/-- `list(generator)` is the run of the generator with a consumer that keeps everything. -/
theorem run_collect (h : Handler I W) (g : Gen I σ ε κ Unit) (s : σ) (w : W) :
    g.collect.run h s w = collected [] (g.run (collecting h) s (w, [])) := by
  induction g generalizing s w with
  | pure a => rfl
  | raise e => rfl
  | spin => rfl
  | get k ih => exact ih s s w
  | set s' k ih => exact ih s' w
  | call o k ih =>
      cases o with
      | inl o => exact ih _ s _
      | inr x => exact run_collect_yield h x (ih () s w)

/-- The condition for a list is the condition for its generator, run with that consumer. -/
theorem wp_collect (h : Handler I W) (g : Gen I σ ε κ Unit) (Q : Outcome ε (List κ) → σ → W → Prop)
    (s : σ) (w : W) :
    wp h g.collect Q s w ↔ wp (collecting h) g (fun o s w => match o with
      | .ok _ => Q (.ok w.2) s w.1
      | .error e => Q (.error e) s w.1
      | .spun => Q .spun s w.1) s (w, []) := by
  unfold wp
  rw [run_collect]
  rcases g.run (collecting h) s (w, []) with ⟨o, s', w', xs⟩
  cases o <;> rfl

@[simp] theorem wp_embed (h : Handler I W) (p : Program I σ ε α)
    (Q : Outcome ε α → σ → W × List κ → Prop) (s : σ) (w : W × List κ) :
    wp (collecting h) p.embed Q s w ↔ wp h p (fun o s' w' => Q o s' (w', w.2)) s w.1 := by
  induction p generalizing s w with
  | pure a => rfl
  | raise e => rfl
  | spin => rfl
  | get k ih => exact ih s s w
  | set s' k ih => exact ih s' w
  | call o k ih => exact ih _ s _

@[simp] theorem wp_yield (h : Handler I W) (x : κ) (Q : Outcome ε Unit → σ → W × List κ → Prop)
    (s : σ) (w : W × List κ) :
    wp (collecting h) (yield x) Q s w ↔ Q (.ok ()) s (w.1, w.2 ++ [x]) := Iff.rfl

/-- Yielding one value for each element of a list. -/
theorem wp_forEach_yield {δ : Type} (h : Handler I W) (f : δ → κ) (l : List δ)
    (Q : Outcome ε Unit → σ → W × List κ → Prop) (s : σ) (w : W) (xs : List κ) :
    wp (collecting h) (forEach l fun x => yield (f x)) Q s (w, xs) ↔
      Q (.ok ()) s (w, xs ++ l.map f) := by
  induction l generalizing xs with
  | nil => simp [forEach]
  | cons x l ih =>
      rw [forEach, wp_bind, wp_yield, bindPost_ok, ih]
      simp

end Program

end GufoBlob.Interaction
