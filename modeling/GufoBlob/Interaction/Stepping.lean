import GufoBlob.Interaction.Runs
import GufoBlob.Interaction.Suspended

/-!
# Iterations in steps

A caller that requests one element at a time may make other calls before each request. `interleave`
is the run of such a caller: the elements it gets, with `none` for the end of the iteration.

An iteration that only hands out what it has taken at its first step (`Snapshot`) is not affected by
the calls, and does not affect them (`interleave_snapshot`).
-/

namespace GufoBlob.Interaction

namespace Program

variable {I : Interface} {σ ε α β W κ δ ι : Type}

/-- `next(generator)`, and the generator after it. One that has ended stays at its end. -/
def resume (g : Gen I σ ε δ Unit) : Program I σ ε (Option δ × Gen I σ ε δ Unit) :=
  g.next.bind fun r => match r with
    | some (x, rest) => .pure (some x, rest)
    | none => .pure (none, .pure ())

/-- Before each step of an iteration the caller makes some calls; a step that raises is the last
one. -/
def interleave (h : Handler I W) (perform : κ → Program I σ ε β)
    (step : ι → Program I σ ε (Option δ × ι)) :
    List (List κ) → ι → σ → W → List (Outcome ε (Option δ)) × σ × W
  | [], _, s, w => ([], s, w)
  | cs :: css, it, s, w =>
      let before := (runCalls h perform cs s w).2
      match (step it).run h before.1 before.2 with
      | (.ok (x, it'), s', w') =>
          let rest := interleave h perform step css it' s' w'
          (.ok x :: rest.1, rest.2)
      | (.error e, s', w') => ([.error e], s', w')
      | (.spun, s', w') => ([.spun], s', w')

/-- Where the calls alone lead. -/
def afterCalls (h : Handler I W) (perform : κ → Program I σ ε β) (css : List (List κ)) (s : σ)
    (w : W) : σ × W :=
  css.foldl (fun sw cs => (runCalls h perform cs sw.1 sw.2).2) (s, w)

/-- The iteration takes the list `view` at its first step, and hands it out from then on: `At it l`
says that `l` is what is left. -/
structure Snapshot (h : Handler I W) (step : ι → Program I σ ε (Option δ × ι)) (start : ι)
    (view : σ → List δ) where
  At : ι → List δ → Prop
  first : ∀ s w, ∃ it, (step start).run h s w = (.ok ((view s).head?, it), s, w) ∧
    At it (view s).tail
  later : ∀ it l s w, At it l → ∃ it', (step it).run h s w = (.ok (l.head?, it'), s, w) ∧
    At it' l.tail

section Snapshot

variable {h : Handler I W} {step : ι → Program I σ ε (Option δ × ι)} {start : ι}
  {view : σ → List δ}

theorem interleave_cons {perform : κ → Program I σ ε β} {cs : List κ} {it it' : ι} {x : Option δ}
    {s : σ} {w : W} {sw : σ × W} (hsw : (runCalls h perform cs s w).2 = sw)
    (hstep : (step it).run h sw.1 sw.2 = (.ok (x, it'), sw.1, sw.2)) (css : List (List κ)) :
    interleave h perform step (cs :: css) it s w =
      (.ok x :: (interleave h perform step css it' sw.1 sw.2).1,
        (interleave h perform step css it' sw.1 sw.2).2) := by
  rw [interleave, hsw]
  simp only [hstep]

/-- The elements at the positions from the first on. -/
theorem map_range_cons (l : List δ) (n : Nat) :
    ((List.range (n + 1)).map fun i => (Outcome.ok l[i]? : Outcome ε (Option δ))) =
      .ok l.head? :: (List.range n).map fun i => .ok l.tail[i]? := by
  rw [List.range_succ_eq_map, List.map_cons, List.map_map]
  cases l with
  | nil => simp [Function.comp_def]
  | cons x l => simp [Function.comp_def]

/-- What is left is handed out, one element for each step, and then nothing. -/
theorem interleave_later (S : Snapshot h step start view) (perform : κ → Program I σ ε β)
    (css : List (List κ)) {it : ι} {l : List δ} (hat : S.At it l) (s : σ) (w : W) :
    interleave h perform step css it s w =
      ((List.range css.length).map fun i => .ok l[i]?, afterCalls h perform css s w) := by
  induction css generalizing it l s w with
  | nil => rfl
  | cons cs css ih =>
      obtain ⟨it', hstep, hat'⟩ := S.later it l (runCalls h perform cs s w).2.1
        (runCalls h perform cs s w).2.2 hat
      rw [interleave_cons rfl hstep, ih hat', List.length_cons, map_range_cons]
      rfl

/-- **An iteration over a snapshot**: whatever calls are made before the first step and between the
steps, the steps give the list of the state in which the first one is made, element after element,
and then its end; the calls lead to where they lead without the iteration. -/
theorem interleave_snapshot (S : Snapshot h step start view) (perform : κ → Program I σ ε β)
    (cs : List κ) (css : List (List κ)) (s : σ) (w : W) :
    interleave h perform step (cs :: css) start s w =
      ((List.range (css.length + 1)).map fun i => .ok (view (runCalls h perform cs s w).2.1)[i]?,
        afterCalls h perform (cs :: css) s w) := by
  obtain ⟨it, hstep, hat⟩ := S.first (runCalls h perform cs s w).2.1 (runCalls h perform cs s w).2.2
  rw [interleave_cons rfl hstep, interleave_later S perform css hat, map_range_cons]
  rfl

end Snapshot

/-! ## Generators that yield a list -/

theorem next_embed_bind (p : Program I σ ε α) (f : α → Gen I σ ε δ Unit) :
    (p.embed.bind f).next = p.bind fun a => (f a).next := by
  induction p with
  | pure a => rfl
  | raise e => rfl
  | spin => rfl
  | get k ih => exact congrArg _ (funext ih)
  | set s k ih => exact congrArg _ ih
  | call o k ih => exact congrArg _ (funext ih)

theorem resume_embed_bind (p : Program I σ ε α) (f : α → Gen I σ ε δ Unit) :
    resume (p.embed.bind f) = p.bind fun a => resume (f a) := by
  unfold resume
  rw [next_embed_bind, bind_assoc']

theorem resume_yieldAll (l : List δ) :
    resume (yieldAll l : Gen I σ ε δ Unit) = .pure (l.head?, yieldAll l.tail) := by
  cases l <;> rfl

/-- A generator that takes a list, which changes nothing, and yields it. -/
def snapshotYieldAll {h : Handler I W} {p : Program I σ ε (List δ)} {view : σ → List δ}
    (hp : ∀ s w, p.run h s w = (.ok (view s), s, w)) :
    Snapshot h resume (p.embed.bind yieldAll) view where
  At g l := g = yieldAll l
  first s w := by
    refine ⟨yieldAll (view s).tail, ?_, rfl⟩
    have hrun : wp h (p.bind fun l => resume (yieldAll l))
        (fun o s' w' => (o, s', w') = (.ok ((view s).head?, yieldAll (view s).tail), s, w)) s w := by
      rw [wp_bind, wp, hp, bindPost_ok, resume_yieldAll]
      rfl
    rw [resume_embed_bind]
    exact hrun
  later g l s w hg := by
    refine ⟨yieldAll l.tail, ?_, rfl⟩
    rw [hg, resume_yieldAll]
    rfl

end Program

end GufoBlob.Interaction
