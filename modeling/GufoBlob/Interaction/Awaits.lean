import GufoBlob.Interaction.Threads

/-!
# Tasks of an event loop

Callers that share one object and give way only where they have to wait. A task runs from one await to
the next in one step (`runUntil`), and a call that the environment does not answer yet suspends it.
A `Loop` is the configuration between two such steps, with the results of the calls in the order in
which they came. Whatever else runs in the event loop may change the world in between.

* `Loop.Reaches` — the closure over all orders of steps that are each allowed by `ok`.
* `Loop.Reaches.invariant` — what every step keeps holds in every run.
-/

namespace GufoBlob.Interaction

variable {I : Interface} {σ ε β κ ι W ω : Type}

namespace Program

/-- The rest of a program where it has to wait or has ended, and the two states there. -/
def runUntil (answer : W → (o : I.Op) → Option (I.Ans o × W)) :
    Program I σ ε β → σ → W → Program I σ ε β × σ × W
  | .pure a, s, w => (.pure a, s, w)
  | .raise e, s, w => (.raise e, s, w)
  | .spin, s, w => (.spin, s, w)
  | .get k, s, w => (k s).runUntil answer s w
  | .set s k, _, w => k.runUntil answer s w
  | .call o k, s, w =>
      match answer w o with
      | none => (.call o k, s, w)
      | some r => (k r.1).runUntil answer s r.2

section RunUntil

variable {answer : W → (o : I.Op) → Option (I.Ans o × W)} {s : σ} {w : W} {o : I.Op}
  {k : I.Ans o → Program I σ ε β}

/-- A call that is not answered suspends the program. -/
theorem runUntil_call_none (h : answer w o = none) :
    (Program.call o k).runUntil answer s w = (.call o k, s, w) := by
  rw [runUntil, h]

theorem runUntil_call_some {r : I.Ans o × W} (h : answer w o = some r) :
    (Program.call o k).runUntil answer s w = (k r.1).runUntil answer s r.2 := by
  rw [runUntil, h]

end RunUntil

/-- How a program has ended, if it has. -/
def outcome? : Program I σ ε β → Option (Outcome ε β)
  | .pure a => some (.ok a)
  | .raise e => some (.error e)
  | _ => none

theorem run_of_outcome? {V : Type} {h : Handler I V} {p : Program I σ ε β} {o : Outcome ε β}
    (ho : p.outcome? = some o) (s : σ) (v : V) : p.run h s v = (o, s, v) := by
  cases p with
  | pure a =>
      obtain rfl := Option.some.inj ho
      rfl
  | raise e =>
      obtain rfl := Option.some.inj ho
      rfl
  | spin => cases ho
  | get k => cases ho
  | set s k => cases ho
  | call o k => cases ho

end Program

/-- The calls that are suspended, the shared state, the rest of the world, and the results so far. -/
structure Loop (I : Interface) (σ ε β κ ι W : Type) where
  now : ι → Option (κ × Program I σ ε β)
  state : σ
  world : W
  log : List (ι × κ × Outcome ε β)

/-- What the event loop does next: a task makes a call or goes on with the one it is in, or something
else happens. -/
inductive Act (ι κ ω : Type) where
  | begin (i : ι) (c : κ)
  | resume (i : ι)
  | other (a : ω)

namespace Loop

/-- Nobody has made a call yet. -/
def start (s : σ) (w : W) : Loop I σ ε β κ ι W := ⟨fun _ => none, s, w, []⟩

variable [DecidableEq ι]

/-- The task `i` has come to `r` in the call `c`: it has ended, or it is suspended there. -/
def settle (L : Loop I σ ε β κ ι W) (i : ι) (c : κ) (r : Program I σ ε β × σ × W) :
    Loop I σ ε β κ ι W :=
  match r.1.outcome? with
  | some o => ⟨Function.update L.now i none, r.2.1, r.2.2, L.log ++ [(i, c, o)]⟩
  | none => ⟨Function.update L.now i (some (c, r.1)), r.2.1, r.2.2, L.log⟩

def step? (perform : κ → Program I σ ε β) (env : Shared I ι W) (interfere : ω → W → Option W)
    (L : Loop I σ ε β κ ι W) : Act ι κ ω → Option (Loop I σ ε β κ ι W)
  | .begin i c =>
      match L.now i with
      | none => some (L.settle i c ((perform c).runUntil (env i) L.state L.world))
      | some _ => none
  | .resume i => (L.now i).map fun r => L.settle i r.1 (r.2.runUntil (env i) L.state L.world)
  | .other a => (interfere a L.world).map fun w => { L with world := w }

/-- The configurations that a run can lead to when each of its steps is `ok`. -/
inductive Reaches (perform : κ → Program I σ ε β) (env : Shared I ι W)
    (interfere : ω → W → Option W) (ok : Loop I σ ε β κ ι W → Act ι κ ω → Prop)
    (start : Loop I σ ε β κ ι W) : Loop I σ ε β κ ι W → Prop where
  | refl : Reaches perform env interfere ok start start
  | step {L L'} (a : Act ι κ ω) : Reaches perform env interfere ok start L → ok L a →
      L.step? perform env interfere a = some L' → Reaches perform env interfere ok start L'

/-- The run of a list of steps, as long as they are `ok` and possible. -/
def runActs (perform : κ → Program I σ ε β) (env : Shared I ι W) (interfere : ω → W → Option W)
    (ok : Loop I σ ε β κ ι W → Act ι κ ω → Prop) [∀ L a, Decidable (ok L a)] :
    List (Act ι κ ω) → Loop I σ ε β κ ι W → Option (Loop I σ ε β κ ι W)
  | [], L => some L
  | a :: as, L =>
      if ok L a then
        (L.step? perform env interfere a).bind (runActs perform env interfere ok as)
      else none

section Runs

variable {perform : κ → Program I σ ε β} {env : Shared I ι W} {interfere : ω → W → Option W}
  {ok : Loop I σ ε β κ ι W → Act ι κ ω → Prop} {L L' : Loop I σ ε β κ ι W}

theorem Reaches.trans {M : Loop I σ ε β κ ι W} (hLM : Reaches perform env interfere ok L M)
    (hML : Reaches perform env interfere ok M L') : Reaches perform env interfere ok L L' := by
  induction hML with
  | refl => exact hLM
  | step a _ hok hstep ih => exact .step a ih hok hstep

theorem reaches_of_runActs [∀ L a, Decidable (ok L a)] (as : List (Act ι κ ω))
    (h : runActs perform env interfere ok as L = some L') :
    Reaches perform env interfere ok L L' := by
  induction as generalizing L with
  | nil =>
      obtain rfl : L = L' := Option.some.inj h
      exact .refl
  | cons a as ih =>
      rw [runActs] at h
      split at h
      · next hok =>
          obtain ⟨M, hstep, hrest⟩ := Option.bind_eq_some_iff.mp h
          exact .trans (.step a .refl hok hstep) (ih hrest)
      · cases h

/-- What holds at the start and is kept by every step holds in every run. -/
theorem Reaches.invariant {J : Loop I σ ε β κ ι W → Prop} (hstart : J L)
    (hkeep : ∀ M a M', J M → ok M a → M.step? perform env interfere a = some M' → J M')
    (h : Reaches perform env interfere ok L L') : J L' := by
  induction h with
  | refl => exact hstart
  | step a _ hok hstep ih => exact hkeep _ a _ ih hok hstep

end Runs

/-- A task that is suspended again where it was. -/
theorem settle_self {L : Loop I σ ε β κ ι W} {i : ι} {c : κ} {p : Program I σ ε β}
    (hnow : L.now i = some (c, p)) (hp : p.outcome? = none) :
    L.settle i c (p, L.state, L.world) = L := by
  unfold settle
  rw [hp]
  show (⟨Function.update L.now i (some (c, p)), L.state, L.world, L.log⟩ : Loop I σ ε β κ ι W) = L
  rw [← hnow, Function.update_eq_self]

end Loop

end GufoBlob.Interaction
