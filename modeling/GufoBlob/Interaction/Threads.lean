import GufoBlob.Interaction.Program
import Mathlib.Logic.Function.Basic
import Mathlib.Data.List.Basic

/-!
# Threads

Callers that share one object. Each of them makes a list of calls, one after the other; a call is a
`Program`, and every node of it — a read or a write of the shared state, a call of the
environment — is one atomic step. A `Config` is the configuration between two steps, `step?` the
step of one caller (`none` when it is blocked or has finished), and `Reaches` the closure over all
schedules whose steps are all allowed by `ok`.

The rule for such runs is rely-guarantee. A `Discipline` says what the steps of one caller do to the
shared state (`guarantee`) and what it may therefore rely on between two of its own steps (`rely`).
`Keeps` is the weakest precondition of a program under that interference, and `Reaches.invariant`
the adequacy theorem: when every call, started in an idle state, keeps the discipline, the results
recorded in any reachable configuration satisfy their postconditions.
-/

namespace GufoBlob.Interaction

variable {I : Interface} {σ ε β κ ι W : Type}

/-- An environment with blocking calls: the answer to the call `o` of the caller `i`, if it does not
have to wait. -/
abbrev Shared (I : Interface) (ι W : Type) := ι → W → (o : I.Op) → Option (I.Ans o × W)

/-- A caller: the calls it has still to make, the one it is in, and those that have ended. -/
structure Thread (I : Interface) (σ ε β κ : Type) where
  todo : List κ
  now : Option (κ × Program I σ ε β) := none
  done : List (κ × Outcome ε β) := []

namespace Thread

/-- One step of a caller with the number `i`. A loop that never ends makes no further step. -/
def step? (perform : κ → Program I σ ε β) (env : Shared I ι W) (i : ι) (t : Thread I σ ε β κ)
    (s : σ) (w : W) : Option (Thread I σ ε β κ × σ × W) :=
  match t.now with
  | none =>
      match t.todo with
      | [] => none
      | c :: cs => some ({ t with todo := cs, now := some (c, perform c) }, s, w)
  | some (c, .pure a) => some ({ t with now := none, done := t.done ++ [(c, .ok a)] }, s, w)
  | some (c, .raise e) => some ({ t with now := none, done := t.done ++ [(c, .error e)] }, s, w)
  | some (_, .spin) => none
  | some (c, .get k) => some ({ t with now := some (c, k s) }, s, w)
  | some (c, .set s' k) => some ({ t with now := some (c, k) }, s', w)
  | some (c, .call o k) => (env i w o).map fun r => ({ t with now := some (c, k r.1) }, s, r.2)

/-- The next step reads the shared state. -/
def reads (t : Thread I σ ε β κ) : Bool :=
  match t.now with
  | some (_, .get _) => true
  | _ => false

end Thread

/-- All callers, and the two parts of the shared state. -/
structure Config (I : Interface) (σ ε β κ ι W : Type) where
  threads : ι → Thread I σ ε β κ
  state : σ
  world : W

namespace Config

variable [DecidableEq ι]

/-- Nobody has made a call yet; the caller `i` will make the calls `todo i`. -/
def start (todo : ι → List κ) (s : σ) (w : W) : Config I σ ε β κ ι W :=
  ⟨fun i => ⟨todo i, none, []⟩, s, w⟩

/-- One step of the caller `i`. -/
def step? (perform : κ → Program I σ ε β) (env : Shared I ι W) (cfg : Config I σ ε β κ ι W) (i : ι) :
    Option (Config I σ ε β κ ι W) :=
  ((cfg.threads i).step? perform env i cfg.state cfg.world).map fun r =>
    ⟨Function.update cfg.threads i r.1, r.2.1, r.2.2⟩

/-- The configurations that a schedule can lead to when each of its steps is `ok`. -/
inductive Reaches (perform : κ → Program I σ ε β) (env : Shared I ι W)
    (ok : Config I σ ε β κ ι W → ι → Prop) (start : Config I σ ε β κ ι W) :
    Config I σ ε β κ ι W → Prop where
  | refl : Reaches perform env ok start start
  | step {cfg cfg'} (i : ι) : Reaches perform env ok start cfg → ok cfg i →
      cfg.step? perform env i = some cfg' → Reaches perform env ok start cfg'

/-- The run of a schedule, as long as its steps are `ok` and nobody is blocked. -/
def runSchedule (perform : κ → Program I σ ε β) (env : Shared I ι W)
    (ok : Config I σ ε β κ ι W → ι → Prop) [∀ cfg i, Decidable (ok cfg i)] :
    List ι → Config I σ ε β κ ι W → Option (Config I σ ε β κ ι W)
  | [], cfg => some cfg
  | i :: is, cfg =>
      if ok cfg i then (cfg.step? perform env i).bind (runSchedule perform env ok is) else none

theorem reaches_trans {perform : κ → Program I σ ε β} {env : Shared I ι W}
    {ok : Config I σ ε β κ ι W → ι → Prop} {a b c : Config I σ ε β κ ι W}
    (hab : Reaches perform env ok a b) (hbc : Reaches perform env ok b c) :
    Reaches perform env ok a c := by
  induction hbc with
  | refl => exact hab
  | step i _ hok hstep ih => exact .step i ih hok hstep

theorem reaches_of_runSchedule {perform : κ → Program I σ ε β} {env : Shared I ι W}
    {ok : Config I σ ε β κ ι W → ι → Prop} [∀ cfg i, Decidable (ok cfg i)] (is : List ι)
    {cfg cfg' : Config I σ ε β κ ι W} (h : runSchedule perform env ok is cfg = some cfg') :
    Reaches perform env ok cfg cfg' := by
  induction is generalizing cfg with
  | nil =>
      obtain rfl : cfg = cfg' := Option.some.inj h
      exact .refl
  | cons i is ih =>
      rw [runSchedule] at h
      split at h
      · next hok =>
          obtain ⟨mid, hstep, hrest⟩ := Option.bind_eq_some_iff.mp h
          exact reaches_trans (.step i .refl hok hstep) (ih hrest)
      · cases h

end Config

/-! ## Rely-guarantee -/

/-- What the steps of each caller may do to the shared state, and what a caller can rely on while
the others make theirs. -/
structure Discipline (ι σ W : Type) where
  rely : ι → σ × W → σ × W → Prop
  guarantee : ι → σ × W → σ × W → Prop
  rely_refl : ∀ i x, rely i x x
  rely_trans : ∀ i x y z, rely i x y → rely i y z → rely i x z
  guarantee_refl : ∀ i x, guarantee i x x
  rely_of_guarantee : ∀ i j x y, i ≠ j → guarantee i x y → rely j x y

namespace Discipline

section Keeps

variable (D : Discipline ι σ W) (env : Shared I ι W) (i : ι) (A : σ × W → Prop)

/-- From the shared state `x`, every step of `p` is one that the caller `i` guarantees, and the
outcome satisfies `Q`, whatever the others do in between within `D`. A read may assume `A`. -/
def Keeps {α : Type} : Program I σ ε α → (Outcome ε α → σ × W → Prop) → σ × W → Prop
  | .pure a, Q, x => ∀ y, D.rely i x y → Q (.ok a) y
  | .raise e, Q, x => ∀ y, D.rely i x y → Q (.error e) y
  | .spin, _, _ => True
  | .get k, Q, x => ∀ y, D.rely i x y → A y → Keeps (k y.1) Q y
  | .set s k, Q, x => ∀ y, D.rely i x y → D.guarantee i y (s, y.2) ∧ Keeps k Q (s, y.2)
  | .call o k, Q, x => ∀ y, D.rely i x y → ∀ r, env i y.2 o = some r →
      D.guarantee i y (y.1, r.2) ∧ Keeps (k r.1) Q (y.1, r.2)

variable {D env i A} {α γ : Type}

/-- What the others do before the first step is already accounted for. -/
theorem keeps_of_rely {p : Program I σ ε α} {Q : Outcome ε α → σ × W → Prop} {x y : σ × W}
    (hp : D.Keeps env i A p Q x) (hxy : D.rely i x y) : D.Keeps env i A p Q y := by
  cases p with
  | pure a => exact fun z hz => hp z (D.rely_trans i x y z hxy hz)
  | raise e => exact fun z hz => hp z (D.rely_trans i x y z hxy hz)
  | spin => trivial
  | get k => exact fun z hz => hp z (D.rely_trans i x y z hxy hz)
  | set s k => exact fun z hz => hp z (D.rely_trans i x y z hxy hz)
  | call o k => exact fun z hz => hp z (D.rely_trans i x y z hxy hz)

theorem keeps_mono {p : Program I σ ε α} {Q R : Outcome ε α → σ × W → Prop} {x : σ × W}
    (hp : D.Keeps env i A p Q x) (hQ : ∀ o y, Q o y → R o y) : D.Keeps env i A p R x := by
  induction p generalizing x with
  | pure a => exact fun y hy => hQ _ y (hp y hy)
  | raise e => exact fun y hy => hQ _ y (hp y hy)
  | spin => trivial
  | get k ih => exact fun y hy hA => ih _ (hp y hy hA)
  | set s k ih => exact fun y hy => ⟨(hp y hy).1, ih (hp y hy).2⟩
  | call o k ih => exact fun y hy r hr => ⟨(hp y hy r hr).1, ih _ (hp y hy r hr).2⟩

theorem keeps_bind {p : Program I σ ε α} {f : α → Program I σ ε γ}
    {Q : Outcome ε γ → σ × W → Prop} {x : σ × W}
    (hp : D.Keeps env i A p (fun o y => match o with
      | .ok a => D.Keeps env i A (f a) Q y
      | .error e => Q (.error e) y
      | .spun => True) x) : D.Keeps env i A (p.bind f) Q x := by
  induction p generalizing x with
  | pure a => exact hp x (D.rely_refl i x)
  | raise e => exact hp
  | spin => trivial
  | get k ih => exact fun y hy hA => ih _ (hp y hy hA)
  | set s k ih => exact fun y hy => ⟨(hp y hy).1, ih (hp y hy).2⟩
  | call o k ih => exact fun y hy r hr => ⟨(hp y hy r hr).1, ih _ (hp y hy r hr).2⟩

theorem keeps_tryFinally {p : Program I σ ε α} {f : Program I σ ε Unit}
    {Q : Outcome ε α → σ × W → Prop} {x : σ × W}
    (hp : D.Keeps env i A p (fun o y => match o with
      | .ok a => D.Keeps env i A (f.bind fun _ => .pure a) Q y
      | .error e => D.Keeps env i A (f.bind fun _ => .raise e) Q y
      | .spun => True) x) : D.Keeps env i A (p.tryFinally f) Q x := by
  induction p generalizing x with
  | pure a => exact hp x (D.rely_refl i x)
  | raise e => exact hp x (D.rely_refl i x)
  | spin => trivial
  | get k ih => exact fun y hy hA => ih _ (hp y hy hA)
  | set s k ih => exact fun y hy => ⟨(hp y hy).1, ih (hp y hy).2⟩
  | call o k ih => exact fun y hy r hr => ⟨(hp y hy r hr).1, ih _ (hp y hy r hr).2⟩

end Keeps

/-- A proof that every call keeps `D`: what holds for a caller between two calls (`Idle`), what its
reads may assume (`A`), and what the outcome of a call says for good (`Post`). -/
structure Kept (D : Discipline ι σ W) (env : Shared I ι W) (perform : κ → Program I σ ε β)
    (A Idle : ι → σ × W → Prop) (Post : κ → Outcome ε β → σ × W → Prop) : Prop where
  idle_rely : ∀ i x y, Idle i x → D.rely i x y → Idle i y
  post_guarantee : ∀ i c o x y, D.guarantee i x y → Post c o x → Post c o y
  perform_keeps : ∀ i c x, Idle i x →
    D.Keeps env i (A i) (perform c) (fun o y => Idle i y ∧ Post c o y) x

variable {D : Discipline ι σ W} {env : Shared I ι W} {perform : κ → Program I σ ε β}
  {A Idle : ι → σ × W → Prop} {Post : κ → Outcome ε β → σ × W → Prop}

/-- Where a caller is, as far as the rule is concerned. -/
def ThreadInv (D : Discipline ι σ W) (env : Shared I ι W) (A Idle : ι → σ × W → Prop)
    (Post : κ → Outcome ε β → σ × W → Prop) (i : ι) (t : Thread I σ ε β κ) (x : σ × W) : Prop :=
  (match t.now with
    | none => Idle i x
    | some (c, p) => D.Keeps env i (A i) p (fun o y => Idle i y ∧ Post c o y) x) ∧
    ∀ r ∈ t.done, Post r.1 r.2 x

theorem ThreadInv.of_rely (hk : D.Kept env perform A Idle Post) {i j : ι} (hij : i ≠ j)
    {t : Thread I σ ε β κ} {x y : σ × W} (ht : D.ThreadInv env A Idle Post j t x)
    (hxy : D.guarantee i x y) : D.ThreadInv env A Idle Post j t y := by
  have hrely := D.rely_of_guarantee i j x y hij hxy
  refine ⟨?_, fun r hr => hk.post_guarantee i r.1 r.2 x y hxy (ht.2 r hr)⟩
  have hnow := ht.1
  split at hnow
  · exact hk.idle_rely j x y hnow hrely
  · exact keeps_of_rely hnow hrely

/-- One step of a caller keeps its own invariant and is one that it guarantees. -/
theorem ThreadInv.step (hk : D.Kept env perform A Idle Post) {i : ι} {t t' : Thread I σ ε β κ}
    {s s' : σ} {w w' : W} (ht : D.ThreadInv env A Idle Post i t (s, w))
    (hA : t.reads = true → A i (s, w)) (hstep : t.step? perform env i s w = some (t', s', w')) :
    D.guarantee i (s, w) (s', w') ∧ D.ThreadInv env A Idle Post i t' (s', w') := by
  obtain ⟨todo, now, done⟩ := t
  obtain ⟨hnow, hdone⟩ := ht
  have hrefl := D.rely_refl i (s, w)
  have hsame := D.guarantee_refl i (s, w)
  match now with
  | none =>
      match todo with
      | [] => cases hstep
      | c :: cs =>
          obtain ⟨rfl, rfl, rfl⟩ : _ = t' ∧ s = s' ∧ w = w' := by
            simpa [Thread.step?] using hstep
          exact ⟨hsame, hk.perform_keeps i c (s, w) hnow, hdone⟩
  | some (c, .pure a) =>
      obtain ⟨rfl, rfl, rfl⟩ : _ = t' ∧ s = s' ∧ w = w' := by simpa [Thread.step?] using hstep
      have hend := hnow (s, w) hrefl
      refine ⟨hsame, hend.1, fun r hr => ?_⟩
      rcases List.mem_append.mp hr with hr | hr
      · exact hdone r hr
      · obtain rfl := List.mem_singleton.mp hr
        exact hend.2
  | some (c, .raise e) =>
      obtain ⟨rfl, rfl, rfl⟩ : _ = t' ∧ s = s' ∧ w = w' := by simpa [Thread.step?] using hstep
      have hend := hnow (s, w) hrefl
      refine ⟨hsame, hend.1, fun r hr => ?_⟩
      rcases List.mem_append.mp hr with hr | hr
      · exact hdone r hr
      · obtain rfl := List.mem_singleton.mp hr
        exact hend.2
  | some (c, .spin) => cases hstep
  | some (c, .get k) =>
      obtain ⟨rfl, rfl, rfl⟩ : _ = t' ∧ s = s' ∧ w = w' := by simpa [Thread.step?] using hstep
      exact ⟨hsame, hnow (s, w) hrefl (hA rfl), hdone⟩
  | some (c, .set s₁ k) =>
      obtain ⟨rfl, rfl, rfl⟩ : _ = t' ∧ s₁ = s' ∧ w = w' := by simpa [Thread.step?] using hstep
      obtain ⟨hg, hrest⟩ := hnow (s, w) hrefl
      exact ⟨hg, hrest, fun r hr => hk.post_guarantee i _ _ _ _ hg (hdone r hr)⟩
  | some (c, .call o k) =>
      obtain ⟨r, hr, heq⟩ := Option.map_eq_some_iff.mp hstep
      obtain ⟨rfl, rfl, rfl⟩ : _ = t' ∧ s = s' ∧ r.2 = w' := by simpa using heq
      obtain ⟨hg, hrest⟩ := hnow (s, w) hrefl r hr
      exact ⟨hg, hrest, fun r' hr' => hk.post_guarantee i _ _ _ _ hg (hdone r' hr')⟩

variable [DecidableEq ι]

/-- In every configuration that a run reaches, each caller satisfies its invariant, and so does
the shared state when every guaranteed step preserves it. -/
theorem reaches_invariant (hk : D.Kept env perform A Idle Post)
    {ok : Config I σ ε β κ ι W → ι → Prop}
    (hok : ∀ cfg i, ok cfg i → (cfg.threads i).reads = true → A i (cfg.state, cfg.world))
    {J : σ × W → Prop} (hJ : ∀ i x y, D.guarantee i x y → J x → J y)
    {todo : ι → List κ} {s : σ} {w : W} (hidle : ∀ i, Idle i (s, w)) (hinit : J (s, w))
    {cfg : Config I σ ε β κ ι W} (hr : Config.Reaches perform env ok (.start todo s w) cfg) :
    (∀ i, D.ThreadInv env A Idle Post i (cfg.threads i) (cfg.state, cfg.world)) ∧
      J (cfg.state, cfg.world) := by
  induction hr with
  | refl => exact ⟨fun i => ⟨hidle i, fun r hr => nomatch hr⟩, hinit⟩
  | step i _ hallowed hstep ih =>
      obtain ⟨hthreads, hshared⟩ := ih
      obtain ⟨⟨t', s', w'⟩, hthread, rfl⟩ := Option.map_eq_some_iff.mp hstep
      obtain ⟨hg, hown⟩ := (hthreads i).step hk (hok _ i hallowed) hthread
      refine ⟨fun j => ?_, hJ i _ _ hg hshared⟩
      by_cases hij : i = j
      · subst hij
        simpa using hown
      · have hother := (hthreads j).of_rely hk hij hg
        simpa [Function.update_of_ne (Ne.symm hij)] using hother

end Discipline

end GufoBlob.Interaction
