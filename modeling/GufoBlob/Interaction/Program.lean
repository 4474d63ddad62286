import Mathlib.Logic.Basic
import Mathlib.Control.Basic

/-!
# Interaction programs

A program that reads and writes a state of type `σ`, calls its environment, and ends by returning
a value or by raising an exception. What the environment answers is not part of the program: a
program is a tree that branches on every answer, and a `Handler` picks the branch that is taken.

* `Program` — the trees, with `bind`, `tryCatch` and `tryFinally` as Python has them.
* `run` — the outcome under one handler. A loop that used up its fuel ends in `Outcome.spun`, which
  is an outcome of its own: no rule below treats it as a return.
* `wp` — the weakest precondition of a program, and one rule for every constructor and combinator,
  so that a proof about a program follows its text.
* `Uses` — a property of every call a program can make, whatever the answers are.
-/

namespace GufoBlob.Interaction

/-- The calls a program may make, and the type of the answer to each. -/
structure Interface where
  Op : Type
  Ans : Op → Type

/-- Programs over the calls of `I`, with state `σ`, exceptions `ε` and result `α`. -/
inductive Program (I : Interface) (σ ε α : Type) where
  | pure (a : α)
  | raise (e : ε)
  /-- A loop that was still going when its fuel ran out. -/
  | spin
  | get (k : σ → Program I σ ε α)
  | set (s : σ) (k : Program I σ ε α)
  | call (o : I.Op) (k : I.Ans o → Program I σ ε α)

/-- How a run of a program ended. -/
inductive Outcome (ε α : Type) where
  | ok (a : α)
  | error (e : ε)
  | spun
  deriving DecidableEq

/-- An environment: from its state `W`, the answer to a call and its next state. -/
abbrev Handler (I : Interface) (W : Type) := W → (o : I.Op) → I.Ans o × W

namespace Program

variable {I : Interface} {σ ε α β γ W κ : Type}

/-! ## Combinators -/

def bind : Program I σ ε α → (α → Program I σ ε β) → Program I σ ε β
  | .pure a, f => f a
  | .raise e, _ => .raise e
  | .spin, _ => .spin
  | .get k, f => .get fun s => (k s).bind f
  | .set s k, f => .set s (k.bind f)
  | .call o k, f => .call o fun r => (k r).bind f

instance : Monad (Program I σ ε) where
  pure := .pure
  bind := bind

/-- `try: p  except e: h(e)`. -/
def tryCatch : Program I σ ε α → (ε → Program I σ ε α) → Program I σ ε α
  | .pure a, _ => .pure a
  | .raise e, h => h e
  | .spin, _ => .spin
  | .get k, h => .get fun s => (k s).tryCatch h
  | .set s k, h => .set s (k.tryCatch h)
  | .call o k, h => .call o fun r => (k r).tryCatch h

/-- `try: p  finally: f`. An exception of `f` replaces the outcome of `p`. -/
def tryFinally : Program I σ ε α → Program I σ ε Unit → Program I σ ε α
  | .pure a, f => f.bind fun _ => .pure a
  | .raise e, f => f.bind fun _ => .raise e
  | .spin, _ => .spin
  | .get k, f => .get fun s => (k s).tryFinally f
  | .set s k, f => .set s (k.tryFinally f)
  | .call o k, f => .call o fun r => (k r).tryFinally f

/-- One call, with its answer as the result. -/
def perform (o : I.Op) : Program I σ ε (I.Ans o) := .call o .pure

/-- The current state. -/
def read : Program I σ ε σ := .get .pure

/-- Assigns the state, in one step. -/
def write (s : σ) : Program I σ ε Unit := .set s (.pure ())

/-- Replaces the state by its image: a read and a write. -/
def modify (f : σ → σ) : Program I σ ε Unit := .get fun s => .set (f s) (.pure ())

/-- `for x in l: f(x)`. -/
def forEach : List κ → (κ → Program I σ ε Unit) → Program I σ ε Unit
  | [], _ => .pure ()
  | x :: xs, f => (f x).bind fun _ => forEach xs f

/-- A pure computation that may raise. -/
def ofExcept : Except ε α → Program I σ ε α
  | .ok a => .pure a
  | .error e => .raise e

@[simp] theorem pure_bind' (a : α) (f : α → Program I σ ε β) : (Program.pure a).bind f = f a := rfl

@[simp] theorem pure_eq (a : α) : (Pure.pure a : Program I σ ε α) = .pure a := rfl

@[simp] theorem bind_eq (p : Program I σ ε α) (f : α → Program I σ ε β) : p >>= f = p.bind f := rfl

theorem bind_pure' (p : Program I σ ε α) : p.bind .pure = p := by
  induction p with
  | pure a => rfl
  | raise e => rfl
  | spin => rfl
  | get k ih => exact congrArg _ (funext ih)
  | set s k ih => exact congrArg _ ih
  | call o k ih => exact congrArg _ (funext ih)

theorem bind_assoc' (p : Program I σ ε α) (f : α → Program I σ ε β) (g : β → Program I σ ε γ) :
    (p.bind f).bind g = p.bind fun a => (f a).bind g := by
  induction p with
  | pure a => rfl
  | raise e => rfl
  | spin => rfl
  | get k ih => exact congrArg _ (funext ih)
  | set s k ih => exact congrArg _ ih
  | call o k ih => exact congrArg _ (funext ih)

instance : LawfulMonad (Program I σ ε) := 
  LawfulMonad.mk' _ bind_pure' (fun _ _ => rfl) bind_assoc'

/-! ## Running a program -/

/-- The run of a program in the environment `h`: how it ended, and the two states it left. -/
def run (h : Handler I W) : Program I σ ε α → σ → W → Outcome ε α × σ × W
  | .pure a, s, w => (.ok a, s, w)
  | .raise e, s, w => (.error e, s, w)
  | .spin, s, w => (.spun, s, w)
  | .get k, s, w => (k s).run h s w
  | .set s k, _, w => k.run h s w
  | .call o k, s, w => (k (h w o).1).run h s (h w o).2

/-- The weakest precondition of `Q`, a condition on the outcome and on the two final states. -/
def wp (h : Handler I W) (p : Program I σ ε α) (Q : Outcome ε α → σ → W → Prop) (s : σ) (w : W) :
    Prop :=
  Q (p.run h s w).1 (p.run h s w).2.1 (p.run h s w).2.2

section Rules

variable {h : Handler I W} {Q R : Outcome ε α → σ → W → Prop} {s : σ} {w : W}

@[simp] theorem wp_pure (a : α) : wp h (.pure a) Q s w ↔ Q (.ok a) s w := Iff.rfl

@[simp] theorem wp_raise (e : ε) : wp h (.raise e) Q s w ↔ Q (.error e) s w := Iff.rfl

@[simp] theorem wp_spin : wp h .spin Q s w ↔ Q .spun s w := Iff.rfl

@[simp] theorem wp_get (k : σ → Program I σ ε α) : wp h (.get k) Q s w ↔ wp h (k s) Q s w := Iff.rfl

@[simp] theorem wp_set (s' : σ) (k : Program I σ ε α) : wp h (.set s' k) Q s w ↔ wp h k Q s' w :=
  Iff.rfl

@[simp] theorem wp_call (o : I.Op) (k : I.Ans o → Program I σ ε α) :
    wp h (.call o k) Q s w ↔ wp h (k (h w o).1) Q s (h w o).2 := Iff.rfl

/-- The condition left for the first of two programs in sequence. -/
def bindPost (h : Handler I W) (f : α → Program I σ ε β) (Q : Outcome ε β → σ → W → Prop) :
    Outcome ε α → σ → W → Prop
  | .ok a => wp h (f a) Q
  | .error e => Q (.error e)
  | .spun => Q .spun

@[simp] theorem wp_bind (p : Program I σ ε α) (f : α → Program I σ ε β)
    (Q : Outcome ε β → σ → W → Prop) : wp h (p.bind f) Q s w ↔ wp h p (bindPost h f Q) s w := by
  induction p generalizing s w with
  | pure a => rfl
  | raise e => rfl
  | spin => rfl
  | get k ih => exact ih s
  | set s' k ih => exact ih
  | call o k ih => exact ih (h w o).1

/-- The condition left for the body of a `try` with handler `g`. -/
def catchPost (h : Handler I W) (g : ε → Program I σ ε α) (Q : Outcome ε α → σ → W → Prop) :
    Outcome ε α → σ → W → Prop
  | .ok a => Q (.ok a)
  | .error e => wp h (g e) Q
  | .spun => Q .spun

@[simp] theorem wp_tryCatch (p : Program I σ ε α) (g : ε → Program I σ ε α) :
    wp h (p.tryCatch g) Q s w ↔ wp h p (catchPost h g Q) s w := by
  induction p generalizing s w with
  | pure a => rfl
  | raise e => rfl
  | spin => rfl
  | get k ih => exact ih s
  | set s' k ih => exact ih
  | call o k ih => exact ih (h w o).1

/-- The condition left for the body of a `try` with the `finally` clause `f`. -/
def finallyPost (h : Handler I W) (f : Program I σ ε Unit) (Q : Outcome ε α → σ → W → Prop) :
    Outcome ε α → σ → W → Prop
  | .ok a => wp h (f.bind fun _ => .pure a) Q
  | .error e => wp h (f.bind fun _ => .raise e) Q
  | .spun => Q .spun

@[simp] theorem wp_tryFinally (p : Program I σ ε α) (f : Program I σ ε Unit) :
    wp h (p.tryFinally f) Q s w ↔ wp h p (finallyPost h f Q) s w := by
  induction p generalizing s w with
  | pure a => rfl
  | raise e => rfl
  | spin => rfl
  | get k ih => exact ih s
  | set s' k ih => exact ih
  | call o k ih => exact ih (h w o).1

@[simp] theorem bindPost_ok (f : α → Program I σ ε β) (Q : Outcome ε β → σ → W → Prop) (a : α) :
    bindPost h f Q (.ok a) s w ↔ wp h (f a) Q s w := Iff.rfl

@[simp] theorem bindPost_error (f : α → Program I σ ε β) (Q : Outcome ε β → σ → W → Prop) (e : ε) :
    bindPost h f Q (.error e) s w ↔ Q (.error e) s w := Iff.rfl

@[simp] theorem bindPost_spun (f : α → Program I σ ε β) (Q : Outcome ε β → σ → W → Prop) :
    bindPost h f Q .spun s w ↔ Q .spun s w := Iff.rfl

@[simp] theorem catchPost_ok (g : ε → Program I σ ε α) (a : α) :
    catchPost h g Q (.ok a) s w ↔ Q (.ok a) s w := Iff.rfl

@[simp] theorem catchPost_error (g : ε → Program I σ ε α) (e : ε) :
    catchPost h g Q (.error e) s w ↔ wp h (g e) Q s w := Iff.rfl

@[simp] theorem catchPost_spun (g : ε → Program I σ ε α) :
    catchPost h g Q .spun s w ↔ Q .spun s w := Iff.rfl

@[simp] theorem finallyPost_ok (f : Program I σ ε Unit) (a : α) :
    finallyPost h f Q (.ok a) s w ↔ wp h (f.bind fun _ => .pure a) Q s w := Iff.rfl

@[simp] theorem finallyPost_error (f : Program I σ ε Unit) (e : ε) :
    finallyPost h f Q (.error e) s w ↔ wp h (f.bind fun _ => .raise e) Q s w := Iff.rfl

@[simp] theorem finallyPost_spun (f : Program I σ ε Unit) :
    finallyPost h f Q .spun s w ↔ Q .spun s w := Iff.rfl

@[simp] theorem wp_perform (o : I.Op) (Q : Outcome ε (I.Ans o) → σ → W → Prop) :
    wp h (perform o) Q s w ↔ Q (.ok (h w o).1) s (h w o).2 := Iff.rfl

@[simp] theorem wp_read (Q : Outcome ε σ → σ → W → Prop) :
    wp h read Q s w ↔ Q (.ok s) s w := Iff.rfl

@[simp] theorem wp_write (s' : σ) (Q : Outcome ε Unit → σ → W → Prop) :
    wp h (write s') Q s w ↔ Q (.ok ()) s' w := Iff.rfl

@[simp] theorem wp_modify (f : σ → σ) (Q : Outcome ε Unit → σ → W → Prop) :
    wp h (modify f) Q s w ↔ Q (.ok ()) (f s) w := Iff.rfl

/-- The consequence rule. -/
theorem wp_mono {p : Program I σ ε α} (hp : wp h p Q s w) (hQ : ∀ o s w, Q o s w → R o s w) :
    wp h p R s w := hQ _ _ _ hp

theorem wp_and {p : Program I σ ε α} (hQ : wp h p Q s w) (hR : wp h p R s w) :
    wp h p (fun o s w => Q o s w ∧ R o s w) s w := ⟨hQ, hR⟩

/-- A sequence does not return when its second part never does. -/
theorem wp_bind_ne_ok {p : Program I σ ε α} {f : α → Program I σ ε β}
    (hf : ∀ a s w, wp h (f a) (fun o _ _ => ∀ b, o ≠ .ok b) s w) :
    wp h (p.bind f) (fun o _ _ => ∀ b, o ≠ .ok b) s w := by
  rw [wp_bind]
  unfold wp
  cases (p.run h s w).1 with
  | ok a => exact hf a _ _
  | error e => simp
  | spun => simp

/-- A `for` loop keeps the invariant `J` when its body does, and may leave early with `Q`. -/
theorem wp_forEach {J : σ → W → Prop} {Q : Outcome ε Unit → σ → W → Prop} (l : List κ)
    (f : κ → Program I σ ε Unit) (hJ : J s w)
    (hbody : ∀ x ∈ l, ∀ s w, J s w → wp h (f x) (fun o s w => match o with
      | .ok _ => J s w
      | .error e => Q (.error e) s w
      | .spun => Q .spun s w) s w)
    (hend : ∀ s w, J s w → Q (.ok ()) s w) : wp h (forEach l f) Q s w := by
  induction l generalizing s w with
  | nil => exact hend s w hJ
  | cons x xs ih =>
      rw [forEach, wp_bind]
      refine wp_mono (hbody x (by simp) s w hJ) ?_
      rintro (⟨⟩ | e | _) s' w' hx
      · exact ih hx fun y hy => hbody y (by simp [hy])
      · exact hx
      · exact hx

end Rules

/-! ## Invariants that no call and no assignment breaks -/

/-- `p` keeps `J`, however it ends. -/
def Preserves (h : Handler I W) (J : σ → W → Prop) (p : Program I σ ε α) : Prop :=
  ∀ s w, J s w → wp h p (fun _ => J) s w

section Preserves

variable {h : Handler I W} {J : σ → W → Prop}

theorem preserves_pure (a : α) : Preserves h J (.pure a : Program I σ ε α) := fun _ _ hJ => hJ

theorem preserves_raise (e : ε) : Preserves h J (.raise e : Program I σ ε α) := fun _ _ hJ => hJ

theorem preserves_spin : Preserves h J (.spin : Program I σ ε α) := fun _ _ hJ => hJ

theorem preserves_call {o : I.Op} {k : I.Ans o → Program I σ ε α}
    (ho : ∀ s w, J s w → J s (h w o).2) (hk : ∀ r, Preserves h J (k r)) :
    Preserves h J (.call o k) := fun s w hJ => hk _ s _ (ho s w hJ)

theorem preserves_read : Preserves h J (read : Program I σ ε σ) := fun _ _ hJ => hJ

theorem preserves_modify {f : σ → σ} (hf : ∀ s w, J s w → J (f s) w) :
    Preserves h J (modify f : Program I σ ε Unit) := fun s w hJ => hf s w hJ

theorem preserves_perform {o : I.Op} (ho : ∀ s w, J s w → J s (h w o).2) :
    Preserves h J (perform o : Program I σ ε (I.Ans o)) := fun s w hJ => ho s w hJ

/-- What the first of two programs leaves true, and the second keeps. -/
theorem wp_bind_keeps {p : Program I σ ε α} {f : α → Program I σ ε β} {s : σ} {w : W}
    (hp : wp h p (fun _ => J) s w) (hf : ∀ a, Preserves h J (f a)) :
    wp h (p.bind f) (fun _ => J) s w := by
  rw [wp_bind]
  refine wp_mono hp ?_
  rintro (a | e | _) s' w' hJ'
  · exact hf a s' w' hJ'
  · exact hJ'
  · exact hJ'

theorem wp_tryCatch_keeps {p : Program I σ ε α} {g : ε → Program I σ ε α} {s : σ} {w : W}
    (hp : wp h p (fun _ => J) s w) (hg : ∀ e, Preserves h J (g e)) :
    wp h (p.tryCatch g) (fun _ => J) s w := by
  rw [wp_tryCatch]
  refine wp_mono hp ?_
  rintro (a | e | _) s' w' hJ'
  · exact hJ'
  · exact hg e s' w' hJ'
  · exact hJ'

theorem preserves_bind {p : Program I σ ε α} {f : α → Program I σ ε β} (hp : Preserves h J p)
    (hf : ∀ a, Preserves h J (f a)) : Preserves h J (p.bind f) :=
  fun s w hJ => wp_bind_keeps (hp s w hJ) hf

theorem preserves_tryCatch {p : Program I σ ε α} {g : ε → Program I σ ε α}
    (hp : Preserves h J p) (hg : ∀ e, Preserves h J (g e)) : Preserves h J (p.tryCatch g) :=
  fun s w hJ => wp_tryCatch_keeps (hp s w hJ) hg

theorem preserves_tryFinally {p : Program I σ ε α} {f : Program I σ ε Unit}
    (hp : Preserves h J p) (hf : Preserves h J f) : Preserves h J (p.tryFinally f) := by
  intro s w hJ
  rw [wp_tryFinally]
  refine wp_mono (hp s w hJ) ?_
  rintro (a | e | _) s' w' hJ'
  · exact preserves_bind hf (fun _ => preserves_pure a) s' w' hJ'
  · exact preserves_bind hf (fun _ => preserves_raise e) s' w' hJ'
  · exact hJ'

theorem preserves_forEach {l : List κ} {f : κ → Program I σ ε Unit}
    (hf : ∀ x ∈ l, Preserves h J (f x)) : Preserves h J (forEach l f) := by
  intro s w hJ
  refine wp_forEach l f hJ (fun x hx s w hJ => ?_) fun _ _ hJ => hJ
  refine wp_mono (hf x hx s w hJ) ?_
  rintro (a | e | _) s' w' hJ' <;> exact hJ'

/-- A property of the environment that every call leaves true stays true. -/
theorem preserves_of_stable {J : W → Prop} (hJ : ∀ w o, J w → J (h w o).2) (p : Program I σ ε α) :
    Preserves h (fun _ => J) p := by
  intro s w hw
  induction p generalizing s w with
  | pure a => exact hw
  | raise e => exact hw
  | spin => exact hw
  | get k ih => exact ih s s w hw
  | set s' k ih => exact ih s' w hw
  | call o k ih => exact ih _ s _ (hJ w o hw)

/-- What the first of two programs makes true for good is true after both. -/
theorem wp_bind_of_stable {J : W → Prop} (hJ : ∀ w o, J w → J (h w o).2) {p : Program I σ ε α}
    {f : α → Program I σ ε β} {s : σ} {w : W} (hp : wp h p (fun _ _ => J) s w) :
    wp h (p.bind f) (fun _ _ => J) s w := by
  rw [wp_bind]
  apply wp_mono hp
  intro o s' w' hw
  cases o with
  | ok a => exact preserves_of_stable hJ (f a) s' w' hw
  | error e => exact hw
  | spun => exact hw

theorem wp_tryCatch_of_stable {J : W → Prop} (hJ : ∀ w o, J w → J (h w o).2)
    {p : Program I σ ε α} {g : ε → Program I σ ε α} {s : σ} {w : W}
    (hp : wp h p (fun _ _ => J) s w) : wp h (p.tryCatch g) (fun _ _ => J) s w := by
  rw [wp_tryCatch]
  apply wp_mono hp
  intro o s' w' hw
  cases o with
  | ok a => exact hw
  | error e => exact preserves_of_stable hJ (g e) s' w' hw
  | spun => exact hw

theorem wp_tryFinally_of_stable {J : W → Prop} (hJ : ∀ w o, J w → J (h w o).2)
    {p : Program I σ ε α} {f : Program I σ ε Unit} {s : σ} {w : W}
    (hp : wp h p (fun _ _ => J) s w) : wp h (p.tryFinally f) (fun _ _ => J) s w := by
  rw [wp_tryFinally]
  apply wp_mono hp
  intro o s' w' hw
  cases o with
  | ok a => exact preserves_of_stable hJ _ s' w' hw
  | error e => exact preserves_of_stable hJ _ s' w' hw
  | spun => exact hw

end Preserves

/-! ## Properties of all calls -/

/-- Every call in the tree satisfies `φ`, whatever the answers and the states are. -/
def Uses (φ : I.Op → Prop) : Program I σ ε α → Prop
  | .pure _ => True
  | .raise _ => True
  | .spin => True
  | .get k => ∀ s, (k s).Uses φ
  | .set _ k => k.Uses φ
  | .call o k => φ o ∧ ∀ r, (k r).Uses φ

section Uses

variable {φ : I.Op → Prop}

theorem uses_ofExcept (r : Except ε α) : (ofExcept r : Program I σ ε α).Uses φ := by
  cases r <;> trivial

theorem uses_bind {p : Program I σ ε α} {f : α → Program I σ ε β} (hp : p.Uses φ)
    (hf : ∀ a, (f a).Uses φ) : (p.bind f).Uses φ := by
  induction p with
  | pure a => exact hf a
  | raise e => trivial
  | spin => trivial
  | get k ih => exact fun s => ih s (hp s)
  | set s k ih => exact ih hp
  | call o k ih => exact ⟨hp.1, fun r => ih r (hp.2 r)⟩

theorem uses_of_bind {p : Program I σ ε α} {f : α → Program I σ ε β} (h : (p.bind f).Uses φ) :
    p.Uses φ := by
  induction p with
  | pure a => trivial
  | raise e => trivial
  | spin => trivial
  | get k ih => exact fun s => ih s (h s)
  | set s k ih => exact ih h
  | call o k ih => exact ⟨h.1, fun r => ih r (h.2 r)⟩

theorem uses_tryFinally {p : Program I σ ε α} {f : Program I σ ε Unit} (hp : p.Uses φ)
    (hf : f.Uses φ) : (p.tryFinally f).Uses φ := by
  induction p with
  | pure a => exact uses_bind hf fun _ => trivial
  | raise e => exact uses_bind hf fun _ => trivial
  | spin => trivial
  | get k ih => exact fun s => ih s (hp s)
  | set s k ih => exact ih hp
  | call o k ih => exact ⟨hp.1, fun r => ih r (hp.2 r)⟩

theorem uses_of_tryFinally {p : Program I σ ε α} {f : Program I σ ε Unit}
    (h : (p.tryFinally f).Uses φ) : p.Uses φ := by
  induction p with
  | pure a => trivial
  | raise e => trivial
  | spin => trivial
  | get k ih => exact fun s => ih s (h s)
  | set s k ih => exact ih h
  | call o k ih => exact ⟨h.1, fun r => ih r (h.2 r)⟩

end Uses

end Program

end GufoBlob.Interaction
