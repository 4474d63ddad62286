import GufoBlob.Interaction.Program

/-!
# Runs of an object

An object with state `σ` offers a family of calls, each a program. `runCalls` performs a list of
them one after the other, whether they return or raise, and `Reachable` is its closure: the states
that the object and its environment can be in between two calls. A call that never ended has no
state after it, so a run stops there.

`Reachable.invariant` is the induction that every statement about reachable states uses: what one
call preserves, a run preserves.
-/

namespace GufoBlob.Interaction

namespace Program

variable {I : Interface} {σ ε β W κ : Type}

/-- The states between two calls of any run that starts in `init`. -/
inductive Reachable (h : Handler I W) (perform : κ → Program I σ ε β) (init : σ → W → Prop) :
    σ → W → Prop where
  | init {s w} : init s w → Reachable h perform init s w
  | step {s w} (c : κ) : Reachable h perform init s w → ((perform c).run h s w).1 ≠ .spun →
      Reachable h perform init ((perform c).run h s w).2.1 ((perform c).run h s w).2.2

/-- What holds at the start and is preserved by every call holds in every reachable state. -/
theorem Reachable.invariant {h : Handler I W} {perform : κ → Program I σ ε β}
    {init J : σ → W → Prop} (hinit : ∀ s w, init s w → J s w)
    (hstep : ∀ c s w, J s w → wp h (perform c) (fun o s w => o ≠ .spun → J s w) s w)
    {s : σ} {w : W} (hr : Reachable h perform init s w) : J s w := by
  induction hr with
  | init h0 => exact hinit _ _ h0
  | step c _ hne ih => exact hstep c _ _ ih hne

/-- The states between two calls of the runs in which every call is allowed where it is made. -/
inductive ReachableWhile (h : Handler I W) (perform : κ → Program I σ ε β)
    (allowed : κ → σ → W → Prop) (init : σ → W → Prop) : σ → W → Prop where
  | init {s w} : init s w → ReachableWhile h perform allowed init s w
  | step {s w} (c : κ) : ReachableWhile h perform allowed init s w → allowed c s w →
      ((perform c).run h s w).1 ≠ .spun →
      ReachableWhile h perform allowed init ((perform c).run h s w).2.1
        ((perform c).run h s w).2.2

/-- What every allowed call preserves holds in all these states. -/
theorem ReachableWhile.invariant {h : Handler I W} {perform : κ → Program I σ ε β}
    {allowed : κ → σ → W → Prop} {init J : σ → W → Prop} (hinit : ∀ s w, init s w → J s w)
    (hstep : ∀ c s w, allowed c s w → J s w → wp h (perform c) (fun _ => J) s w) {s : σ} {w : W}
    (hr : ReachableWhile h perform allowed init s w) : J s w := by
  induction hr with
  | init h0 => exact hinit _ _ h0
  | step c _ hallowed _ ih => exact hstep c _ _ hallowed ih

/-- The run of a list of calls: their outcomes in order, and the states at the end. -/
def runCalls (h : Handler I W) (perform : κ → Program I σ ε β) :
    List κ → σ → W → List (Outcome ε β) × σ × W
  | [], s, w => ([], s, w)
  | c :: cs, s, w =>
      match (perform c).run h s w with
      | (.spun, s', w') => ([.spun], s', w')
      | (o, s', w') => (o :: (runCalls h perform cs s' w').1, (runCalls h perform cs s' w').2)

section Cons

variable {h : Handler I W} {perform : κ → Program I σ ε β} {c : κ} {s : σ} {w : W}

theorem runCalls_cons_of_ne {cs : List κ} (hne : ((perform c).run h s w).1 ≠ .spun) :
    runCalls h perform (c :: cs) s w =
      (((perform c).run h s w).1 ::
          (runCalls h perform cs ((perform c).run h s w).2.1 ((perform c).run h s w).2.2).1,
        (runCalls h perform cs ((perform c).run h s w).2.1 ((perform c).run h s w).2.2).2) := by
  rw [runCalls]
  split
  · next heq => exact absurd (congrArg Prod.fst heq) hne
  · next heq => rw [heq]

theorem runCalls_cons_of_spun (cs : List κ) (hspun : ((perform c).run h s w).1 = .spun) :
    runCalls h perform (c :: cs) s w = ([.spun], ((perform c).run h s w).2) := by
  rw [runCalls]
  split
  · next heq => rw [heq]
  · next hne heq =>
      rw [heq] at hspun
      exact absurd hspun hne

/-- Calls that are named in another way. -/
theorem runCalls_map {κ' : Type} (f : κ' → κ) (cs : List κ') (s : σ) (w : W) :
    runCalls h perform (cs.map f) s w = runCalls h (fun c => perform (f c)) cs s w := by
  induction cs generalizing s w with
  | nil => rfl
  | cons c cs ih =>
      rw [List.map_cons]
      let perform' : κ' → Program I σ ε β := fun c => perform (f c)
      by_cases hspun : ((perform (f c)).run h s w).1 = .spun
      · have hspun' : ((perform' c).run h s w).1 = .spun := hspun
        rw [runCalls_cons_of_spun _ hspun, runCalls_cons_of_spun cs hspun']
      · have hne : ((perform' c).run h s w).1 ≠ .spun := hspun
        rw [runCalls_cons_of_ne hspun, runCalls_cons_of_ne hne, ih]

/-- What a single call shows is its outcome and the states after it. -/
theorem runCalls_singleton (perform : κ → Program I σ ε β) (c : κ) (s : σ) (w : W) :
    runCalls h perform [c] s w = ([((perform c).run h s w).1], ((perform c).run h s w).2) := by
  by_cases hspun : ((perform c).run h s w).1 = .spun
  · rw [runCalls_cons_of_spun [] hspun, hspun]
  · rw [runCalls_cons_of_ne hspun]
    rfl

/-- A run of calls that have all ended, and the calls after it. -/
theorem runCalls_append {cs cs' : List κ} {os : List (Outcome ε β)} {s' : σ} {w' : W}
    (hrun : runCalls h perform cs s w = (os, s', w')) (hne : .spun ∉ os) :
    runCalls h perform (cs ++ cs') s w =
      (os ++ (runCalls h perform cs' s' w').1, (runCalls h perform cs' s' w').2) := by
  induction cs generalizing os s w with
  | nil =>
      obtain ⟨rfl, rfl, rfl⟩ : [] = os ∧ s = s' ∧ w = w' := by simpa [runCalls] using hrun
      rfl
  | cons c cs ih =>
      by_cases hspun : ((perform c).run h s w).1 = .spun
      · rw [runCalls_cons_of_spun cs hspun] at hrun
        obtain rfl := congrArg Prod.fst hrun
        exact absurd List.mem_cons_self hne
      · rw [runCalls_cons_of_ne hspun] at hrun
        obtain ⟨rfl, hend⟩ := Prod.mk.inj hrun
        have hrest := ih (Prod.ext rfl hend) fun hmem => hne (List.mem_cons_of_mem _ hmem)
        rw [List.cons_append, runCalls_cons_of_ne hspun, hrest]
        rfl

end Cons

/-- In environments in which single calls run alike, so do sequences of calls. -/
theorem runCalls_congr {h h' : Handler I W} {perform perform' : κ → Program I σ ε β} {cs : List κ}
    (hcs : ∀ c ∈ cs, (perform c).run h = (perform' c).run h') (s : σ) (w : W) :
    runCalls h perform cs s w = runCalls h' perform' cs s w := by
  induction cs generalizing s w with
  | nil => rfl
  | cons c cs ih =>
      rw [runCalls, runCalls, hcs c List.mem_cons_self]
      have hrest := ih fun c hc => hcs c (List.mem_cons_of_mem _ hc)
      split
      · rfl
      · rw [hrest]

/-- What every call of a run preserves, however it ends, the run preserves. -/
theorem runCalls_invariant {h : Handler I W} {perform : κ → Program I σ ε β} {J : σ → W → Prop}
    {cs : List κ} (hstep : ∀ c ∈ cs, Preserves h J (perform c)) {s : σ} {w : W} (hJ : J s w) :
    J (runCalls h perform cs s w).2.1 (runCalls h perform cs s w).2.2 := by
  induction cs generalizing s w with
  | nil => exact hJ
  | cons c cs ih =>
      have hc : J ((perform c).run h s w).2.1 ((perform c).run h s w).2.2 :=
        hstep c List.mem_cons_self s w hJ
      rw [runCalls]
      split
      · next s' w' heq => rw [heq] at hc; exact hc
      · next o s' w' _ heq =>
          rw [heq] at hc
          exact ih (fun c' hc' => hstep c' (List.mem_cons_of_mem c hc')) hc

end Program

end GufoBlob.Interaction
