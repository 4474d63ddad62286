import GufoBlob.Interaction.Linearization

/-!
# Calls under one lock

An object all of whose calls do their work in one critical section. `Guarded` is the form of such a
call: it takes the lock, reads and writes the state, releases the lock and ends. `Mutex` says that the
environment has one lock.

* `mutex_linearizable` — every history is linearizable, and each call answers in the row what it
  answers when its program runs alone. It takes effect when it takes the lock.
* `mutex_finishes` — no run comes to a configuration from which a caller cannot finish its calls.
-/

namespace GufoBlob.Interaction

open Function

variable {I : Interface} {σ ε α β κ ι W : Type}

namespace Program

/-- Reads and writes the state, and ends. -/
def Local : Program I σ ε α → Prop
  | .pure _ => True
  | .raise _ => True
  | .spin => False
  | .get k => ∀ s, (k s).Local
  | .set _ k => k.Local
  | .call _ _ => False

/-- The rest of a call that has released the lock: it ends. -/
def Outside (p : Program I σ ε α) : Prop := p.outcome?.isSome = true

/-- The rest of a call that has taken the lock. -/
def Inside (rel : I.Op) : Program I σ ε α → Prop
  | .get k => ∀ s, (k s).Inside rel
  | .set _ k => k.Inside rel
  | .call o k => o = rel ∧ ∀ r, (k r).Outside
  | _ => False

/-- A call with one critical section, or without any step at all. -/
def Guarded (acq rel : I.Op) : Program I σ ε α → Prop
  | .pure _ => True
  | .raise _ => True
  | .call o k => o = acq ∧ ∀ r, (k r).Inside rel
  | _ => False

section Forms

variable {acq rel : I.Op}

theorem local_bind {p : Program I σ ε α} {f : α → Program I σ ε β} (hp : p.Local)
    (hf : ∀ a, (f a).Local) : (p.bind f).Local := by
  induction p with
  | pure a => exact hf a
  | raise e => trivial
  | spin => exact hp
  | get k ih => exact fun s => ih s (hp s)
  | set s k ih => exact ih hp
  | call o k _ => exact hp

theorem local_tryCatch {p : Program I σ ε α} {g : ε → Program I σ ε α} (hp : p.Local)
    (hg : ∀ e, (g e).Local) : (p.tryCatch g).Local := by
  induction p with
  | pure a => trivial
  | raise e => exact hg e
  | spin => exact hp
  | get k ih => exact fun s => ih s (hp s)
  | set s k ih => exact ih hp
  | call o k _ => exact hp

theorem outside_bind {p : Program I σ ε α} {f : α → Program I σ ε β} (hp : p.Outside)
    (hf : ∀ a, (f a).Outside) : (p.bind f).Outside := by
  cases p with
  | pure a => exact hf a
  | raise e => rfl
  | spin => cases hp
  | get k => cases hp
  | set s k => cases hp
  | call o k => cases hp

theorem outside_tryCatch {p : Program I σ ε α} {g : ε → Program I σ ε α} (hp : p.Outside)
    (hg : ∀ e, (g e).Outside) : (p.tryCatch g).Outside := by
  cases p with
  | pure a => rfl
  | raise e => exact hg e
  | spin => cases hp
  | get k => cases hp
  | set s k => cases hp
  | call o k => cases hp

theorem inside_bind {p : Program I σ ε α} {f : α → Program I σ ε β} (hp : p.Inside rel)
    (hf : ∀ a, (f a).Outside) : (p.bind f).Inside rel := by
  induction p with
  | pure a => exact hp.elim
  | raise e => exact hp.elim
  | spin => exact hp.elim
  | get k ih => exact fun s => ih s (hp s)
  | set s k ih => exact ih hp
  | call o k _ => exact ⟨hp.1, fun r => outside_bind (hp.2 r) hf⟩

theorem inside_tryCatch {p : Program I σ ε α} {g : ε → Program I σ ε α} (hp : p.Inside rel)
    (hg : ∀ e, (g e).Outside) : (p.tryCatch g).Inside rel := by
  induction p with
  | pure a => exact hp.elim
  | raise e => exact hp.elim
  | spin => exact hp.elim
  | get k ih => exact fun s => ih s (hp s)
  | set s k ih => exact ih hp
  | call o k _ => exact ⟨hp.1, fun r => outside_tryCatch (hp.2 r) hg⟩

/-- The `finally` clause releases the lock, whichever way the section ends. -/
theorem inside_tryFinally {p : Program I σ ε α} (hp : p.Local) {k : I.Ans rel → Program I σ ε Unit}
    (hk : ∀ r, (k r).Outside) : (p.tryFinally (.call rel k)).Inside rel := by
  induction p with
  | pure a => exact ⟨rfl, fun r => outside_bind (hk r) fun _ => rfl⟩
  | raise e => exact ⟨rfl, fun r => outside_bind (hk r) fun _ => rfl⟩
  | spin => exact hp.elim
  | get k ih => exact fun s => ih s (hp s)
  | set s k ih => exact ih hp
  | call o k _ => exact hp.elim

theorem guarded_of_outside {p : Program I σ ε α} (hp : p.Outside) : p.Guarded acq rel := by
  cases p with
  | pure a => trivial
  | raise e => trivial
  | spin => cases hp
  | get k => cases hp
  | set s k => cases hp
  | call o k => cases hp

theorem guarded_bind {p : Program I σ ε α} {f : α → Program I σ ε β} (hp : p.Guarded acq rel)
    (hf : ∀ a, (f a).Outside) : (p.bind f).Guarded acq rel := by
  cases p with
  | pure a => exact guarded_of_outside (hf a)
  | raise e => trivial
  | spin => exact hp.elim
  | get k => exact hp.elim
  | set s k => exact hp.elim
  | call o k => exact ⟨hp.1, fun r => inside_bind (hp.2 r) hf⟩

theorem guarded_tryCatch {p : Program I σ ε α} {g : ε → Program I σ ε α} (hp : p.Guarded acq rel)
    (hg : ∀ e, (g e).Outside) : (p.tryCatch g).Guarded acq rel := by
  cases p with
  | pure a => trivial
  | raise e => exact guarded_of_outside (hg e)
  | spin => exact hp.elim
  | get k => exact hp.elim
  | set s k => exact hp.elim
  | call o k => exact ⟨hp.1, fun r => inside_tryCatch (hp.2 r) hg⟩

/-- An ended program has no step left. -/
theorem Step.outcome?_eq {env : Shared I ι W} {i : ι} {p p' : Program I σ ε β} {s s' : σ} {w w' : W}
    (hstep : p.Step env i s w p' s' w') : p.outcome? = none := by
  cases hstep <;> rfl

theorem Inside.outcome?_eq {p : Program I σ ε β} (hp : p.Inside rel) : p.outcome? = none := by
  cases p with
  | pure a => exact hp.elim
  | raise e => exact hp.elim
  | spin => rfl
  | get k => rfl
  | set s k => rfl
  | call o k => rfl

end Forms

end Program

/-! ## The lock -/

/-- `env` has one lock, held by `holder w`, and answers every call on it like `h`. -/
structure Mutex (env : Shared I ι W) (h : Handler I Unit) (acq rel : I.Op) (holder : W → Option ι) :
    Prop where
  acquire : ∀ i w r, env i w acq = some r → holder w = none ∧ holder r.2 = some i
  release : ∀ i w r, env i w rel = some r → holder r.2 = none
  free : ∀ i w, holder w = none → (env i w acq).isSome
  held : ∀ i w, holder w = some i → (env i w rel).isSome
  answers : ∀ i w o r, env i w o = some r → r.1 = (h () o).1

/-- What the program of a call does when nobody else makes one. -/
def runAlone (h : Handler I Unit) (perform : κ → Program I σ ε β) : Sequential κ ε β σ :=
  fun c s => (((perform c).run h s ()).1, ((perform c).run h s ()).2.1)

section Mutex

variable {env : Shared I ι W} {h : Handler I Unit} {acq rel : I.Op} {holder : W → Option ι}
  {perform : κ → Program I σ ε β} {K : κ → Prop}

/-- Where the caller `i` is, as far as the lock is concerned. Inside its section, the rest of its
call leads to the state `a` that the row of calls is in already. -/
def Phase.Stands (h : Handler I Unit) (acq rel : I.Op) (holder : W → Option ι)
    (perform : κ → Program I σ ε β) (i : ι) (s : σ) (w : W) (a : σ) : Phase I σ ε β κ → Prop
  | .idle => holder w ≠ some i
  | .pending c p => holder w ≠ some i ∧ p = perform c ∧ p.Guarded acq rel
  | .settled _ o p =>
      (holder w = some i ∧ p.Inside rel ∧ p.run h s () = (o, a, ())) ∨
        (holder w ≠ some i ∧ p.outcome? = some o)

/-- Everybody stands somewhere, and the state is that of the row of calls while nobody holds the
lock. -/
def LockSim (h : Handler I Unit) (acq rel : I.Op) (holder : W → Option ι)
    (perform : κ → Program I σ ε β) (ph : ι → Phase I σ ε β κ) (s : σ) (w : W) (a : σ) : Prop :=
  (∀ i, (ph i).Stands h acq rel holder perform i s w a) ∧ (holder w = none → s = a)

variable {ph : ι → Phase I σ ε β κ} {s s' a a' : σ} {w w' : W} {i j : ι}
  {x : Phase I σ ε β κ}

/-- A caller that does not hold the lock stands where it stood, whatever the holder does. -/
theorem Phase.Stands.of_other (hx : x.Stands h acq rel holder perform j s w a)
    (hw : holder w ≠ some j) (hw' : holder w' ≠ some j) :
    x.Stands h acq rel holder perform j s' w' a' := by
  cases x with
  | idle => exact hw'
  | pending c p => exact ⟨hw', hx.2⟩
  | settled c o p => exact .inr ⟨hw', (hx.resolve_left fun hin => hw hin.1).2⟩

theorem ne_some_of_eq_some (hw : holder w = some i) (j : ι) (hj : j ≠ i) : holder w ≠ some j := by
  rw [hw]
  exact fun heq => hj (Option.some.inj heq).symm

theorem ne_some_of_eq_none (hw : holder w = none) (j : ι) : holder w ≠ some j := by
  simp [hw]

variable [DecidableEq ι]

/-- The step of a caller when no other caller holds the lock, before or after. -/
theorem LockSim.step (hsim : LockSim h acq rel holder perform ph s w a)
    (hw : ∀ j, j ≠ i → holder w ≠ some j) (hw' : ∀ j, j ≠ i → holder w' ≠ some j)
    (hx : x.Stands h acq rel holder perform i s' w' a') (hfree : holder w' = none → s' = a') :
    LockSim h acq rel holder perform (update ph i x) s' w' a' := by
  refine ⟨fun j => ?_, hfree⟩
  by_cases hj : j = i
  · subst hj
    simpa using hx
  · rw [update_of_ne hj]
    exact (hsim.1 j).of_other (hw j hj) (hw' j hj)

/-- The step of a caller that changes neither the state nor the lock. -/
theorem LockSim.stay (hsim : LockSim h acq rel holder perform ph s w a)
    (hx : x.Stands h acq rel holder perform i s w a) :
    LockSim h acq rel holder perform (update ph i x) s w a := by
  refine ⟨fun j => ?_, hsim.2⟩
  by_cases hj : j = i
  · subst hj
    simpa using hx
  · rw [update_of_ne hj]
    exact hsim.1 j

/-- A call takes effect when it takes the lock, or at its end when it never takes it. -/
theorem Mutex.atomicity (hmutex : Mutex env h acq rel holder)
    (hK : ∀ c, K c → (perform c).Guarded acq rel) :
    Atomicity perform env (runAlone h perform) K (LockSim h acq rel holder perform) where
  invoke ph s w a i c hsim hi hc := by
    have hidle := hsim.1 i
    rw [hi] at hidle
    exact hsim.stay ⟨hidle, rfl, hK c hc⟩
  pending ph s w a i c p p' s' w' hsim hi hstep := by
    have hpending := hsim.1 i
    rw [hi] at hpending
    obtain ⟨hw, hp, hguarded⟩ := hpending
    -- the first step of a guarded call takes the lock
    cases hstep with
    | get k => exact hguarded.elim
    | set s' k => exact hguarded.elim
    | @call o k _ _ _ r henv =>
        obtain ⟨rfl, hinside⟩ := hguarded
        obtain ⟨hfree, hheld⟩ := hmutex.acquire i w _ henv
        obtain rfl := hsim.2 hfree
        have hrun : (k r).run h s () = (perform c).run h s () := by
          rw [← hp, Program.run, ← hmutex.answers i w _ _ henv]
        refine .inr (hsim.step (fun j _ => ne_some_of_eq_none hfree j) (ne_some_of_eq_some hheld)
          (.inl ⟨hheld, hinside r, hrun⟩) fun hnone => ?_)
        rw [hheld] at hnone
        cases hnone
  settled ph s w a i c o p p' s' w' hsim hi hstep := by
    have hsettled := hsim.1 i
    rw [hi] at hsettled
    obtain ⟨hheld, hinside, hrun⟩ := hsettled.resolve_right fun hend => by
      have hnone := hstep.outcome?_eq
      rw [hend.2] at hnone
      cases hnone
    have hne : ¬ holder w = none := by simp [hheld]
    cases hstep with
    | get k =>
        exact hsim.stay (.inl ⟨hheld, hinside s, hrun⟩)
    | set s' k =>
        exact hsim.step (ne_some_of_eq_some hheld) (ne_some_of_eq_some hheld)
          (.inl ⟨hheld, hinside, hrun⟩) fun hnone => absurd hnone hne
    | @call op k _ _ _ r henv =>
        obtain ⟨rfl, houtside⟩ := hinside
        have hfree := hmutex.release i w _ henv
        -- after the release the call has nothing left to do
        obtain ⟨o', ho'⟩ := Option.isSome_iff_exists.mp (houtside r)
        obtain ⟨rfl, rfl⟩ : o' = o ∧ s = a := by
          rw [Program.run, ← hmutex.answers i w _ _ henv, Program.run_of_outcome? ho'] at hrun
          simpa using hrun
        exact hsim.step (ne_some_of_eq_some hheld) (fun j _ => ne_some_of_eq_none hfree j)
          (.inr ⟨ne_some_of_eq_none hfree i, ho'⟩) fun _ => rfl
  pending_end ph s w a i c p o hsim hi ho := by
    have hpending := hsim.1 i
    rw [hi] at hpending
    obtain ⟨hw, rfl, -⟩ := hpending
    have hspec : runAlone h perform c a = (o, a) := by
      rw [runAlone, Program.run_of_outcome? ho]
    rw [hspec]
    exact ⟨rfl, hsim.stay hw⟩
  settled_end ph s w a i c o p o' hsim hi ho' := by
    have hsettled := hsim.1 i
    rw [hi] at hsettled
    obtain ⟨hw, ho⟩ := hsettled.resolve_left fun hin => by
      rw [hin.2.1.outcome?_eq] at ho'
      cases ho'
    exact ⟨Option.some.inj (ho.symm.trans ho'), hsim.stay hw⟩

variable {todo : ι → List κ} {hist : List (Event ι κ ε β)} {cfg : Config I σ ε β κ ι W}

/-- **Calls under one lock are linearizable.** In the row, each of them does what its program does
alone; and when nobody holds the lock the state is the one that the row leaves. -/
theorem mutex_linearizable (hmutex : Mutex env h acq rel holder)
    (hK : ∀ c, K c → (perform c).Guarded acq rel) (htodo : ∀ i, ∀ c ∈ todo i, K c)
    (hw : holder w = none) (hrun : Config.Histories perform env (.start todo s w) hist cfg) :
    ∃ l a, Linearization (runAlone h perform) s hist l a ∧
      (holder cfg.world = none → cfg.state = a) := by
  have hinit : LockSim h acq rel holder perform (fun _ => .idle) s w s :=
    ⟨fun i => ne_some_of_eq_none hw i, fun _ => rfl⟩
  obtain ⟨l, ph, a, hlin, -, hsim⟩ := (hmutex.atomicity hK).linearizable htodo hinit hrun
  exact ⟨l, a, hlin, hsim.2⟩

/-! ## Nobody is locked out -/

/-- The configuration after a step of the caller `i`. -/
def Config.after (cfg : Config I σ ε β κ ι W) (i : ι) (t : Thread I σ ε β κ) (s : σ) (w : W) :
    Config I σ ε β κ ι W :=
  ⟨update cfg.threads i t, s, w⟩

@[simp] theorem Config.after_threads_self (cfg : Config I σ ε β κ ι W) (t : Thread I σ ε β κ) :
    (cfg.after i t s w).threads i = t := by
  simp [after]

theorem reaches_step {t : Thread I σ ε β κ}
    (hstep : (cfg.threads i).step? perform env i cfg.state cfg.world = some (t, s, w)) :
    Config.Reaches perform env (fun _ _ => True) cfg (cfg.after i t s w) := by
  refine .step i .refl trivial ?_
  rw [Config.step?, hstep]
  rfl

variable (perform cfg) in
/-- The holder of the lock can go on until it has released it. -/
theorem leaves (hmutex : Mutex env h acq rel holder) {c : κ} {p : Program I σ ε β}
    (hnow : (cfg.threads j).now = some (c, p)) (hheld : holder cfg.world = some j)
    (hp : p.Inside rel) :
    ∃ cfg' p', Config.Reaches perform env (fun _ _ => True) cfg cfg' ∧
      holder cfg'.world = none ∧ p'.Outside ∧
      cfg'.threads = update cfg.threads j { cfg.threads j with now := some (c, p') } := by
  induction p generalizing cfg with
  | pure a => exact hp.elim
  | raise e => exact hp.elim
  | spin => exact hp.elim
  | get k ih =>
      have hstep : (cfg.threads j).step? perform env j cfg.state cfg.world =
          some ({ cfg.threads j with now := some (c, k cfg.state) }, cfg.state, cfg.world) := by
        simp [Thread.step?, hnow]
      obtain ⟨cfg', p', hreach, hfree, hout, heq⟩ := ih cfg.state
        (cfg.after j { cfg.threads j with now := some (c, k cfg.state) } cfg.state cfg.world)
        (by simp) hheld (hp cfg.state)
      refine ⟨cfg', p', Config.reaches_trans (reaches_step hstep) hreach, hfree, hout, ?_⟩
      simpa [Config.after] using heq
  | set s' k ih =>
      have hstep : (cfg.threads j).step? perform env j cfg.state cfg.world =
          some ({ cfg.threads j with now := some (c, k) }, s', cfg.world) := by
        simp [Thread.step?, hnow]
      obtain ⟨cfg', p', hreach, hfree, hout, heq⟩ := ih
        (cfg.after j { cfg.threads j with now := some (c, k) } s' cfg.world)
        (by simp) hheld hp
      refine ⟨cfg', p', Config.reaches_trans (reaches_step hstep) hreach, hfree, hout, ?_⟩
      simpa [Config.after] using heq
  | call o k _ =>
      obtain ⟨rfl, houtside⟩ := hp
      obtain ⟨r, hr⟩ := Option.isSome_iff_exists.mp (hmutex.held j cfg.world hheld)
      have hstep : (cfg.threads j).step? perform env j cfg.state cfg.world =
          some ({ cfg.threads j with now := some (c, k r.1) }, cfg.state, r.2) := by
        simp [Thread.step?, hnow, hr]
      exact ⟨_, k r.1, reaches_step hstep, hmutex.release j _ _ hr, houtside r.1, rfl⟩

variable (env perform) in
/-- A call that has nothing left to do can end. -/
theorem ends_outside {c : κ} {p : Program I σ ε β} (hnow : (cfg.threads i).now = some (c, p))
    (hp : p.Outside) :
    ∃ cfg', Config.Reaches perform env (fun _ _ => True) cfg cfg' ∧ cfg'.world = cfg.world ∧
      (cfg'.threads i).now = none ∧ (cfg'.threads i).todo = (cfg.threads i).todo := by
  obtain ⟨o, ho⟩ := Option.isSome_iff_exists.mp hp
  have hstep : (cfg.threads i).step? perform env i cfg.state cfg.world =
      some ({ cfg.threads i with now := none, done := (cfg.threads i).done ++ [(c, o)] },
        cfg.state, cfg.world) := by
    cases p with
    | pure a =>
        obtain rfl := Option.some.inj ho
        simp [Thread.step?, hnow]
    | raise e =>
        obtain rfl := Option.some.inj ho
        simp [Thread.step?, hnow]
    | spin => cases ho
    | get k => cases ho
    | set s k => cases ho
    | call o k => cases ho
  exact ⟨_, reaches_step hstep, rfl, by simp, by simp⟩

variable (perform cfg) in
/-- While nobody holds the lock, a caller can finish the call that it is in. -/
theorem ends_guarded (hmutex : Mutex env h acq rel holder) {c : κ} {p : Program I σ ε β}
    (hnow : (cfg.threads i).now = some (c, p)) (hfree : holder cfg.world = none)
    (hp : p.Guarded acq rel) :
    ∃ cfg', Config.Reaches perform env (fun _ _ => True) cfg cfg' ∧ holder cfg'.world = none ∧
      (cfg'.threads i).now = none ∧ (cfg'.threads i).todo = (cfg.threads i).todo := by
  cases p with
  | pure a =>
      obtain ⟨cfg', hreach, hw, hend, htodo⟩ := ends_outside env perform hnow rfl
      exact ⟨cfg', hreach, by rw [hw, hfree], hend, htodo⟩
  | raise e =>
      obtain ⟨cfg', hreach, hw, hend, htodo⟩ := ends_outside env perform hnow rfl
      exact ⟨cfg', hreach, by rw [hw, hfree], hend, htodo⟩
  | spin => exact hp.elim
  | get k => exact hp.elim
  | set s k => exact hp.elim
  | call o k =>
      obtain ⟨rfl, hinside⟩ := hp
      obtain ⟨r, hr⟩ := Option.isSome_iff_exists.mp (hmutex.free i cfg.world hfree)
      have hstep : (cfg.threads i).step? perform env i cfg.state cfg.world =
          some ({ cfg.threads i with now := some (c, k r.1) }, cfg.state, r.2) := by
        simp [Thread.step?, hnow, hr]
      obtain ⟨mid, p', hleave, hmid, hout, hthreads⟩ := leaves (c := c) perform
        (cfg.after i { cfg.threads i with now := some (c, k r.1) } cfg.state r.2) hmutex
        (by simp) (hmutex.acquire i _ _ hr).2 (hinside r.1)
      have hnow' : (mid.threads i).now = some (c, p') := by simp [hthreads]
      obtain ⟨cfg', hend, hw, hidle, htodo⟩ := ends_outside env perform hnow' hout
      refine ⟨cfg', Config.reaches_trans (Config.reaches_trans (reaches_step hstep) hleave) hend,
        by rw [hw, hmid], hidle, ?_⟩
      rw [htodo, hthreads]
      simp

/-- While nobody holds the lock, a caller between two calls can make all the others. -/
theorem finishes_idle (hmutex : Mutex env h acq rel holder)
    (hK : ∀ c, K c → (perform c).Guarded acq rel) {cs : List κ}
    (htodo : (cfg.threads i).todo = cs) (hcs : ∀ c ∈ cs, K c)
    (hnow : (cfg.threads i).now = none) (hfree : holder cfg.world = none) :
    ∃ cfg', Config.Reaches perform env (fun _ _ => True) cfg cfg' ∧
      (cfg'.threads i).now = none ∧ (cfg'.threads i).todo = [] := by
  induction cs generalizing cfg with
  | nil => exact ⟨cfg, .refl, hnow, htodo⟩
  | cons c cs ih =>
      have hstep : (cfg.threads i).step? perform env i cfg.state cfg.world =
          some ({ cfg.threads i with todo := cs, now := some (c, perform c) },
            cfg.state, cfg.world) := by
        simp [Thread.step?, hnow, htodo]
      obtain ⟨mid, hcall, hmid, hidle, hrest⟩ := ends_guarded (c := c) (i := i) perform
        (cfg.after i { cfg.threads i with todo := cs, now := some (c, perform c) }
          cfg.state cfg.world) hmutex (by simp) hfree (hK c (hcs c List.mem_cons_self))
      have hrest' : (mid.threads i).todo = cs := by simpa using hrest
      obtain ⟨cfg', hend, hdone, hnil⟩ := ih hrest'
        (fun c' hc' => hcs c' (List.mem_cons_of_mem c hc')) hidle hmid
      exact ⟨cfg', Config.reaches_trans (Config.reaches_trans (reaches_step hstep) hcall) hend,
        hdone, hnil⟩

/-- **No caller is locked out**: whatever has happened, it can still finish all its calls. -/
theorem mutex_finishes (hmutex : Mutex env h acq rel holder)
    (hK : ∀ c, K c → (perform c).Guarded acq rel) (htodo : ∀ i, ∀ c ∈ todo i, K c)
    (hw : holder w = none) (hrun : Config.Histories perform env (.start todo s w) hist cfg) (i : ι) :
    ∃ cfg', Config.Reaches perform env (fun _ _ => True) cfg cfg' ∧
      (cfg'.threads i).now = none ∧ (cfg'.threads i).todo = [] := by
  have hinit : LockSim h acq rel holder perform (fun _ => .idle) s w s :=
    ⟨fun i => ne_some_of_eq_none hw i, fun _ => rfl⟩
  obtain ⟨l, ph, a, htr⟩ := tracks_of_histories (hmutex.atomicity hK) htodo hinit hrun
  -- from a free lock, with the calls still to be made unchanged
  have hfinish : ∀ mid : Config I σ ε β κ ι W, holder mid.world = none →
      (mid.threads i).todo = (cfg.threads i).todo →
      ((mid.threads i).now = none ∨
        ∃ c p, (mid.threads i).now = some (c, p) ∧ p.Guarded acq rel) →
      ∃ cfg', Config.Reaches perform env (fun _ _ => True) mid cfg' ∧
        (cfg'.threads i).now = none ∧ (cfg'.threads i).todo = [] := by
    intro mid hfree hsame hwhere
    have hcs : ∀ c ∈ (mid.threads i).todo, K c := by
      rw [hsame]
      exact htr.todo i
    rcases hwhere with hnow | ⟨c, p, hnow, hp⟩
    · exact finishes_idle hmutex hK rfl hcs hnow hfree
    · obtain ⟨mid', hcall, hfree', hnow', hsame'⟩ := ends_guarded perform mid hmutex hnow hfree hp
      obtain ⟨cfg', hend, hdone⟩ := finishes_idle hmutex hK hsame' hcs hnow' hfree'
      exact ⟨cfg', Config.reaches_trans hcall hend, hdone⟩
  -- where the caller is when it does not hold the lock
  have hwhere : holder cfg.world ≠ some i → (cfg.threads i).now = none ∨
      ∃ c p, (cfg.threads i).now = some (c, p) ∧ p.Guarded acq rel := by
    intro hne
    rw [htr.now i]
    have hstands := htr.sim.1 i
    cases hx : ph i with
    | idle => exact .inl rfl
    | pending c p =>
        rw [hx] at hstands
        exact .inr ⟨c, p, rfl, hstands.2.2⟩
    | settled c o p =>
        rw [hx] at hstands
        have ho := (hstands.resolve_left fun hin => hne hin.1).2
        exact .inr ⟨c, p, rfl, Program.guarded_of_outside (by simp [Program.Outside, ho])⟩
  cases hlock : holder cfg.world with
  | none => exact hfinish cfg hlock rfl (hwhere (by simp [hlock]))
  | some j =>
      -- the holder leaves first
      have hstands := htr.sim.1 j
      have hnow := htr.now j
      cases hx : ph j with
      | idle =>
          rw [hx] at hstands
          exact absurd hlock hstands
      | pending c p =>
          rw [hx] at hstands
          exact absurd hlock hstands.1
      | settled c o p =>
          rw [hx] at hstands hnow
          have hin := hstands.resolve_right fun hout => hout.1 hlock
          obtain ⟨mid, p', hleave, hfree, hout, hthreads⟩ := leaves perform cfg hmutex hnow hlock hin.2.1
          have hgo : ∃ cfg', Config.Reaches perform env (fun _ _ => True) mid cfg' ∧
              (cfg'.threads i).now = none ∧ (cfg'.threads i).todo = [] := by
            by_cases hij : i = j
            · subst hij
              exact hfinish mid hfree (by simp [hthreads])
                (.inr ⟨c, p', by simp [hthreads], Program.guarded_of_outside hout⟩)
            · have hsame : mid.threads i = cfg.threads i := by
                rw [hthreads, update_of_ne hij]
              refine hfinish mid hfree (by rw [hsame]) ?_
              rw [hsame]
              exact hwhere (by simpa [hlock] using Ne.symm hij)
          obtain ⟨cfg', hend, hdone⟩ := hgo
          exact ⟨cfg', Config.reaches_trans hleave hend, hdone⟩

end Mutex

end GufoBlob.Interaction
