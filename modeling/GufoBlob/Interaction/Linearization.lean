import GufoBlob.Interaction.Awaits
import GufoBlob.Interaction.Turns

/-!
# Linearizability

What the callers of a shared object observe of a run is its history: when each call was made, and when
it ended with which outcome. The history is linearizable when the calls can be put in a row in which
each answers as it would if it were made alone (`Legal`), and which agrees with the order of calls
that did not overlap (`Linearization`).

* `Atomic` — the canonical object: a call takes effect in one step between its begin and its end.
  `Atomic.linearization` says that its histories are linearizable.
* `Atomicity` — what has to be shown of an object: where in its steps each call takes effect.
* `Atomicity.linearizable` — every history of such an object is linearizable.
-/

namespace GufoBlob.Interaction

open Function

variable {I : Interface} {σ ε β κ ι W A : Type}

/-- What a caller observes of a run. -/
inductive Event (ι κ ε β : Type) where
  | invoke (i : ι) (c : κ)
  | response (i : ι) (c : κ) (o : Outcome ε β)
  deriving DecidableEq

/-- An object whose calls are made one after the other: the outcome of a call, and what it leaves. -/
abbrev Sequential (κ ε β A : Type) := κ → A → Outcome ε β × A

/-- Calls in a row, with the outcomes that they have there. -/
inductive Legal (spec : Sequential κ ε β A) (a₀ : A) : List (ι × κ × Outcome ε β) → A → Prop where
  | nil : Legal spec a₀ [] a₀
  | snoc {l a} (i : ι) (c : κ) : Legal spec a₀ l a →
      Legal spec a₀ (l ++ [(i, c, (spec c a).1)]) (spec c a).2

/-- What every call keeps, calls in a row keep. -/
theorem Legal.invariant {spec : Sequential κ ε β A} {J : A → Prop}
    (hstep : ∀ c a, J a → J (spec c a).2) {a₀ a : A} {l : List (ι × κ × Outcome ε β)}
    (hlegal : Legal spec a₀ l a) (hinit : J a₀) : J a := by
  induction hlegal with
  | nil => exact hinit
  | snoc i c _ ih => exact hstep c _ ih

section Histories

variable [DecidableEq ι]

/-- The calls that the caller `i` has made. -/
def begun (i : ι) : List (Event ι κ ε β) → List κ
  | [] => []
  | .invoke j c :: h => if j = i then c :: begun i h else begun i h
  | .response _ _ _ :: h => begun i h

/-- The calls of the caller `i` that have ended, with their outcomes. -/
def ended (i : ι) : List (Event ι κ ε β) → List (κ × Outcome ε β)
  | [] => []
  | .invoke _ _ :: h => ended i h
  | .response j c o :: h => if j = i then (c, o) :: ended i h else ended i h

section Lemmas

variable (i : ι) (h : List (Event ι κ ε β)) (c : κ) (o : Outcome ε β)

theorem begun_append (h' : List (Event ι κ ε β)) : begun i (h ++ h') = begun i h ++ begun i h' := by
  induction h with
  | nil => rfl
  | cons e h ih =>
      cases e with
      | invoke j c =>
          by_cases hj : j = i
          · simp [begun, hj, ih]
          · simp [begun, hj, ih]
      | response j c o => simpa [begun] using ih

theorem ended_append (h' : List (Event ι κ ε β)) : ended i (h ++ h') = ended i h ++ ended i h' := by
  induction h with
  | nil => rfl
  | cons e h ih =>
      cases e with
      | invoke j c => simpa [ended] using ih
      | response j c o =>
          by_cases hj : j = i
          · simp [ended, hj, ih]
          · simp [ended, hj, ih]

@[simp] theorem begun_invoke_self : begun i (h ++ [.invoke i c]) = begun i h ++ [c] := by
  simp [begun_append, begun]

@[simp] theorem begun_response (j : ι) : begun i (h ++ [.response j c o]) = begun i h := by
  simp [begun_append, begun]

@[simp] theorem ended_invoke (j : ι) : ended i (h ++ [.invoke j c]) = ended i h := by
  simp [ended_append, ended]

@[simp] theorem ended_response_self :
    ended i (h ++ [.response i c o]) = ended i h ++ [(c, o)] := by
  simp [ended_append, ended]

variable {i} {j : ι}

theorem begun_invoke_of_ne (hj : j ≠ i) : begun j (h ++ [.invoke i c]) = begun j h := by
  simp [begun_append, begun, Ne.symm hj]

theorem ended_response_of_ne (hj : j ≠ i) : ended j (h ++ [.response i c o]) = ended j h := by
  simp [ended_append, ended, Ne.symm hj]

end Lemmas

/-- The row `l` has the calls of `i` that have ended in `h`, in their order and with their outcomes,
and at most the one that is still going on after them. -/
def Accounts (h : List (Event ι κ ε β)) (l : List (ι × κ × Outcome ε β)) (i : ι) : Prop :=
  resultsOf l i = ended i h ∨
    ∃ c o, begun i h = (ended i h).map Prod.fst ++ [c] ∧ resultsOf l i = ended i h ++ [(c, o)]

/-- The calls of `h` in a row. `realTime` cuts the row at every moment of the history: what had ended
by then stands before the cut, and nothing stands there that had not begun. -/
structure Linearization (spec : Sequential κ ε β A) (a₀ : A) (h : List (Event ι κ ε β))
    (l : List (ι × κ × Outcome ε β)) (a : A) : Prop where
  legal : Legal spec a₀ l a
  results : ∀ i, Accounts h l i
  realTime : ∀ h₁, h₁ <+: h → ∃ l₁, l₁ <+: l ∧ ∀ i, Accounts h₁ l₁ i

/-! ## The canonical object -/

/-- Where a call is in the canonical object. -/
inductive Status (κ ε β : Type) where
  | idle
  | called (c : κ)
  | answered (c : κ) (o : Outcome ε β)

/-- The histories of the canonical object, with the calls in the order in which they took effect. -/
inductive Atomic (spec : Sequential κ ε β A) (a₀ : A) : List (Event ι κ ε β) →
    List (ι × κ × Outcome ε β) → (ι → Status κ ε β) → A → Prop where
  | init : Atomic spec a₀ [] [] (fun _ => .idle) a₀
  | invoke {h l st a} (i : ι) (c : κ) : Atomic spec a₀ h l st a → st i = .idle →
      Atomic spec a₀ (h ++ [.invoke i c]) l (update st i (.called c)) a
  | effect {h l st a} (i : ι) (c : κ) : Atomic spec a₀ h l st a → st i = .called c →
      Atomic spec a₀ h (l ++ [(i, c, (spec c a).1)]) (update st i (.answered c (spec c a).1))
        (spec c a).2
  | response {h l st a} (i : ι) (c : κ) (o : Outcome ε β) : Atomic spec a₀ h l st a →
      st i = .answered c o → Atomic spec a₀ (h ++ [.response i c o]) l (update st i .idle) a

/-- What the status of the caller `i` says of the history and of the row. -/
def Status.Explains (h : List (Event ι κ ε β)) (l : List (ι × κ × Outcome ε β)) (i : ι) :
    Status κ ε β → Prop
  | .idle => begun i h = (ended i h).map Prod.fst ∧ resultsOf l i = ended i h
  | .called c => begun i h = (ended i h).map Prod.fst ++ [c] ∧ resultsOf l i = ended i h
  | .answered c o =>
      begun i h = (ended i h).map Prod.fst ++ [c] ∧ resultsOf l i = ended i h ++ [(c, o)]

section Atomic

variable {spec : Sequential κ ε β A} {a₀ a : A} {h h' : List (Event ι κ ε β)}
  {l l' : List (ι × κ × Outcome ε β)} {st : ι → Status κ ε β} {i j : ι}

/-- What others do leaves it true. -/
theorem Status.Explains.of_eq {x : Status κ ε β} (hx : x.Explains h l i)
    (hbegun : begun i h' = begun i h) (hended : ended i h' = ended i h)
    (hresults : resultsOf l' i = resultsOf l i) : x.Explains h' l' i := by
  cases x with
  | idle => simpa only [Status.Explains, hbegun, hended, hresults] using hx
  | called c => simpa only [Status.Explains, hbegun, hended, hresults] using hx
  | answered c o => simpa only [Status.Explains, hbegun, hended, hresults] using hx

theorem Status.Explains.accounts {x : Status κ ε β} (hx : x.Explains h l i) : Accounts h l i := by
  cases x with
  | idle => exact .inl hx.2
  | called c => exact .inl hx.2
  | answered c o => exact .inr ⟨c, o, hx⟩

/-- The caller whose step it was, and the others. -/
theorem forall_explains_update {x : Status κ ε β} (hown : x.Explains h l i)
    (hothers : ∀ j, j ≠ i → (st j).Explains h l j) (j : ι) : (update st i x j).Explains h l j := by
  by_cases hj : j = i
  · subst hj
    simpa using hown
  · rw [update_of_ne hj]
    exact hothers j hj

theorem Atomic.explains (hat : Atomic spec a₀ h l st a) (i : ι) : (st i).Explains h l i := by
  induction hat generalizing i with
  | init => exact ⟨rfl, rfl⟩
  | @invoke h l st a k c _ hk ih =>
      have hidle := ih k
      rw [hk] at hidle
      obtain ⟨hbegun, hresults⟩ := hidle
      have hown : (Status.called c : Status κ ε β).Explains (h ++ [.invoke k c]) l k :=
        ⟨by simp [hbegun], by simpa using hresults⟩
      exact forall_explains_update hown (fun j hj =>
        (ih j).of_eq (begun_invoke_of_ne _ _ hj) (ended_invoke _ _ _ _) rfl) i
  | @effect h l st a k c _ hk ih =>
      have hcalled := ih k
      rw [hk] at hcalled
      obtain ⟨hbegun, hresults⟩ := hcalled
      have hown : (Status.answered c (spec c a).1).Explains h (l ++ [(k, c, (spec c a).1)]) k :=
        ⟨hbegun, by rw [resultsOf_snoc_self, hresults]⟩
      exact forall_explains_update hown (fun j hj =>
        (ih j).of_eq rfl rfl (resultsOf_snoc_of_ne _ hj _)) i
  | @response h l st a k c o _ hk ih =>
      have hanswered := ih k
      rw [hk] at hanswered
      obtain ⟨hbegun, hresults⟩ := hanswered
      have hown : (Status.idle : Status κ ε β).Explains (h ++ [.response k c o]) l k :=
        ⟨by simp [hbegun], by simpa using hresults⟩
      exact forall_explains_update hown (fun j hj =>
        (ih j).of_eq (begun_response _ _ _ _ _) (ended_response_of_ne _ _ _ hj) rfl) i

theorem Atomic.legal (hat : Atomic spec a₀ h l st a) : Legal spec a₀ l a := by
  induction hat with
  | init => exact .nil
  | invoke i c _ _ ih => exact ih
  | effect i c _ _ ih => exact ih.snoc i c
  | response i c o _ _ ih => exact ih

/-- The row at an earlier moment is a part of the row. -/
theorem Atomic.realTime (hat : Atomic spec a₀ h l st a) :
    ∀ h₁, h₁ <+: h → ∃ l₁, l₁ <+: l ∧ ∀ i, Accounts h₁ l₁ i := by
  have hnow : ∀ {h : List (Event ι κ ε β)} {l : List (ι × κ × Outcome ε β)}
      {st : ι → Status κ ε β} {a : A}, Atomic spec a₀ h l st a → ∀ i, Accounts h l i :=
    fun hat i => (hat.explains i).accounts
  induction hat with
  | init =>
      intro h₁ hpre
      obtain rfl := List.prefix_nil.mp hpre
      exact ⟨[], List.prefix_rfl, fun i => .inl rfl⟩
  | invoke i c hat hi ih =>
      intro h₁ hpre
      rcases List.prefix_concat_iff.mp hpre with rfl | hpre
      · exact ⟨_, List.prefix_rfl, hnow (hat.invoke i c hi)⟩
      · exact ih h₁ hpre
  | effect i c _ _ ih =>
      intro h₁ hpre
      obtain ⟨l₁, hl₁, hacc⟩ := ih h₁ hpre
      exact ⟨l₁, hl₁.trans (List.prefix_append _ _), hacc⟩
  | response i c o hat hi ih =>
      intro h₁ hpre
      rcases List.prefix_concat_iff.mp hpre with rfl | hpre
      · exact ⟨_, List.prefix_rfl, hnow (hat.response i c o hi)⟩
      · exact ih h₁ hpre

theorem Atomic.linearization (hat : Atomic spec a₀ h l st a) : Linearization spec a₀ h l a :=
  ⟨hat.legal, fun i => (hat.explains i).accounts, hat.realTime⟩

end Atomic

end Histories

/-! ## The steps of an object -/

/-- A step inside a call of the caller `i`. -/
inductive Program.Step (env : Shared I ι W) (i : ι) :
    Program I σ ε β → σ → W → Program I σ ε β → σ → W → Prop where
  | get (k : σ → Program I σ ε β) (s : σ) (w : W) : Step env i (.get k) s w (k s) s w
  | set (s' : σ) (k : Program I σ ε β) (s : σ) (w : W) : Step env i (.set s' k) s w k s' w
  | call {o : I.Op} (k : I.Ans o → Program I σ ε β) (s : σ) {w w' : W} {r : I.Ans o} :
      env i w o = some (r, w') → Step env i (.call o k) s w (k r) s w'

namespace Thread

variable {perform : κ → Program I σ ε β} {env : Shared I ι W} {i : ι} {t t' : Thread I σ ε β κ}
  {s s' : σ} {w w' : W}

/-- What a step of a caller can be: it begins a call, ends it, or goes on with it. -/
theorem step?_cases (hstep : t.step? perform env i s w = some (t', s', w')) :
    (∃ c cs, t.now = none ∧ t.todo = c :: cs ∧ s' = s ∧ w' = w ∧
      t' = { t with todo := cs, now := some (c, perform c) }) ∨
    (∃ c p o, t.now = some (c, p) ∧ p.outcome? = some o ∧ s' = s ∧ w' = w ∧
      t' = { t with now := none, done := t.done ++ [(c, o)] }) ∨
    (∃ c p p', t.now = some (c, p) ∧ p.outcome? = none ∧ p.Step env i s w p' s' w' ∧
      t' = { t with now := some (c, p') }) := by
  obtain ⟨todo, now, done⟩ := t
  cases now with
  | none =>
      cases todo with
      | nil => cases hstep
      | cons c cs =>
          obtain ⟨rfl, rfl, rfl⟩ : _ = t' ∧ s = s' ∧ w = w' := by simpa [step?] using hstep
          exact .inl ⟨c, cs, rfl, rfl, rfl, rfl, rfl⟩
  | some r =>
      obtain ⟨c, p⟩ := r
      cases p with
      | pure a =>
          obtain ⟨rfl, rfl, rfl⟩ : _ = t' ∧ s = s' ∧ w = w' := by simpa [step?] using hstep
          exact .inr (.inl ⟨c, _, .ok a, rfl, rfl, rfl, rfl, rfl⟩)
      | raise e =>
          obtain ⟨rfl, rfl, rfl⟩ : _ = t' ∧ s = s' ∧ w = w' := by simpa [step?] using hstep
          exact .inr (.inl ⟨c, _, .error e, rfl, rfl, rfl, rfl, rfl⟩)
      | spin => cases hstep
      | get k =>
          obtain ⟨rfl, rfl, rfl⟩ : _ = t' ∧ s = s' ∧ w = w' := by simpa [step?] using hstep
          exact .inr (.inr ⟨c, _, k s, rfl, rfl, .get k s w, rfl⟩)
      | set s₁ k =>
          obtain ⟨rfl, rfl, rfl⟩ : _ = t' ∧ s₁ = s' ∧ w = w' := by simpa [step?] using hstep
          exact .inr (.inr ⟨c, _, k, rfl, rfl, .set s₁ k s w, rfl⟩)
      | call o k =>
          obtain ⟨r, hr, heq⟩ := Option.map_eq_some_iff.mp hstep
          obtain ⟨rfl, rfl, rfl⟩ : _ = t' ∧ s = s' ∧ r.2 = w' := by simpa using heq
          exact .inr (.inr ⟨c, _, k r.1, rfl, rfl, .call k s hr, rfl⟩)

end Thread

namespace Config

/-- What a step of the caller `i` shows. -/
def shows (cfg : Config I σ ε β κ ι W) (i : ι) : List (Event ι κ ε β) :=
  match (cfg.threads i).now with
  | none => ((cfg.threads i).todo.take 1).map (.invoke i)
  | some (c, p) => p.outcome?.toList.map (.response i c)

/-- The histories of the runs from `start`, each with the configuration in which the run ends. -/
inductive Histories [DecidableEq ι] (perform : κ → Program I σ ε β) (env : Shared I ι W)
    (start : Config I σ ε β κ ι W) : List (Event ι κ ε β) → Config I σ ε β κ ι W → Prop where
  | nil : Histories perform env start [] start
  | step {h cfg cfg'} (i : ι) : Histories perform env start h cfg →
      cfg.step? perform env i = some cfg' → Histories perform env start (h ++ cfg.shows i) cfg'

/-- The history of a schedule. -/
def historyOf [DecidableEq ι] (perform : κ → Program I σ ε β) (env : Shared I ι W) :
    List ι → Config I σ ε β κ ι W → Option (List (Event ι κ ε β) × Config I σ ε β κ ι W)
  | [], cfg => some ([], cfg)
  | i :: is, cfg => do
      let cfg' ← cfg.step? perform env i
      let r ← historyOf perform env is cfg'
      return (cfg.shows i ++ r.1, r.2)

variable [DecidableEq ι] {perform : κ → Program I σ ε β} {env : Shared I ι W}
  {start cfg : Config I σ ε β κ ι W} {h : List (Event ι κ ε β)}

theorem Histories.of_historyOf {is : List ι} {cfg' : Config I σ ε β κ ι W}
    {h' : List (Event ι κ ε β)} (hist : Histories perform env start h cfg)
    (hrun : historyOf perform env is cfg = some (h', cfg')) :
    Histories perform env start (h ++ h') cfg' := by
  induction is generalizing cfg h h' with
  | nil =>
      obtain ⟨rfl, rfl⟩ : [] = h' ∧ cfg = cfg' := by simpa [historyOf] using hrun
      simpa using hist
  | cons i is ih =>
      rw [historyOf] at hrun
      obtain ⟨mid, hstep, hrest⟩ := Option.bind_eq_some_iff.mp hrun
      obtain ⟨r, hr, heq⟩ := Option.bind_eq_some_iff.mp hrest
      obtain ⟨rfl, rfl⟩ : cfg.shows i ++ r.1 = h' ∧ r.2 = cfg' := by simpa using heq
      rw [← List.append_assoc]
      exact ih (hist.step i hstep) hr

end Config

/-! ## Where a call takes effect -/

/-- Where a caller is, and the rest of its call: before the call takes effect, or after. -/
inductive Phase (I : Interface) (σ ε β κ : Type) where
  | idle
  | pending (c : κ) (p : Program I σ ε β)
  | settled (c : κ) (o : Outcome ε β) (p : Program I σ ε β)

namespace Phase

def status : Phase I σ ε β κ → Status κ ε β
  | .idle => .idle
  | .pending c _ => .called c
  | .settled c o _ => .answered c o

def now : Phase I σ ε β κ → Option (κ × Program I σ ε β)
  | .idle => none
  | .pending c p => some (c, p)
  | .settled c _ p => some (c, p)

end Phase

/-- The calls `K` of an object take effect at once: `Sim` relates the shared state and where each
caller is to the state `a` of the sequential object, and every step keeps it. -/
structure Atomicity [DecidableEq ι] (perform : κ → Program I σ ε β) (env : Shared I ι W)
    (spec : Sequential κ ε β A) (K : κ → Prop)
    (Sim : (ι → Phase I σ ε β κ) → σ → W → A → Prop) : Prop where
  invoke : ∀ ph s w a i c, Sim ph s w a → ph i = .idle → K c →
    Sim (update ph i (.pending c (perform c))) s w a
  pending : ∀ ph s w a i c p p' s' w', Sim ph s w a → ph i = .pending c p →
    p.Step env i s w p' s' w' → Sim (update ph i (.pending c p')) s' w' a ∨
      Sim (update ph i (.settled c (spec c a).1 p')) s' w' (spec c a).2
  settled : ∀ ph s w a i c o p p' s' w', Sim ph s w a → ph i = .settled c o p →
    p.Step env i s w p' s' w' → Sim (update ph i (.settled c o p')) s' w' a
  pending_end : ∀ ph s w a i c p o, Sim ph s w a → ph i = .pending c p → p.outcome? = some o →
    (spec c a).1 = o ∧ Sim (update ph i .idle) s w (spec c a).2
  settled_end : ∀ ph s w a i c o p o', Sim ph s w a → ph i = .settled c o p →
    p.outcome? = some o' → o = o' ∧ Sim (update ph i .idle) s w a

section Atomicity

variable [DecidableEq ι] {perform : κ → Program I σ ε β} {env : Shared I ι W}
  {spec : Sequential κ ε β A} {K : κ → Prop} {Sim : (ι → Phase I σ ε β κ) → σ → W → A → Prop}

/-- A run, the run of the canonical object that shows the same, and where each caller is. -/
structure Tracks (spec : Sequential κ ε β A) (K : κ → Prop)
    (Sim : (ι → Phase I σ ε β κ) → σ → W → A → Prop) (a₀ : A) (h : List (Event ι κ ε β))
    (cfg : Config I σ ε β κ ι W) (l : List (ι × κ × Outcome ε β)) (ph : ι → Phase I σ ε β κ)
    (a : A) : Prop where
  todo : ∀ i, ∀ c ∈ (cfg.threads i).todo, K c
  now : ∀ i, (cfg.threads i).now = (ph i).now
  atomic : Atomic spec a₀ h l (Phase.status ∘ ph) a
  sim : Sim ph cfg.state cfg.world a

variable {a₀ a : A} {h : List (Event ι κ ε β)} {cfg cfg' : Config I σ ε β κ ι W}
  {l : List (ι × κ × Outcome ε β)} {ph : ι → Phase I σ ε β κ} {i : ι}

/-- A caller whose call has ended is between two calls, whether it had taken effect or not. -/
theorem Tracks.finish (hat : Atomicity perform env spec K Sim)
    (htr : Tracks spec K Sim a₀ h cfg l ph a) {c : κ} {p : Program I σ ε β} {o : Outcome ε β}
    (hnow : (cfg.threads i).now = some (c, p)) (ho : p.outcome? = some o) :
    ∃ l a, Atomic spec a₀ (h ++ [.response i c o]) l (Phase.status ∘ update ph i .idle) a ∧
      Sim (update ph i .idle) cfg.state cfg.world a := by
  rw [htr.now i] at hnow
  cases hph : ph i with
  | idle => simp [hph, Phase.now] at hnow
  | pending c' p' =>
      obtain ⟨rfl, rfl⟩ : c' = c ∧ p' = p := by simpa [hph, Phase.now] using hnow
      obtain ⟨hspec, hsim⟩ := hat.pending_end _ _ _ _ _ _ _ _ htr.sim hph ho
      have hcalled : (Phase.status ∘ ph) i = .called c' := by simp [hph, Phase.status]
      have heffect := htr.atomic.effect i c' hcalled
      have hend := heffect.response i c' o (by simp [hspec])
      rw [update_idem] at hend
      exact ⟨_, _, by rwa [comp_update], hsim⟩
  | settled c' o' p' =>
      obtain ⟨rfl, rfl⟩ : c' = c ∧ p' = p := by simpa [hph, Phase.now] using hnow
      obtain ⟨rfl, hsim⟩ := hat.settled_end _ _ _ _ _ _ _ _ _ htr.sim hph ho
      have hanswered : (Phase.status ∘ ph) i = .answered c' o' := by simp [hph, Phase.status]
      refine ⟨l, a, ?_, hsim⟩
      rw [comp_update]
      exact htr.atomic.response i c' o' hanswered

/-- A step inside a call is no step of the canonical object, or the one in which the call takes
effect. -/
theorem Tracks.advance (hat : Atomicity perform env spec K Sim)
    (htr : Tracks spec K Sim a₀ h cfg l ph a) {c : κ} {p p' : Program I σ ε β} {s' : σ} {w' : W}
    (hnow : (cfg.threads i).now = some (c, p)) (hstep : p.Step env i cfg.state cfg.world p' s' w') :
    ∃ l x a, x.now = some (c, p') ∧ Atomic spec a₀ h l (Phase.status ∘ update ph i x) a ∧
      Sim (update ph i x) s' w' a := by
  rw [htr.now i] at hnow
  cases hph : ph i with
  | idle => simp [hph, Phase.now] at hnow
  | pending c' q =>
      obtain ⟨rfl, rfl⟩ : c' = c ∧ q = p := by simpa [hph, Phase.now] using hnow
      have hcalled : (Phase.status ∘ ph) i = .called c' := by simp [hph, Phase.status]
      rcases hat.pending _ _ _ _ _ _ _ _ _ _ htr.sim hph hstep with hsim | hsim
      · refine ⟨l, _, a, rfl, ?_, hsim⟩
        rw [comp_update, Phase.status, ← hcalled, update_eq_self]
        exact htr.atomic
      · refine ⟨l ++ [(i, c', (spec c' a).1)], _, _, rfl, ?_, hsim⟩
        rw [comp_update]
        exact htr.atomic.effect i c' hcalled
  | settled c' o q =>
      obtain ⟨rfl, rfl⟩ : c' = c ∧ q = p := by simpa [hph, Phase.now] using hnow
      have hanswered : (Phase.status ∘ ph) i = .answered c' o := by simp [hph, Phase.status]
      refine ⟨l, _, a, rfl, ?_, hat.settled _ _ _ _ _ _ _ _ _ _ _ htr.sim hph hstep⟩
      rw [comp_update, Phase.status, ← hanswered, update_eq_self]
      exact htr.atomic

theorem Tracks.step (hat : Atomicity perform env spec K Sim)
    (htr : Tracks spec K Sim a₀ h cfg l ph a) (hstep : cfg.step? perform env i = some cfg') :
    ∃ l ph a, Tracks spec K Sim a₀ (h ++ cfg.shows i) cfg' l ph a := by
  obtain ⟨⟨t', s', w'⟩, hthread, rfl⟩ := Option.map_eq_some_iff.mp hstep
  have hothers : ∀ {t : Thread I σ ε β κ} {x : Phase I σ ε β κ}, t.now = x.now →
      ∀ j, (update cfg.threads i t j).now = (update ph i x j).now := by
    intro t x hown j
    by_cases hj : j = i
    · subst hj
      simpa using hown
    · simpa [update_of_ne hj] using htr.now j
  have htodo : ∀ {t : Thread I σ ε β κ}, (∀ c ∈ t.todo, K c) →
      ∀ j, ∀ c ∈ (update cfg.threads i t j).todo, K c := by
    intro t hown
    rw [forall_update_iff cfg.threads fun _ t => ∀ c ∈ t.todo, K c]
    exact ⟨hown, fun j _ => htr.todo j⟩
  obtain ⟨c, cs, hnow, hcalls, rfl, rfl, rfl⟩ | ⟨c, p, o, hnow, ho, rfl, rfl, rfl⟩ |
    ⟨c, p, p', hnow, ho, hinside, rfl⟩ := Thread.step?_cases hthread
  · have hK := htr.todo i
    rw [hcalls] at hK
    have hidle : ph i = .idle := by
      have hph := htr.now i
      rw [hnow] at hph
      cases hx : ph i with
      | idle => rfl
      | pending c p => simp [hx, Phase.now] at hph
      | settled c o p => simp [hx, Phase.now] at hph
    refine ⟨l, _, a, htodo fun c' hc' => hK c' (List.mem_cons_of_mem c hc'), hothers rfl, ?_,
      hat.invoke _ _ _ _ _ _ htr.sim hidle (hK c List.mem_cons_self)⟩
    rw [comp_update, Config.shows, hnow, hcalls]
    exact htr.atomic.invoke i c (by simp [hidle, Phase.status])
  · obtain ⟨l, a, hatomic, hsim⟩ := htr.finish hat hnow ho
    refine ⟨l, _, a, htodo (htr.todo i), hothers rfl, ?_, hsim⟩
    rw [Config.shows, hnow]
    simpa [ho] using hatomic
  · obtain ⟨l, x, a, hx, hatomic, hsim⟩ := htr.advance hat hnow hinside
    refine ⟨l, _, a, htodo (htr.todo i), hothers hx.symm, ?_, hsim⟩
    rw [Config.shows, hnow]
    simpa [ho] using hatomic

theorem tracks_of_histories (hat : Atomicity perform env spec K Sim) {todo : ι → List κ}
    (htodo : ∀ i, ∀ c ∈ todo i, K c) {s : σ} {w : W} (hinit : Sim (fun _ => .idle) s w a₀)
    (hist : Config.Histories perform env (.start todo s w) h cfg) :
    ∃ l ph a, Tracks spec K Sim a₀ h cfg l ph a := by
  induction hist with
  | nil => exact ⟨[], _, a₀, htodo, fun _ => rfl, .init, hinit⟩
  | step i _ hstep ih =>
      obtain ⟨l, ph, a, htr⟩ := ih
      exact htr.step hat hstep

/-- **Every history of such an object is linearizable**, and the state in which the calls in a row
leave the sequential object is the one that `Sim` relates to the shared state. -/
theorem Atomicity.linearizable (hat : Atomicity perform env spec K Sim) {todo : ι → List κ}
    (htodo : ∀ i, ∀ c ∈ todo i, K c) {s : σ} {w : W} (hinit : Sim (fun _ => .idle) s w a₀)
    (hist : Config.Histories perform env (.start todo s w) h cfg) :
    ∃ l ph a, Linearization spec a₀ h l a ∧ (∀ i, (cfg.threads i).now = (ph i).now) ∧
      Sim ph cfg.state cfg.world a := by
  obtain ⟨l, ph, a, htr⟩ := tracks_of_histories hat htodo hinit hist
  exact ⟨l, ph, a, htr.atomic.linearization, htr.now, htr.sim⟩

end Atomicity

end GufoBlob.Interaction
