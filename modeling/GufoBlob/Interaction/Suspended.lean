import GufoBlob.Interaction.Unless

/-!
# Suspended generators

A caller may stop a generator at a `yield`, make other calls, and resume it later. `next` is what
one resumption runs, and `Interleaved` is the closure of calls and resumptions: the states that an
object can be in while its caller holds suspended generators.

* `Resumable` — wherever the generator hands over, `J` holds, and it may be resumed in any state in
  which `J` holds. It follows the text of the generator (`resumable_generative`).
* `Interleaved.invariant` — when every call keeps `J` and every generator is resumable, `J` holds at
  every call and at every yield.
-/

namespace GufoBlob.Interaction

namespace Program

variable {I : Interface} {σ ε α β W κ ι δ : Type}

/-- `next(generator)`: the value that is yielded and the rest of the generator, or `none` at its
end. -/
def next : Gen I σ ε δ Unit → Program I σ ε (Option (δ × Gen I σ ε δ Unit))
  | .pure _ => .pure none
  | .raise e => .raise e
  | .spin => .spin
  | .get k => .get fun s => (k s).next
  | .set s k => .set s k.next
  | .call (.inl o) k => .call o fun r => (k r).next
  | .call (.inr x) k => .pure (some (x, k ()))

/-! ## Resumable generators -/

section Resumable

variable (h : Handler I W) (J : σ → W → Prop) (K : W → Prop)

/-- From here on, `J` holds wherever the generator hands over, whatever the caller does in between
that keeps `J`. Of a loop that never ends only `K` is known. -/
def HandsOver : Gen I σ ε δ Unit → σ → W → Prop
  | .pure _, s, w => J s w
  | .raise _, s, w => J s w
  | .spin, _, w => K w
  | .get k, s, w => HandsOver (k s) s w
  | .set s k, _, w => HandsOver k s w
  | .call (.inl o) k, s, w => HandsOver (k (h w o).1) s (h w o).2
  | .call (.inr _) k, s, w => J s w ∧ ∀ s' w', J s' w' → HandsOver (k ()) s' w'

/-- The generator may be resumed in every state in which `J` holds. -/
def Resumable (g : Gen I σ ε δ Unit) : Prop := ∀ s w, J s w → HandsOver h J K g s w

/-- What a resumption leaves. -/
def nextPost : Outcome ε (Option (δ × Gen I σ ε δ Unit)) → σ → W → Prop
  | .ok none => J
  | .ok (some x) => fun s w => J s w ∧ Resumable h J K x.2
  | .error _ => J
  | .spun => fun _ w => K w

variable {h J K}

theorem wp_next {g : Gen I σ ε δ Unit} {s : σ} {w : W} (hg : HandsOver h J K g s w) :
    wp h g.next (nextPost h J K) s w := by
  induction g generalizing s w with
  | pure a => exact hg
  | raise e => exact hg
  | spin => exact hg
  | get k ih => exact ih s hg
  | set s' k ih => exact ih hg
  | call o k ih =>
      cases o with
      | inl o => exact ih _ hg
      | inr x => exact hg

/-- `p` keeps `J`, or `K` when it never ends. -/
def Maintains (h : Handler I W) (J : σ → W → Prop) (K : W → Prop) (p : Program I σ ε α) : Prop :=
  ∀ s w, J s w → wp h p (afterwards J K) s w

/-- A failure of the environment may be a part of what is kept. -/
theorem maintains_of_keepsUnless {B : W → Prop} (hB : ∀ w o, B w → B (h w o).2)
    {p : Program I σ ε α} (hp : KeepsUnless h B J K p) :
    Maintains h (fun s w => B w ∨ J s w) (fun w => B w ∨ K w) p := by
  rintro s w (hw | hJ)
  · apply wp_mono (preserves_of_stable hB p s w hw)
    rintro (a | e | _) s' w' hw' <;> exact .inl hw'
  · apply wp_mono (hp s w hJ)
    rintro (a | e | _) s' w' ho <;> exact ho

/-- Code that yields nothing, and a generator after it. -/
theorem resumable_embed_bind {p : Program I σ ε α} {f : α → Gen I σ ε δ Unit}
    (hp : Maintains h J K p) (hf : ∀ a, Resumable h J K (f a)) :
    Resumable h J K (p.embed.bind f) := by
  intro s w hJ
  have hstart := hp s w hJ
  clear hp hJ
  induction p generalizing s w with
  | pure a => exact hf a s w hstart
  | raise e => exact hstart
  | spin => exact hstart
  | get k ih => exact ih s s w hstart
  | set s' k ih => exact ih s' w hstart
  | call o k ih => exact ih _ s _ hstart

theorem resumable_bind {p r : Gen I σ ε δ Unit} (hp : Resumable h J K p)
    (hr : Resumable h J K r) : Resumable h J K (p.bind fun _ => r) := by
  have hover : ∀ (p : Gen I σ ε δ Unit) s w, HandsOver h J K p s w →
      HandsOver h J K (p.bind fun _ => r) s w := by
    intro p
    induction p with
    | pure a => exact fun s w hJ => hr s w hJ
    | raise e => exact fun _ _ hJ => hJ
    | spin => exact fun _ _ hK => hK
    | get k ih => exact fun s w hk => ih s s w hk
    | set s' k ih => exact fun _ w hk => ih s' w hk
    | call o k ih =>
        cases o with
        | inl o => exact fun s w hk => ih _ s _ hk
        | inr x => exact fun s w hk => ⟨hk.1, fun s' w' hJ => ih () s' w' (hk.2 s' w' hJ)⟩
  exact fun s w hJ => hover p s w (hp s w hJ)

/-- A generator is resumable when the pieces between its yields keep `J`. -/
theorem resumable_generative (h : Handler I W) (J : σ → W → Prop) (K : W → Prop) :
    Generative (Maintains h J K (ε := ε)) (Resumable h J K (δ := δ)) where
  pure _ _ hJ := hJ
  raise _ _ _ hJ := hJ
  yield _ _ _ hJ := ⟨hJ, fun _ _ hJ => hJ⟩
  embed_bind := resumable_embed_bind
  bind := resumable_bind

end Resumable

/-! ## Calls between the resumptions -/

section Interleaved

variable {h : Handler I W} {perform : κ → Program I σ ε β} {generate : ι → Gen I σ ε δ Unit}
  {init : σ → W → Prop}

/-- The states between two steps of a caller: it makes a call, creates a generator, resumes one of
those that it holds until that yields, returns or raises, or drops one. -/
inductive Interleaved (h : Handler I W) (perform : κ → Program I σ ε β)
    (generate : ι → Gen I σ ε δ Unit) (init : σ → W → Prop) :
    σ → W → List (Gen I σ ε δ Unit) → Prop where
  | init {s w} : init s w → Interleaved h perform generate init s w []
  | call {s w gs} (c : κ) : Interleaved h perform generate init s w gs →
      ((perform c).run h s w).1 ≠ .spun →
      Interleaved h perform generate init ((perform c).run h s w).2.1 ((perform c).run h s w).2.2 gs
  | create {s w gs} (i : ι) : Interleaved h perform generate init s w gs →
      Interleaved h perform generate init s w (generate i :: gs)
  | yielded {s w gs₁ g gs₂ x} : Interleaved h perform generate init s w (gs₁ ++ g :: gs₂) →
      (g.next.run h s w).1 = .ok (some x) →
      Interleaved h perform generate init (g.next.run h s w).2.1 (g.next.run h s w).2.2
        (gs₁ ++ x.2 :: gs₂)
  | ended {s w gs₁ g gs₂} : Interleaved h perform generate init s w (gs₁ ++ g :: gs₂) →
      (g.next.run h s w).1 ≠ .spun → (∀ x, (g.next.run h s w).1 ≠ .ok (some x)) →
      Interleaved h perform generate init (g.next.run h s w).2.1 (g.next.run h s w).2.2 (gs₁ ++ gs₂)
  | dropped {s w gs₁ g gs₂} : Interleaved h perform generate init s w (gs₁ ++ g :: gs₂) →
      Interleaved h perform generate init s w (gs₁ ++ gs₂)

/-- What every call keeps, and every generator whenever it hands over, always holds. -/
theorem Interleaved.invariant {J : σ → W → Prop} {K : W → Prop}
    (hinit : ∀ s w, init s w → J s w) (hcall : ∀ c, Maintains h J K (perform c))
    (hgen : ∀ i, Resumable h J K (generate i)) {s : σ} {w : W} {gs : List (Gen I σ ε δ Unit)}
    (hr : Interleaved h perform generate init s w gs) :
    J s w ∧ ∀ g ∈ gs, Resumable h J K g := by
  induction hr with
  | init h0 => exact ⟨hinit _ _ h0, by simp⟩
  | @call s w gs c _ hne ih =>
      have hkept := hcall c s w ih.1
      unfold wp at hkept
      refine ⟨?_, ih.2⟩
      cases ho : ((perform c).run h s w).1 with
      | ok a => rwa [ho] at hkept
      | error e => rwa [ho] at hkept
      | spun => exact absurd ho hne
  | create i _ ih =>
      refine ⟨ih.1, fun g hg => ?_⟩
      rcases List.mem_cons.mp hg with rfl | hg
      · exact hgen i
      · exact ih.2 g hg
  | @yielded s w gs₁ g gs₂ x _ hx ih =>
      have hnext := wp_next (ih.2 g (by simp) s w ih.1)
      unfold wp at hnext
      rw [hx] at hnext
      refine ⟨hnext.1, fun g' hg' => ?_⟩
      rcases List.mem_append.mp hg' with hg' | hg'
      · exact ih.2 g' (by simp [hg'])
      · rcases List.mem_cons.mp hg' with rfl | hg'
        · exact hnext.2
        · exact ih.2 g' (by simp [hg'])
  | @ended s w gs₁ g gs₂ _ hne hend ih =>
      have hnext := wp_next (ih.2 g (by simp) s w ih.1)
      unfold wp at hnext
      refine ⟨?_, fun g' hg' => ih.2 g' ?_⟩
      · cases ho : (g.next.run h s w).1 with
        | ok x =>
            cases x with
            | none => rwa [ho] at hnext
            | some x => exact absurd ho (hend x)
        | error e => rwa [ho] at hnext
        | spun => exact absurd ho hne
      · rcases List.mem_append.mp hg' with hg' | hg' <;> simp [hg']
  | @dropped s w gs₁ g gs₂ _ ih =>
      refine ⟨ih.1, fun g' hg' => ih.2 g' ?_⟩
      rcases List.mem_append.mp hg' with hg' | hg' <;> simp [hg']

end Interleaved

end Program

end GufoBlob.Interaction
