import Wfde.Lib.Effect

/-!
# Two runs of a program

Rules for `EStateM` that compare two runs of one program, started in related states: they return or
throw the same and leave related states. What a program returns may depend only on what related
states have in common.
-/

namespace Effect

universe u

variable {ε σ α β : Type u}

/-- Both runs return the same value, which satisfies `p`, or throw the same exception, and leave
related states. -/
def ParallelAt (r : σ → σ → Prop) (p : α → Prop) (x : EStateM ε σ α) (s t : σ) : Prop :=
  match x.run s, x.run t with
  | .ok a s', .ok b t' => a = b ∧ p a ∧ r s' t'
  | .error e s', .error e' t' => e = e' ∧ r s' t'
  | _, _ => False

def Parallel (r : σ → σ → Prop) (p : α → Prop) (x : EStateM ε σ α) : Prop :=
  ∀ s t, r s t → ParallelAt r p x s t

variable {r : σ → σ → Prop} {p : α → Prop} {q : β → Prop} {x : EStateM ε σ α}
  {f : α → EStateM ε σ β}

theorem ParallelAt.after {s t : σ} (h : ParallelAt r p x s t) : r (after x s) (after x t) := by
  unfold ParallelAt at h
  unfold Effect.after
  cases hs : x.run s <;> cases ht : x.run t <;> simp only [hs, ht] at h ⊢
  · exact h.2.2
  · exact h.2

theorem Parallel.after (h : Parallel r p x) {s t : σ} (hst : r s t) : r (after x s) (after x t) :=
  (h s t hst).after

theorem ParallelAt.imp {r' : σ → σ → Prop} {p' : α → Prop} {s t : σ} (h : ParallelAt r p x s t)
    (hp : ∀ a, p a → p' a) (hr : ∀ s t, r s t → r' s t) : ParallelAt r' p' x s t := by
  unfold ParallelAt at h ⊢
  cases hs : x.run s <;> cases ht : x.run t <;> simp only [hs, ht] at h ⊢
  · exact ⟨h.1, hp _ h.2.1, hr _ _ h.2.2⟩
  · exact ⟨h.1, hr _ _ h.2⟩

theorem Parallel.imp {p' : α → Prop} (h : Parallel r p x) (hp : ∀ a, p a → p' a) :
    Parallel r p' x := fun s t hst => (h s t hst).imp hp fun _ _ => id

/-- From states that are in a stronger relation, which the program keeps. -/
theorem Parallel.of_stronger {r' : σ → σ → Prop} (h : Parallel r' p x)
    (hle : ∀ s t, r' s t → r s t) {s t : σ} (hst : r' s t) : ParallelAt r p x s t :=
  (h s t hst).imp (fun _ => id) hle

theorem parallel_pure {a : α} (h : p a) : Parallel r p (pure a : EStateM ε σ α) :=
  fun _ _ hst => ⟨rfl, h, hst⟩

theorem parallel_throw (e : ε) : Parallel r p (throw e : EStateM ε σ α) :=
  fun _ _ hst => ⟨rfl, hst⟩

theorem parallel_require (condition : Bool) (e : ε) :
    Parallel r (fun _ => condition = true) (require condition e : EStateM ε σ PUnit) := by
  cases condition with
  | true => exact parallel_pure rfl
  | false => exact parallel_throw e

theorem parallel_lift (y : Except ε α) : Parallel r (fun a => y = .ok a) (lift y : EStateM ε σ α) := by
  cases y with
  | ok a => exact parallel_pure rfl
  | error e => exact parallel_throw e

theorem parallel_modify {f : σ → σ} (h : ∀ s t, r s t → r (f s) (f t)) :
    Parallel r (fun _ => True) (modify f : EStateM ε σ PUnit) :=
  fun s t hst => ⟨rfl, trivial, h s t hst⟩

theorem parallel_bind (hx : Parallel r p x) (hf : ∀ a, p a → Parallel r q (f a)) :
    Parallel r q (x >>= f) := by
  intro s t hst
  have hruns := hx s t hst
  unfold ParallelAt at hruns ⊢
  rw [EStateM.run_bind, EStateM.run_bind]
  cases hs : x.run s <;> cases ht : x.run t <;> simp only [hs, ht] at hruns ⊢
  · obtain ⟨rfl, hp, hrest⟩ := hruns
    exact hf _ hp _ _ hrest
  · exact hruns

/-- What the rest makes of the state must be the same for both. -/
theorem parallel_get_at {f : σ → EStateM ε σ β} (hsame : ∀ s t, r s t → f t = f s)
    (hf : ∀ s t, r s t → ParallelAt r q (f s) s t) : Parallel r q (get >>= f) := by
  intro s t hst
  have hrest := hf s t hst
  unfold ParallelAt at hrest ⊢
  rw [EStateM.run_bind, EStateM.run_bind, EStateM.run_get, EStateM.run_get]
  dsimp only
  rw [hsame s t hst]
  exact hrest

theorem parallel_get {f : σ → EStateM ε σ β} (hsame : ∀ s t, r s t → f t = f s)
    (hf : ∀ s t, r s t → Parallel r q (f s)) : Parallel r q (get >>= f) :=
  parallel_get_at hsame fun s t hst => hf s t hst s t hst

theorem parallel_ite {condition : Prop} [Decidable condition] {y : EStateM ε σ α}
    (hx : condition → Parallel r p x) (hy : ¬ condition → Parallel r p y) :
    Parallel r p (if condition then x else y) := by
  split
  · exact hx ‹_›
  · exact hy ‹_›

theorem parallel_tryCatch {handle : ε → EStateM ε σ α} (hx : Parallel r p x)
    (hhandle : ∀ e, Parallel r p (handle e)) : Parallel r p (tryCatch x handle) := by
  intro s t hst
  have hruns := hx s t hst
  unfold ParallelAt at hruns ⊢
  cases hs : x.run s with
  | ok a s' =>
      cases ht : x.run t with
      | ok b t' =>
          rw [hs, ht] at hruns
          rw [tryCatch_of_ok hs, tryCatch_of_ok ht]
          exact hruns
      | error e t' => simp [hs, ht] at hruns
  | error e s' =>
      cases ht : x.run t with
      | ok b t' => simp [hs, ht] at hruns
      | error e' t' =>
          rw [hs, ht] at hruns
          obtain ⟨rfl, hrest⟩ := hruns
          rw [tryCatch_of_error hs, tryCatch_of_error ht]
          exact hhandle e s' t' hrest

/-- A program that never throws and returns nothing is known by the state it leaves. -/
theorem parallel_of_returns {x : EStateM ε σ PUnit} (hx : Returns x)
    (h : ∀ s t, r s t → r (Effect.after x s) (Effect.after x t)) : Parallel r (fun _ => True) x := by
  intro s t hst
  obtain ⟨_, s', hs⟩ := hx s
  obtain ⟨_, t', ht⟩ := hx t
  have hleft := h s t hst
  rw [after_of_ok hs, after_of_ok ht] at hleft
  simp only [ParallelAt, hs, ht]
  exact ⟨trivial, trivial, hleft⟩

end Effect
