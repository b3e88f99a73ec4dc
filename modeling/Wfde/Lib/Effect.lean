import Mathlib.Order.Defs.Unbundled

/-!
# Programs with a state and exceptions

Rules for `EStateM`, in which an exception leaves the state as it is: what a run that returned says
about its parts, and a relation between the state before and the state after that every part of a
program keeps.
-/

namespace Effect

universe u

variable {ε σ α β : Type u}

/-- Throws unless the condition holds. -/
def require (condition : Bool) (e : ε) : EStateM ε σ PUnit :=
  if condition then pure ⟨⟩ else throw e

/-- Throws what a pure computation throws. -/
def lift : Except ε α → EStateM ε σ α
  | .ok a => pure a
  | .error e => throw e

section Returned

variable {x : EStateM ε σ α} {f : α → EStateM ε σ β} {s t : σ}

theorem bind_eq_ok {b : β} : (x >>= f).run s = .ok b t
    ↔ ∃ a u, x.run s = .ok a u ∧ (f a).run u = .ok b t := by
  rw [EStateM.run_bind]
  cases x.run s with
  | ok a u =>
      constructor
      · intro h
        exact ⟨a, u, rfl, h⟩
      · rintro ⟨_, _, hrun, h⟩
        cases hrun
        exact h
  | error e u => simp

theorem run_bind_of_ok {a : α} {s t : σ} (h : x.run s = .ok a t) : (x >>= f).run s = (f a).run t := by
  rw [EStateM.run_bind, h]

theorem run_bind_congr {g : α → EStateM ε σ β}
    (h : ∀ a t, x.run s = .ok a t → (f a).run t = (g a).run t) :
    (x >>= f).run s = (x >>= g).run s := by
  rw [EStateM.run_bind, EStateM.run_bind]
  cases hrun : x.run s with
  | ok a t => exact h a t hrun
  | error e t => rfl

@[simp]
theorem pure_eq_ok {a b : α} : (pure a : EStateM ε σ α).run s = .ok b t ↔ a = b ∧ s = t := by
  simp [EStateM.run_pure]

@[simp]
theorem throw_eq_ok {e : ε} {a : α} : ¬ (throw e : EStateM ε σ α).run s = .ok a t :=
  nofun

@[simp]
theorem require_eq_ok {condition : Bool} {e : ε} {u : PUnit} :
    (require condition e : EStateM ε σ PUnit).run s = .ok u t ↔ condition = true ∧ s = t := by
  cases condition with
  | true => simp [require]
  | false => simp [require]

@[simp]
theorem lift_eq_ok {y : Except ε α} {a : α} :
    (lift y : EStateM ε σ α).run s = .ok a t ↔ y = .ok a ∧ s = t := by
  cases y with
  | ok b => simp [lift]
  | error e => simp [lift]

end Returned

/-- The state a run leaves, however it ends. -/
def after (x : EStateM ε σ α) (s : σ) : σ :=
  match x.run s with
  | .ok _ t => t
  | .error _ t => t

theorem after_of_ok {x : EStateM ε σ α} {s t : σ} {a : α} (h : x.run s = .ok a t) :
    after x s = t := by
  rw [after, h]

theorem after_of_error {x : EStateM ε σ α} {s t : σ} {e : ε} (h : x.run s = .error e t) :
    after x s = t := by
  rw [after, h]

theorem after_bind (x : EStateM ε σ α) (f : α → EStateM ε σ β) (s : σ) :
    after (x >>= f) s = match x.run s with
      | .ok a t => after (f a) t
      | .error _ t => t := by
  rw [after, EStateM.run_bind]
  cases x.run s with
  | ok a t => rfl
  | error e t => rfl

theorem after_bind_of_ok {x : EStateM ε σ α} {f : α → EStateM ε σ β} {s t : σ} {a : α}
    (h : x.run s = .ok a t) : after (x >>= f) s = after (f a) t := by
  rw [after_bind, h]

section TryCatch

variable {x : EStateM ε σ α} {handle : ε → EStateM ε σ α} {s t : σ}

theorem tryCatch_of_ok {a : α} (h : x.run s = .ok a t) : (tryCatch x handle).run s = .ok a t := by
  change EStateM.tryCatch x handle s = _
  delta EStateM.tryCatch
  rw [show x s = .ok a t from h]

theorem tryCatch_of_error {e : ε} (h : x.run s = .error e t) :
    (tryCatch x handle).run s = (handle e).run t := by
  change EStateM.tryCatch x handle s = _
  delta EStateM.tryCatch
  rw [show x s = .error e t from h]
  rfl

theorem run_tryCatch_congr {y : EStateM ε σ α} (h : x.run s = y.run s) :
    (tryCatch x handle).run s = (tryCatch y handle).run s := by
  cases hrun : y.run s with
  | ok a t => rw [tryCatch_of_ok hrun, tryCatch_of_ok (h.trans hrun)]
  | error e t => rw [tryCatch_of_error hrun, tryCatch_of_error (h.trans hrun)]

end TryCatch

/-- A relation between the state before and after every run. -/
def Keeps (r : σ → σ → Prop) (x : EStateM ε σ α) : Prop := ∀ s, r s (after x s)

section Keeps

variable {r : σ → σ → Prop}

theorem keeps_pure [Std.Refl r] (a : α) : Keeps r (pure a : EStateM ε σ α) := fun s => Std.Refl.refl s

theorem keeps_throw [Std.Refl r] (e : ε) : Keeps r (throw e : EStateM ε σ α) := fun s => Std.Refl.refl s

theorem keeps_get [Std.Refl r] : Keeps r (get : EStateM ε σ σ) := fun s => Std.Refl.refl s

theorem keeps_require [Std.Refl r] (condition : Bool) (e : ε) :
    Keeps r (require condition e : EStateM ε σ PUnit) := by
  cases condition with
  | true => exact keeps_pure _
  | false => exact keeps_throw e

theorem keeps_lift [Std.Refl r] (y : Except ε α) : Keeps r (lift y : EStateM ε σ α) := by
  cases y with
  | ok a => exact keeps_pure a
  | error e => exact keeps_throw e

theorem keeps_bind [IsTrans σ r] {x : EStateM ε σ α} {f : α → EStateM ε σ β} (hx : Keeps r x)
    (hf : ∀ a, Keeps r (f a)) : Keeps r (x >>= f) := by
  intro s
  have hxs := hx s
  rw [after_bind]
  cases hrun : x.run s with
  | ok a t =>
      rw [after_of_ok hrun] at hxs
      exact IsTrans.trans s t _ hxs (hf a t)
  | error e t =>
      rw [after_of_error hrun] at hxs
      exact hxs

theorem keeps_tryCatch [IsTrans σ r] {x : EStateM ε σ α} {handle : ε → EStateM ε σ α}
    (hx : Keeps r x) (hhandle : ∀ e, Keeps r (handle e)) : Keeps r (tryCatch x handle) := by
  intro s
  have hxs := hx s
  cases hrun : x.run s with
  | ok a t =>
      rw [after_of_ok hrun] at hxs
      rwa [after_of_ok (tryCatch_of_ok hrun)]
  | error e t =>
      rw [after_of_error hrun] at hxs
      rw [after, tryCatch_of_error hrun]
      exact IsTrans.trans s t _ hxs (hhandle e t)

theorem keeps_ite {condition : Prop} [Decidable condition] {x y : EStateM ε σ α} (hx : Keeps r x)
    (hy : Keeps r y) : Keeps r (if condition then x else y) := by
  split
  · exact hx
  · exact hy

theorem keeps_modify {f : σ → σ} (hf : ∀ s, r s (f s)) :
    Keeps r (modify f : EStateM ε σ PUnit) := hf

theorem Keeps.mono {r' : σ → σ → Prop} {x : EStateM ε σ α} (hx : Keeps r x)
    (h : ∀ s t, r s t → r' s t) : Keeps r' x := fun s => h _ _ (hx s)

/-- Behind a part that changes nothing, either nothing happens or the rest is reached. -/
theorem after_bind_of_keeps {x : EStateM ε σ α} {f : α → EStateM ε σ β} (hx : Keeps Eq x) (s : σ) :
    after (x >>= f) s = s ∨ ∃ a, x.run s = .ok a s ∧ after (x >>= f) s = after (f a) s := by
  have hxs := hx s
  rw [after_bind]
  cases hrun : x.run s with
  | ok a t =>
      obtain rfl : s = t := hxs.trans (after_of_ok hrun)
      exact .inr ⟨a, rfl, rfl⟩
  | error e t => exact .inl (hxs.trans (after_of_error hrun)).symm

theorem after_bind_keeps {x : EStateM ε σ α} {f : α → EStateM ε σ β} (hf : ∀ a, Keeps Eq (f a))
    (s : σ) : after (x >>= f) s = after x s := by
  rw [after_bind, after]
  cases x.run s with
  | ok a t => exact (hf a t).symm
  | error e t => rfl

theorem after_tryCatch_keeps {x : EStateM ε σ α} {handle : ε → EStateM ε σ α}
    (hhandle : ∀ e, Keeps Eq (handle e)) (s : σ) : after (tryCatch x handle) s = after x s := by
  cases hrun : x.run s with
  | ok a t => rw [after_of_ok hrun, after_of_ok (tryCatch_of_ok hrun)]
  | error e t =>
      rw [after_of_error hrun, after, tryCatch_of_error hrun]
      exact (hhandle e t).symm

end Keeps

section Returns

/-- A program that never throws. -/
def Returns (x : EStateM ε σ α) : Prop := ∀ s, ∃ a t, x.run s = .ok a t

variable {x : EStateM ε σ α} {f : α → EStateM ε σ β}

theorem returns_pure (a : α) : Returns (pure a : EStateM ε σ α) := fun s => ⟨a, s, rfl⟩

theorem returns_get : Returns (get : EStateM ε σ σ) := fun s => ⟨s, s, rfl⟩

theorem returns_modify (f : σ → σ) : Returns (modify f : EStateM ε σ PUnit) :=
  fun s => ⟨⟨⟩, f s, rfl⟩

theorem returns_bind (hx : Returns x) (hf : ∀ a, Returns (f a)) : Returns (x >>= f) := by
  intro s
  obtain ⟨a, t, hrun⟩ := hx s
  obtain ⟨b, u, hrest⟩ := hf a t
  exact ⟨b, u, bind_eq_ok.mpr ⟨a, t, hrun, hrest⟩⟩

theorem returns_ite {condition : Prop} [Decidable condition] {x y : EStateM ε σ α}
    (hx : Returns x) (hy : Returns y) : Returns (if condition then x else y) := by
  split
  · exact hx
  · exact hy

theorem returns_forM {f : α → EStateM ε σ PUnit} (hf : ∀ a, Returns (f a)) (l : List α) :
    Returns (l.forM f) := by
  induction l with
  | nil => exact returns_pure _
  | cons a l ih => exact returns_bind (hf a) fun _ => ih

theorem after_bind_of_returns {x : EStateM ε σ PUnit} {f : PUnit → EStateM ε σ β}
    (hx : Returns x) (s : σ) : after (x >>= f) s = after (f ⟨⟩) (after x s) := by
  obtain ⟨a, t, hrun⟩ := hx s
  rw [after_bind_of_ok hrun, after_of_ok hrun]

end Returns

section Agrees

/-- Two programs that, started in related states, return or throw the same and leave related
states. -/
def Agrees (r : σ → σ → Prop) (x y : EStateM ε σ α) : Prop :=
  ∀ s t, r s t → match x.run s, y.run t with
    | .ok a s', .ok b t' => a = b ∧ r s' t'
    | .error e s', .error e' t' => e = e' ∧ r s' t'
    | _, _ => False

variable {r : σ → σ → Prop} {x y : EStateM ε σ α} {f g : α → EStateM ε σ β}

theorem Agrees.after (h : Agrees r x y) {s t : σ} (hst : r s t) : r (after x s) (after y t) := by
  have hruns := h s t hst
  unfold Effect.after
  cases hx : x.run s <;> cases hy : y.run t <;> simp only [hx, hy] at hruns ⊢
  · exact hruns.2
  · exact hruns.2

theorem agrees_pure (a : α) : Agrees r (pure a : EStateM ε σ α) (pure a) :=
  fun _ _ hst => ⟨rfl, hst⟩

theorem agrees_modify {f g : σ → σ} (h : ∀ s t, r s t → r (f s) (g t)) :
    Agrees r (modify f : EStateM ε σ PUnit) (modify g) := fun s t hst => ⟨rfl, h s t hst⟩

theorem agrees_bind (hx : Agrees r x y) (hf : ∀ a, Agrees r (f a) (g a)) :
    Agrees r (x >>= f) (y >>= g) := by
  intro s t hst
  have hruns := hx s t hst
  rw [EStateM.run_bind, EStateM.run_bind]
  cases hxs : x.run s <;> cases hyt : y.run t <;> simp only [hxs, hyt] at hruns ⊢
  · obtain ⟨rfl, hrest⟩ := hruns
    exact hf _ _ _ hrest
  · exact hruns

theorem agrees_get {f g : σ → EStateM ε σ β} (h : ∀ s t, r s t → Agrees r (f s) (g t)) :
    Agrees r (get >>= f) (get >>= g) := by
  intro s t hst
  rw [EStateM.run_bind, EStateM.run_bind, EStateM.run_get, EStateM.run_get]
  exact h s t hst s t hst

theorem agrees_ite {condition : Prop} [Decidable condition] {x' y' : EStateM ε σ α}
    (hx : Agrees r x y) (hy : Agrees r x' y') :
    Agrees r (if condition then x else x') (if condition then y else y') := by
  split
  · exact hx
  · exact hy

end Agrees

section Yields

/-- What every value that a program returns satisfies. -/
def Yields (p : α → Prop) (x : EStateM ε σ α) : Prop := ∀ s a t, x.run s = .ok a t → p a

variable {p : α → Prop} {q : β → Prop} {x : EStateM ε σ α} {f : α → EStateM ε σ β}

theorem yields_any (x : EStateM ε σ α) : Yields (fun _ => True) x := fun _ _ _ _ => trivial

theorem yields_pure {a : α} (h : p a) : Yields p (pure a : EStateM ε σ α) := by
  intro s b t hrun
  obtain ⟨rfl, -⟩ := pure_eq_ok.mp hrun
  exact h

theorem yields_bind (hx : Yields p x) (hf : ∀ a, p a → Yields q (f a)) : Yields q (x >>= f) := by
  intro s b t hrun
  obtain ⟨a, u, ha, hb⟩ := bind_eq_ok.mp hrun
  exact hf a (hx s a u ha) u b t hb

theorem yields_ite {condition : Prop} [Decidable condition] {x y : EStateM ε σ α}
    (hx : Yields p x) (hy : Yields p y) : Yields p (if condition then x else y) := by
  split
  · exact hx
  · exact hy

theorem yields_tryCatch {x : EStateM ε σ α} {handle : ε → EStateM ε σ α} (hx : Yields p x)
    (hhandle : ∀ e, Yields p (handle e)) : Yields p (tryCatch x handle) := by
  intro s a t hrun
  cases hbody : x.run s with
  | ok b u =>
      rw [tryCatch_of_ok hbody] at hrun
      cases hrun
      exact hx s a t hbody
  | error e u =>
      rw [tryCatch_of_error hbody] at hrun
      exact hhandle e u a t hrun

theorem yields_foldlM {f : α → β → EStateM ε σ α} (hf : ∀ a b, p a → Yields p (f a b)) {a : α}
    (ha : p a) (l : List β) : Yields p (l.foldlM f a) := by
  induction l generalizing a with
  | nil => exact yields_pure ha
  | cons b l ih =>
      rw [List.foldlM_cons]
      exact yields_bind (hf a b ha) fun a ha => ih ha

end Yields

end Effect
