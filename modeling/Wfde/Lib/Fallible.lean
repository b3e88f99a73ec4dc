import Mathlib.Data.List.Forall2

/-!
# Computations that may fail

What a sequence of computations returns when none of them fails, as a relation between what they were
given and what they returned.
-/

namespace Fallible

variable {ε α β σ : Type}

theorem bind_eq_ok {x : Except ε α} {f : α → Except ε β} {b : β} :
    x >>= f = .ok b ↔ ∃ a, x = .ok a ∧ f a = .ok b := by
  cases x with
  | error e => simp [bind, Except.bind]
  | ok a => simp [bind, Except.bind]

theorem pure_eq_ok {a b : α} : (pure a : Except ε α) = .ok b ↔ a = b := Except.ok.injEq a b ▸ Iff.rfl

theorem mapM_eq_ok {f : α → Except ε β} {r : α → β → Prop} {inputs : List α} {outputs : List β}
    (hf : ∀ a ∈ inputs, ∀ b, f a = .ok b ↔ r a b) :
    inputs.mapM f = .ok outputs ↔ List.Forall₂ r inputs outputs := by
  induction inputs generalizing outputs with
  | nil => rw [List.mapM_nil, pure_eq_ok, List.forall₂_nil_left_iff, eq_comm]
  | cons a inputs ih =>
      have hrest (b : α) (hb : b ∈ inputs) := hf b (List.mem_cons_of_mem _ hb)
      rw [List.mapM_cons, bind_eq_ok, List.forall₂_cons_left_iff]
      simp only [bind_eq_ok, pure_eq_ok, ih hrest, hf a List.mem_cons_self]
      constructor
      · rintro ⟨b, hb, rest, hrest, rfl⟩
        exact ⟨b, rest, hb, hrest, rfl⟩
      · rintro ⟨b, rest, hb, hrest, rfl⟩
        exact ⟨b, hb, rest, hrest, rfl⟩

theorem exists_of_forall₂ {r : α → β → Prop} {inputs : List α} {outputs : List β}
    (h : List.Forall₂ r inputs outputs) {b : β} (hb : b ∈ outputs) : ∃ a ∈ inputs, r a b := by
  induction h with
  | nil => cases hb
  | cons hfirst hrest ih =>
      rcases List.mem_cons.mp hb with rfl | hmem
      · exact ⟨_, List.mem_cons_self, hfirst⟩
      · obtain ⟨a, ha, hr⟩ := ih hmem
        exact ⟨a, List.mem_cons_of_mem _ ha, hr⟩

theorem forall₂_iff_eq_map {r : α → β → Prop} {f : α → β} {inputs : List α} {outputs : List β}
    (hf : ∀ a ∈ inputs, ∀ b, r a b ↔ b = f a) :
    List.Forall₂ r inputs outputs ↔ outputs = inputs.map f := by
  induction inputs generalizing outputs with
  | nil => rw [List.forall₂_nil_left_iff, List.map_nil]
  | cons a inputs ih =>
      have hrest (b : α) (hb : b ∈ inputs) := hf b (List.mem_cons_of_mem _ hb)
      simp only [List.forall₂_cons_left_iff, hf a List.mem_cons_self, ih hrest, List.map_cons]
      constructor
      · rintro ⟨b, others, rfl, rfl, rfl⟩
        rfl
      · rintro rfl
        exact ⟨f a, inputs.map f, rfl, rfl, rfl⟩

theorem foldlM_cons_eq_ok {f : σ → α → Except ε σ} {a : α} {inputs : List α} {s t : σ} :
    (a :: inputs).foldlM f s = .ok t ↔ ∃ u, f s a = .ok u ∧ inputs.foldlM f u = .ok t := by
  rw [List.foldlM_cons, bind_eq_ok]

/-- A loop that reads its inputs and adds what it has read ends well if and only if every input can be
read and what has been read can be added. -/
theorem foldlM_eq_ok {f : σ → α → Except ε σ} {add : σ → β → Except ε σ} {r : α → β → Prop}
    {inputs : List α}
    (hf : ∀ a ∈ inputs, ∀ s t, f s a = .ok t ↔ ∃ b, r a b ∧ add s b = .ok t) {s t : σ} :
    inputs.foldlM f s = .ok t
      ↔ ∃ outputs, List.Forall₂ r inputs outputs ∧ outputs.foldlM add s = .ok t := by
  induction inputs generalizing s with
  | nil =>
      constructor
      · intro hrun
        exact ⟨[], .nil, hrun⟩
      · rintro ⟨outputs, hread, hadd⟩
        obtain rfl := List.forall₂_nil_left_iff.mp hread
        exact hadd
  | cons a inputs ih =>
      have hrest (b : α) (hb : b ∈ inputs) := hf b (List.mem_cons_of_mem _ hb)
      rw [foldlM_cons_eq_ok]
      constructor
      · rintro ⟨u, hu, hrun⟩
        obtain ⟨b, hb, hadd⟩ := (hf a List.mem_cons_self s u).mp hu
        obtain ⟨outputs, hread, hrun⟩ := (ih hrest).mp hrun
        exact ⟨b :: outputs, .cons hb hread, foldlM_cons_eq_ok.mpr ⟨u, hadd, hrun⟩⟩
      · rintro ⟨outputs, hread, hrun⟩
        obtain ⟨b, others, hb, hothers, rfl⟩ := List.forall₂_cons_left_iff.mp hread
        obtain ⟨u, hadd, hrun⟩ := foldlM_cons_eq_ok.mp hrun
        exact ⟨u, (hf a List.mem_cons_self s u).mpr ⟨b, hb, hadd⟩,
          (ih hrest).mpr ⟨others, hothers, hrun⟩⟩

/-- A collection whose `add` appends an item or fails, and that is known by its items. -/
structure Collects (items : σ → List β) (add : σ → β → Except ε σ) : Prop where
  add_eq_ok : ∀ s b t, add s b = .ok t ↔ items t = items s ++ [b]
  ext : ∀ s t, items s = items t → s = t
  front : ∀ t first rest, items t = first ++ rest → ∃ s, items s = first

theorem Collects.foldlM_eq_ok {items : σ → List β} {add : σ → β → Except ε σ}
    (h : Collects items add) {outputs : List β} {s t : σ} :
    outputs.foldlM add s = .ok t ↔ items t = items s ++ outputs := by
  induction outputs generalizing s with
  | nil =>
      rw [List.append_nil]
      constructor
      · intro hrun
        exact congrArg items (Except.ok.inj hrun).symm
      · intro hitems
        exact congrArg Except.ok (h.ext s t hitems.symm)
  | cons b outputs ih =>
      rw [foldlM_cons_eq_ok, List.append_cons]
      constructor
      · rintro ⟨u, hadd, hrun⟩
        rw [ih.mp hrun, (h.add_eq_ok s b u).mp hadd]
      · intro hitems
        obtain ⟨u, hu⟩ := h.front t _ _ hitems
        exact ⟨u, (h.add_eq_ok s b u).mpr hu, ih.mpr (by rw [hitems, hu])⟩

theorem foldlM_flatten_eq_ok {outputs : List (List β)} {s t : List β} :
    outputs.foldlM (fun s b => (pure (s ++ b) : Except ε (List β))) s = .ok t
      ↔ t = s ++ outputs.flatten := by
  induction outputs generalizing s with
  | nil => rw [List.foldlM_nil, pure_eq_ok, List.flatten_nil, List.append_nil, eq_comm]
  | cons b outputs ih =>
      rw [List.foldlM_cons, pure_bind, ih, List.flatten_cons, List.append_assoc]

/-- A loop whose passes look at what the passes before have appended. -/
theorem foldlM_append_eq_ok {f : List β → α → Except ε β} {r : α → β → Prop}
    {p : List β → β → Prop} {inputs : List α}
    (hf : ∀ a ∈ inputs, ∀ bs b, f bs a = .ok b ↔ r a b ∧ p bs b) {s t : List β} :
    inputs.foldlM (fun s a => do return s ++ [← f s a]) s = .ok t
      ↔ ∃ outputs, t = s ++ outputs ∧ List.Forall₂ r inputs outputs
        ∧ ∀ front b back, outputs = front ++ b :: back → p (s ++ front) b := by
  induction inputs generalizing s with
  | nil =>
      constructor
      · intro hrun
        exact ⟨[], (Except.ok.inj hrun).symm.trans (List.append_nil _).symm, .nil, by simp⟩
      · rintro ⟨outputs, rfl, hreads, -⟩
        obtain rfl := List.forall₂_nil_left_iff.mp hreads
        exact congrArg Except.ok (List.append_nil _).symm
  | cons a inputs ih =>
      have hrest (b : α) (hb : b ∈ inputs) := hf b (List.mem_cons_of_mem _ hb)
      rw [foldlM_cons_eq_ok]
      constructor
      · rintro ⟨u, hu, hrun⟩
        obtain ⟨b, hb, hu⟩ := bind_eq_ok.mp hu
        obtain rfl := pure_eq_ok.mp hu
        obtain ⟨hr, hp⟩ := (hf a List.mem_cons_self s b).mp hb
        obtain ⟨outputs, rfl, hreads, hfronts⟩ := (ih hrest).mp hrun
        refine ⟨b :: outputs, (List.append_cons _ _ _).symm, .cons hr hreads, ?_⟩
        intro front c back heq
        cases front with
        | nil =>
            obtain ⟨rfl, -⟩ := List.cons.inj heq
            rwa [List.append_nil]
        | cons first front =>
            obtain ⟨rfl, hrest⟩ := List.cons.inj heq
            rw [List.append_cons]
            exact hfronts front c back hrest
      · rintro ⟨outputs, rfl, hreads, hfronts⟩
        obtain ⟨b, rest, hr, hothers, rfl⟩ := List.forall₂_cons_left_iff.mp hreads
        have hp := hfronts [] b rest rfl
        rw [List.append_nil] at hp
        refine ⟨s ++ [b], bind_eq_ok.mpr ⟨b, (hf a List.mem_cons_self s b).mpr ⟨hr, hp⟩, rfl⟩, ?_⟩
        refine (ih hrest).mpr ⟨rest, List.append_cons _ _ _, hothers, ?_⟩
        intro front c back heq
        rw [← List.append_cons]
        exact hfronts (b :: front) c back (by rw [heq, List.cons_append])

end Fallible
