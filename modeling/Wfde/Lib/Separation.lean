import Mathlib.Logic.Function.Basic
import Wfde.Lib.Run

/-!
# Processes on a shared store

Processes take turns on one store, in any order. If the others never change what one of them sees of
the store, that one runs as if it were alone.
-/

namespace Separation

variable {ι σ δ ε : Type*} [DecidableEq ι]

structure World (ι σ δ : Type*) where
  store : δ
  process : ι → σ

section Turns

variable (step : σ → δ → ε → σ × δ)

/-- A turn of one process. -/
def turn (w : World ι σ δ) (event : ι × ε) : World ι σ δ where
  store := (step (w.process event.1) w.store event.2).2
  process := Function.update w.process event.1 (step (w.process event.1) w.store event.2).1

/-- A process and the store, when nobody else is there. -/
def alone (s : σ × δ) (event : ε) : σ × δ := step s.1 s.2 event

/-- The events of one process, in their order. -/
def eventsOf (i : ι) (events : List (ι × ε)) : List ε :=
  events.filterMap fun event => if event.1 = i then some event.2 else none

variable {step}

@[simp]
theorem turn_process_self (w : World ι σ δ) (i : ι) (event : ε) :
    (turn step w (i, event)).process i = (step (w.process i) w.store event).1 :=
  Function.update_self i _ _

theorem turn_process_of_ne (w : World ι σ δ) {i j : ι} (hne : i ≠ j) (event : ε) :
    (turn step w (j, event)).process i = w.process i :=
  Function.update_of_ne hne _ _

theorem mem_eventsOf {i : ι} {events : List (ι × ε)} {event : ε} :
    event ∈ eventsOf i events ↔ (i, event) ∈ events := by
  unfold eventsOf
  rw [List.mem_filterMap]
  constructor
  · rintro ⟨⟨j, other⟩, hmem, hsome⟩
    obtain ⟨rfl, hsame⟩ := Option.ite_none_right_eq_some.mp hsome
    obtain rfl := Option.some.inj hsame
    exact hmem
  · exact fun hmem => ⟨(i, event), hmem, if_pos rfl⟩

theorem eventsOf_cons_self (i : ι) (event : ε) (events : List (ι × ε)) :
    eventsOf i ((i, event) :: events) = event :: eventsOf i events := by
  simp [eventsOf]

theorem eventsOf_cons_of_ne {i j : ι} (hne : j ≠ i) (event : ε) (events : List (ι × ε)) :
    eventsOf i ((j, event) :: events) = eventsOf i events := by
  simp [eventsOf, hne]

theorem eventsOf_append (i : ι) (front back : List (ι × ε)) :
    eventsOf i (front ++ back) = eventsOf i front ++ eventsOf i back := List.filterMap_append

theorem eventsOf_map_of_ne {i j : ι} (hne : j ≠ i) (events : List ε) :
    eventsOf i (events.map (Prod.mk j)) = [] := by
  unfold eventsOf
  rw [List.filterMap_map, List.filterMap_eq_nil_iff]
  exact fun event _ => if_neg hne

theorem eventsOf_concat_self (i : ι) (events : List (ι × ε)) (event : ε) :
    eventsOf i (events ++ [(i, event)]) = eventsOf i events ++ [event] := by
  rw [eventsOf_append, eventsOf_cons_self]
  rfl

theorem eventsOf_concat_of_ne {i j : ι} (hne : j ≠ i) (events : List (ι × ε)) (event : ε) :
    eventsOf i (events ++ [(j, event)]) = eventsOf i events := by
  rw [eventsOf_append, eventsOf_cons_of_ne hne]
  exact List.append_nil _

end Turns

/-- The rules of the turns that `within` allows to processes that are `sound`: what process `i` does
depends on what it sees only, and no other process changes that. -/
structure Separate (step : σ → δ → ε → σ × δ) (i : ι) (sound : ι → σ → Prop)
    (within : ι → σ → δ → ε → Prop) (alike : σ → σ → Prop) (sees : δ → δ → Prop) : Prop where
  equivalence : Equivalence sees
  own : ∀ s s' d d' event, within i s d event → alike s s' → sees d d' →
    alike (step s d event).1 (step s' d' event).1 ∧ sees (step s d event).2 (step s' d' event).2
  stays : ∀ j s d event, within j s d event → sound j s → sound j (step s d event).1
  others : ∀ j s d event, j ≠ i → within j s d event → sound j s → sees d (step s d event).2

namespace Separate

variable {step : σ → δ → ε → σ × δ} {i : ι} {sound : ι → σ → Prop}
  {within : ι → σ → δ → ε → Prop} {alike : σ → σ → Prop} {sees : δ → δ → Prop}

theorem sound_turn (h : Separate step i sound within alike sees) {w : World ι σ δ}
    (hsound : ∀ j, sound j (w.process j)) {j : ι} {event : ε}
    (hwithin : within j (w.process j) w.store event) (other : ι) :
    sound other ((turn step w (j, event)).process other) := by
  by_cases hother : other = j
  · subst hother
    rw [turn_process_self]
    exact h.stays other _ _ event hwithin (hsound other)
  · rw [turn_process_of_ne w hother]
    exact hsound other

/-- **Separation.** Whatever the others do and in whatever order, process `i` ends as it does alone on
a store that is the same to it, and what it sees of the store is what it would have left there. -/
theorem run_apart (h : Separate step i sound within alike sees) {w : World ι σ δ} {solo : σ × δ}
    (hsound : ∀ j, sound j (w.process j)) (halike : alike (w.process i) solo.1)
    (hsees : sees w.store solo.2) {events : List (ι × ε)}
    (hwithin : Machine.Along (turn step)
      (fun w event => within event.1 (w.process event.1) w.store event.2) w events) :
    let left := Machine.run (turn step) w events
    let solo' := Machine.run (alone step) solo (eventsOf i events)
    alike (left.process i) solo'.1 ∧ sees left.store solo'.2 := by
  induction events generalizing w solo with
  | nil => exact ⟨halike, hsees⟩
  | cons event events ih =>
      obtain ⟨j, event⟩ := event
      obtain ⟨hfirst, hrest⟩ := hwithin
      have hstill := h.sound_turn hsound hfirst
      rw [Machine.run_cons]
      by_cases hj : j = i
      · subst hj
        obtain ⟨halike', hsees'⟩ := h.own _ _ _ _ event hfirst halike hsees
        rw [eventsOf_cons_self, Machine.run_cons]
        refine ih hstill ?_ hsees' hrest
        rw [turn_process_self]
        exact halike'
      · have hunseen := h.others j _ _ event hj hfirst (hsound j)
        rw [eventsOf_cons_of_ne hj]
        refine ih hstill ?_ (h.equivalence.trans (h.equivalence.symm hunseen) hsees) hrest
        rw [turn_process_of_ne w (Ne.symm hj)]
        exact halike

end Separate

end Separation
