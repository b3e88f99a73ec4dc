import Mathlib.Data.List.Basic

/-!
# Runs of a state machine

A machine is a step function on states and events. What a step shows of itself, if anything, is
collected in a trace. An invariant may speak of the trace so far.
-/

namespace Machine

variable {σ ε ο : Type*} (step : σ → ε → σ) (emits : σ → ε → Option ο)

def run (s : σ) (events : List ε) : σ := events.foldl step s

def trace : σ → List ε → List ο
  | _, [] => []
  | s, event :: events => (emits s event).toList ++ trace (step s event) events

@[simp]
theorem run_nil (s : σ) : run step s [] = s := rfl

@[simp]
theorem run_cons (s : σ) (event : ε) (events : List ε) :
    run step s (event :: events) = run step (step s event) events := rfl

theorem run_append (s : σ) (front back : List ε) :
    run step s (front ++ back) = run step (run step s front) back :=
  List.foldl_append

theorem trace_append (s : σ) (front back : List ε) :
    trace step emits s (front ++ back)
      = trace step emits s front ++ trace step emits (run step s front) back := by
  induction front generalizing s with
  | nil => rfl
  | cons event front ih => rw [List.cons_append, trace, trace, run_cons, ih, List.append_assoc]

/-- Every step of the run satisfies the predicate in the state in which it is taken. -/
def Along (p : σ → ε → Prop) : σ → List ε → Prop
  | _, [] => True
  | s, event :: events => p s event ∧ Along p (step s event) events

instance (p : σ → ε → Prop) [∀ s event, Decidable (p s event)] (s : σ) (events : List ε) :
    Decidable (Along step p s events) :=
  match events with
  | [] => inferInstanceAs (Decidable True)
  | event :: events =>
      have := instDecidableAlong p (step s event) events
      inferInstanceAs (Decidable (p s event ∧ Along step p (step s event) events))

/-- What the steps that satisfy a predicate keep between the trace and the state, the runs of such
steps keep. -/
theorem trace_induction_along {p : σ → ε → Prop} (inv : List ο → σ → Prop)
    (hstep : ∀ past s event, p s event → inv past s →
      inv (past ++ (emits s event).toList) (step s event))
    {s : σ} {past : List ο} (hs : inv past s) {events : List ε} (h : Along step p s events) :
    inv (past ++ trace step emits s events) (run step s events) := by
  induction events generalizing s past with
  | nil =>
      rw [trace, List.append_nil]
      exact hs
  | cons event events ih =>
      rw [trace, ← List.append_assoc, run_cons]
      exact ih (hstep past s event h.1 hs) h.2

theorem along_of_forall {p : σ → ε → Prop} (hp : ∀ s event, p s event) (s : σ) (events : List ε) :
    Along step p s events := by
  induction events generalizing s with
  | nil => trivial
  | cons event events ih => exact ⟨hp s event, ih _⟩

/-- A condition on the events alone. -/
theorem along_of_forall_mem {p : ε → Prop} {events : List ε} (h : ∀ event ∈ events, p event) (s : σ) :
    Along step (fun _ event => p event) s events := by
  induction events generalizing s with
  | nil => trivial
  | cons event events ih =>
      exact ⟨h event List.mem_cons_self, ih (fun other hother => h other (List.mem_cons_of_mem _ hother)) _⟩

theorem run_induction_along {p : σ → ε → Prop} (inv : σ → Prop)
    (hstep : ∀ s event, p s event → inv s → inv (step s event)) {s : σ} (hs : inv s)
    {events : List ε} (h : Along step p s events) : inv (run step s events) := by
  induction events generalizing s with
  | nil => exact hs
  | cons event events ih =>
      rw [run_cons]
      exact ih (hstep s event h.1 hs) h.2

/-- What an invariant makes of a predicate, along every run that satisfies it. -/
theorem Along.imp {p q : σ → ε → Prop} (inv : σ → Prop)
    (hstep : ∀ s event, p s event → inv s → inv (step s event))
    (hq : ∀ s event, p s event → inv s → q s event) {s : σ} (hs : inv s) {events : List ε}
    (h : Along step p s events) : Along step q s events := by
  induction events generalizing s with
  | nil => trivial
  | cons event events ih => exact ⟨hq s event h.1 hs, ih (hstep s event h.1 hs) h.2⟩

theorem along_append {p : σ → ε → Prop} {s : σ} {front back : List ε} :
    Along step p s (front ++ back)
      ↔ Along step p s front ∧ Along step p (run step s front) back := by
  induction front generalizing s with
  | nil => exact (true_and _).to_iff.symm
  | cons event front ih =>
      rw [List.cons_append, Along, Along, run_cons, ih, and_assoc]

/-- What holds wherever a run is cut holds along it. -/
theorem along_of_splits {p : σ → ε → Prop} {s : σ} {events : List ε}
    (h : ∀ front event back, events = front ++ event :: back → p (run step s front) event) :
    Along step p s events := by
  induction events generalizing s with
  | nil => trivial
  | cons event events ih =>
      refine ⟨h [] event events rfl, ih fun front last back hsplit => ?_⟩
      exact h (event :: front) last back (by rw [hsplit]; rfl)

/-- What holds of all that a run emits. -/
theorem along_of_forall_trace {q : ο → Prop} {s : σ} {events : List ε}
    (h : ∀ o ∈ trace step emits s events, q o) :
    Along step (fun s event => ∀ o ∈ emits s event, q o) s events := by
  induction events generalizing s with
  | nil => trivial
  | cons event events ih =>
      rw [trace] at h
      exact ⟨fun o ho => h o (List.mem_append_left _ (Option.mem_toList.mpr ho)),
        ih fun o ho => h o (List.mem_append_right _ ho)⟩

theorem Along.and {p q : σ → ε → Prop} {s : σ} {events : List ε} (h : Along step p s events)
    (h' : Along step q s events) : Along step (fun s event => p s event ∧ q s event) s events := by
  induction events generalizing s with
  | nil => trivial
  | cons event events ih => exact ⟨⟨h.1, h'.1⟩, ih h.2 h'.2⟩

theorem trace_induction (inv : List ο → σ → Prop)
    (hstep : ∀ past s event, inv past s → inv (past ++ (emits s event).toList) (step s event))
    {s : σ} {past : List ο} (hs : inv past s) (events : List ε) :
    inv (past ++ trace step emits s events) (run step s events) :=
  trace_induction_along step emits inv (fun past s event _ => hstep past s event) hs
    (along_of_forall step (fun _ _ => trivial) s events)

theorem run_induction (inv : σ → Prop) (hstep : ∀ s event, inv s → inv (step s event)) {s : σ}
    (hs : inv s) (events : List ε) : inv (run step s events) :=
  run_induction_along step inv (fun s event _ => hstep s event) hs
    (along_of_forall step (fun _ _ => trivial) s events)

/-- Whatever a trace holds was emitted by a step of the run, in a state that the trace before it led
to. -/
theorem exists_of_trace_eq {s : σ} {events : List ε} {before after : List ο} {o : ο}
    (h : trace step emits s events = before ++ o :: after) :
    ∃ front event back, events = front ++ event :: back ∧ trace step emits s front = before
      ∧ emits (run step s front) event = some o := by
  induction events generalizing s before with
  | nil => simp [trace] at h
  | cons event events ih =>
      rw [trace] at h
      cases hemits : emits s event with
      | none =>
          rw [hemits] at h
          obtain ⟨front, last, back, rfl, hfront, hlast⟩ := ih h
          refine ⟨event :: front, last, back, rfl, ?_, hlast⟩
          rw [trace, hemits, hfront]
          rfl
      | some shown =>
          rw [hemits] at h
          cases before with
          | nil =>
              obtain ⟨rfl, -⟩ := List.cons.inj h
              exact ⟨[], event, events, rfl, rfl, hemits⟩
          | cons first before =>
              obtain ⟨rfl, hrest⟩ := List.cons.inj h
              obtain ⟨front, last, back, rfl, hfront, hlast⟩ := ih hrest
              refine ⟨event :: front, last, back, rfl, ?_, hlast⟩
              rw [trace, hemits, hfront]
              rfl

end Machine
