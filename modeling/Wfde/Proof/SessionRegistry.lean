import Mathlib.Data.List.Nodup
import Wfde.SessionManager

/-!
# The registry and the stubs agree

What holds of the session manager in every state that it comes to, as long as no posted close runs
when the stub that has posted it is gone.
-/

namespace Wfde

namespace WfdeSessionManager

open ThreadStub

variable {threads : Nat} {manager : WfdeSessionManager threads}

/-- The sessions by their ids are those that the stubs hold, each of them held by the stub of its own
thread, and there is one timer for each stub. -/
structure Consistent (manager : WfdeSessionManager threads) : Prop where
  held : ∀ session, session ∈ manager.sessions
    ↔ ∃ stub, manager.stubs session.threadId = some stub ∧ session ∈ stub.thdSessions
  own : ∀ id stub, manager.stubs id = some stub → ∀ session ∈ stub.thdSessions, session.threadId = id
  ids : (manager.sessions.map (·.uuid)).Nodup
  once : ∀ id stub, manager.stubs id = some stub → stub.thdSessions.Nodup
  timers : ∀ id, manager.timers.count id = if (manager.stubs id).isSome then 1 else 0

theorem consistent_empty : ({} : WfdeSessionManager threads).Consistent where
  held session := by simp
  own id stub hstub := by simp at hstub
  ids := List.nodup_nil
  once id stub hstub := by simp at hstub
  timers id := by simp

theorem Consistent.of_eq {other : WfdeSessionManager threads} (h : manager.Consistent)
    (hsessions : other.sessions = manager.sessions) (hstubs : other.stubs = manager.stubs)
    (htimers : other.timers = manager.timers) : other.Consistent where
  held := by
    rw [hsessions, hstubs]
    exact h.held
  own := by
    rw [hstubs]
    exact h.own
  ids := by
    rw [hsessions]
    exact h.ids
  once := by
    rw [hstubs]
    exact h.once
  timers := by
    rw [htimers, hstubs]
    exact h.timers

theorem Consistent.eq_of_uuid_eq (h : manager.Consistent) {a b : ManagedSession threads}
    (ha : a ∈ manager.sessions) (hb : b ∈ manager.sessions) (heq : a.uuid = b.uuid) : a = b :=
  List.inj_on_of_nodup_map h.ids ha hb heq

@[simp]
theorem setStub_self (id : Fin threads) (stub : Option (ThreadStub threads)) :
    (manager.setStub id stub).stubs id = stub := by
  simp [setStub]

theorem setStub_of_ne {id other : Fin threads} (h : other ≠ id) (stub : Option (ThreadStub threads)) :
    (manager.setStub id stub).stubs other = manager.stubs other := by
  simp [setStub, h]

/-- A change that concerns one thread: what the slot of that thread has to meet. -/
theorem Consistent.of_slot {next : WfdeSessionManager threads} (h : manager.Consistent)
    {id : Fin threads} (hstubs : ∀ other, other ≠ id → next.stubs other = manager.stubs other)
    (hsessions : ∀ session, session.threadId ≠ id →
      (session ∈ next.sessions ↔ session ∈ manager.sessions))
    (hheld : ∀ session, session.threadId = id →
      (session ∈ next.sessions ↔ ∃ stub, next.stubs id = some stub ∧ session ∈ stub.thdSessions))
    (hslot : ∀ stub, next.stubs id = some stub →
      stub.thdSessions.Nodup ∧ ∀ session ∈ stub.thdSessions, session.threadId = id)
    (hids : (next.sessions.map (·.uuid)).Nodup)
    (htimers : ∀ other, other ≠ id → next.timers.count other = manager.timers.count other)
    (htimer : next.timers.count id = if (next.stubs id).isSome then 1 else 0) :
    next.Consistent where
  held session := by
    by_cases hid : session.threadId = id
    · rw [hheld session hid, hid]
    · rw [hsessions session hid, h.held session, hstubs _ hid]
  own other stub hstub := by
    by_cases hid : other = id
    · subst hid
      exact (hslot stub hstub).2
    · exact h.own other stub ((hstubs other hid).symm.trans hstub)
  ids := hids
  once other stub hstub := by
    by_cases hid : other = id
    · subst hid
      exact (hslot stub hstub).1
    · exact h.once other stub ((hstubs other hid).symm.trans hstub)
  timers other := by
    by_cases hid : other = id
    · subst hid
      exact htimer
    · rw [htimers other hid, hstubs other hid]
      exact h.timers other

section GetSession

theorem Consistent.isHeld (h : manager.Consistent) {session : ManagedSession threads}
    (hsession : session ∈ manager.sessions) : manager.isHeld session = true := by
  obtain ⟨stub, hstub, hmem⟩ := (h.held session).mp hsession
  rw [WfdeSessionManager.isHeld, List.any_eq_true]
  exact ⟨session.threadId, List.mem_finRange _, by simp [hstub, hmem]⟩

theorem Consistent.getSession_of_mem (h : manager.Consistent) {session : ManagedSession threads}
    (hsession : session ∈ manager.sessions) : manager.getSession session.uuid = .ok session := by
  have hfind : manager.sessions.find? (·.uuid = session.uuid) = some session := by
    obtain ⟨found, hfound⟩ : ∃ found, manager.sessions.find? (·.uuid = session.uuid) = some found :=
      Option.isSome_iff_exists.mp (List.find?_isSome.mpr ⟨session, hsession, by simp⟩)
    have huuid : found.uuid = session.uuid := by simpa using List.find?_some hfound
    rw [hfound, h.eq_of_uuid_eq (List.mem_of_find?_eq_some hfound) hsession huuid]
  simp [getSession, hfind, h.isHeld hsession]

theorem getSession_of_not_mem {id : Uuid} (h : id ∉ manager.sessions.map (·.uuid)) :
    manager.getSession id = .error .notFound := by
  have hfind : manager.sessions.find? (·.uuid = id) = none := by
    rw [List.find?_eq_none]
    intro session hsession heq
    exact h (List.mem_map.mpr ⟨session, hsession, by simpa using heq⟩)
  simp [getSession, hfind]

end GetSession

section CloseSession

theorem closeSession_of_not_mem {id : Uuid} (h : id ∉ manager.sessions.map (·.uuid)) :
    manager.closeSession id = .error .notFound := by
  rw [closeSession, getSession_of_not_mem h]

theorem Consistent.closeSession_of_mem (h : manager.Consistent) {session : ManagedSession threads}
    {stub : ThreadStub threads} (hsession : session ∈ manager.sessions)
    (hstub : manager.stubs session.threadId = some stub) :
    manager.closeSession session.uuid
      = .ok { manager.setStub session.threadId (some (stub.detachSession session)) with
        sessions := manager.sessions.filter (·.uuid ≠ session.uuid) } := by
  rw [closeSession, h.getSession_of_mem hsession]
  simp [hstub]

def closed (manager : WfdeSessionManager threads) (session : ManagedSession threads)
    (stub : ThreadStub threads) : WfdeSessionManager threads :=
  { manager.setStub session.threadId (some (stub.detachSession session)) with
    sessions := manager.sessions.filter (·.uuid ≠ session.uuid) }

theorem Consistent.closed (h : manager.Consistent) {session : ManagedSession threads}
    {stub : ThreadStub threads} (hsession : session ∈ manager.sessions)
    (hstub : manager.stubs session.threadId = some stub) :
    (manager.closed session stub).Consistent := by
  have hself : (manager.closed session stub).stubs session.threadId
      = some (stub.detachSession session) := setStub_self ..
  have herase : ∀ other, other ∈ (stub.detachSession session).thdSessions
      ↔ other ≠ session ∧ other ∈ stub.thdSessions := fun other => (h.once _ stub hstub).mem_erase_iff
  have hsessions : ∀ other, other ∈ (manager.closed session stub).sessions
      ↔ other ∈ manager.sessions ∧ other ≠ session := by
    intro other
    rw [WfdeSessionManager.closed, List.mem_filter, decide_eq_true_iff]
    refine and_congr_right fun hmem => not_congr ⟨h.eq_of_uuid_eq hmem hsession, ?_⟩
    rintro rfl
    rfl
  refine h.of_slot (fun other hne => setStub_of_ne hne _) (fun other hne => ?_) (fun other hid => ?_)
    (fun kept hkept => ?_) (h.ids.sublist (List.filter_sublist.map _)) (fun other _ => rfl) ?_
  · have hother : other ≠ session := by
      rintro rfl
      exact hne rfl
    rw [hsessions, and_iff_left hother]
  · rw [hsessions, h.held, hself, hid, hstub]
    simp [herase, and_comm]
  · obtain rfl := Option.some.inj (hself.symm.trans hkept)
    exact ⟨(h.once _ stub hstub).erase session,
      fun other hother => h.own _ stub hstub other ((herase other).mp hother).2⟩
  · rw [hself]
    exact (h.timers session.threadId).trans (by simp [hstub])

/-- Whether or not there is such a session, it is gone behind the call. -/
theorem Consistent.tryClose (h : manager.Consistent) (id : Uuid) :
    (manager.tryClose id).Consistent
      ∧ (manager.tryClose id).sessions = manager.sessions.filter (·.uuid ≠ id) := by
  by_cases hid : id ∈ manager.sessions.map (·.uuid)
  · obtain ⟨session, hsession, rfl⟩ := List.mem_map.mp hid
    obtain ⟨stub, hstub, -⟩ := (h.held session).mp hsession
    rw [WfdeSessionManager.tryClose, h.closeSession_of_mem hsession hstub]
    exact ⟨h.closed hsession hstub, rfl⟩
  · rw [WfdeSessionManager.tryClose, closeSession_of_not_mem hid]
    refine ⟨h, (List.filter_eq_self.mpr fun session hsession => ?_).symm⟩
    have hne : session.uuid ≠ id := fun heq => hid (List.mem_map.mpr ⟨session, hsession, heq⟩)
    simpa using hne

end CloseSession

section CreateSession

theorem Consistent.ensureStub (h : manager.Consistent) (id : Fin threads) :
    (manager.ensureStub id).Consistent ∧ (manager.ensureStub id).sessions = manager.sessions
      ∧ ∃ stub, (manager.ensureStub id).stubs id = some stub := by
  unfold WfdeSessionManager.ensureStub
  cases hstub : manager.stubs id with
  | some stub => exact ⟨h, rfl, stub, hstub⟩
  | none =>
      have hself : (manager.setStub id (some { serial := manager.stubsMade })).stubs id
          = some { serial := manager.stubsMade } := setStub_self ..
      refine ⟨h.of_slot (fun other hne => setStub_of_ne hne _) (fun session _ => Iff.rfl)
        (fun session hid => ?_) (fun stub hmade => ?_) h.ids (fun other hne => ?_) ?_, rfl, _, hself⟩
      · change session ∈ manager.sessions ↔ _
        rw [h.held, hid, hstub]
        simp [scheduleThdTimer]
      · obtain rfl := Option.some.inj (hself.symm.trans hmade)
        exact ⟨List.nodup_nil, by simp⟩
      · simp [scheduleThdTimer, List.count_append, setStub, hne.symm]
      · have hnone : manager.timers.count id = 0 := by simpa [hstub] using h.timers id
        simp [scheduleThdTimer, List.count_append, setStub, hnone]

theorem Consistent.createSession (h : manager.Consistent) {session : ManagedSession threads}
    (hnew : session.uuid ∉ manager.sessions.map (·.uuid)) :
    (manager.createSession session).Consistent
      ∧ (manager.createSession session).sessions = manager.sessions ++ [session] := by
  obtain ⟨hensured, hsame, stub, hstub⟩ := h.ensureStub session.threadId
  have hsessions : (manager.createSession session).sessions = manager.sessions ++ [session] := by
    have hkept : ((manager.ensureStub session.threadId).sessions.filter (·.uuid ≠ session.uuid))
        = manager.sessions := by
      rw [hsame]
      refine List.filter_eq_self.mpr fun other hother => ?_
      have hne : other.uuid ≠ session.uuid := fun heq => hnew (List.mem_map.mpr ⟨other, hother, heq⟩)
      simpa using hne
    rw [WfdeSessionManager.createSession]
    exact congrArg (· ++ [session]) hkept
  have hself : (manager.createSession session).stubs session.threadId
      = some (stub.attachSession session) := by
    simp [WfdeSessionManager.createSession, setStub, hstub]
  have hunheld : session ∉ stub.thdSessions := fun hmem =>
    hnew (List.mem_map.mpr ⟨session, hsame ▸ (hensured.held session).mpr ⟨stub, hstub, hmem⟩, rfl⟩)
  refine ⟨hensured.of_slot (fun other hne => setStub_of_ne hne _) (fun other hne => ?_)
    (fun other hid => ?_) (fun kept hkept => ?_) ?_ (fun other _ => rfl) ?_, hsessions⟩
  · have hother : other ≠ session := by
      rintro rfl
      exact hne rfl
    simp [hsessions, hsame, hother]
  · rw [hsessions, hself, List.mem_append, ← hsame, hensured.held, hid, hstub]
    simp [attachSession]
  · obtain rfl := Option.some.inj (hself.symm.trans hkept)
    refine ⟨(hensured.once _ stub hstub).append (List.nodup_singleton session)
      (by simpa using hunheld), fun other hother => ?_⟩
    rcases List.mem_append.mp hother with hother | hother
    · exact hensured.own _ stub hstub other hother
    · rw [List.mem_singleton.mp hother]
  · rw [hsessions, List.map_append]
    exact h.ids.append (List.nodup_singleton _) (by simpa using hnew)
  · rw [hself]
    exact (hensured.timers session.threadId).trans (by simp [hstub])

end CreateSession

section Housekeeping

/-- A timer that is due is no longer pending; either its stub goes or it is pending again. -/
theorem Consistent.tick (h : manager.Consistent) {id : Fin threads} (hdue : id ∈ manager.timers)
    (timedOut : ManagedSession threads → Bool) :
    ({ manager with timers := manager.timers.erase id }.onThdTimer id timedOut).Consistent
      ∧ ({ manager with timers := manager.timers.erase id }.onThdTimer id timedOut).sessions
        = manager.sessions := by
  have hpos := List.count_pos_iff.mpr hdue
  have htimer := h.timers id
  obtain ⟨stub, hstub⟩ : ∃ stub, manager.stubs id = some stub := by
    cases hstub : manager.stubs id with
    | some stub => exact ⟨stub, rfl⟩
    | none =>
        simp only [hstub, Option.isSome_none, Bool.false_eq_true, if_false] at htimer
        omega
  have hone : manager.timers.count id = 1 := by simpa [hstub] using htimer
  have hother : ∀ other, other ≠ id →
      (manager.timers.erase id).count other = manager.timers.count other := fun other hne =>
    List.count_erase_of_ne hne
  have hself : (manager.timers.erase id).count id = 0 := by
    rw [List.count_erase_self, hone]
  rw [onThdTimer]
  simp only [hstub]
  by_cases hempty : stub.isEmpty = true
  · have hnone : stub.thdSessions = [] := List.isEmpty_iff.mp hempty
    rw [if_pos hempty]
    refine ⟨h.of_slot (fun other hne => setStub_of_ne hne _) (fun session _ => Iff.rfl)
      (fun session hid => ?_) (fun kept hkept => ?_) h.ids hother ?_, rfl⟩
    · change session ∈ manager.sessions ↔ _
      rw [h.held, hid, hstub]
      simp [hnone]
    · simp at hkept
    · rw [setStub_self]
      exact hself
  · rw [if_neg hempty]
    refine ⟨⟨h.held, h.own, h.ids, h.once, fun other => ?_⟩, rfl⟩
    change (manager.timers.erase id ++ [id]).count other = _
    rw [List.count_append]
    by_cases hid : other = id
    · subst hid
      rw [hself]
      simp [housekeeping, scheduleThdTimer, hstub]
    · rw [hother other hid, h.timers other, List.count_singleton]
      simp [housekeeping, scheduleThdTimer, Ne.symm hid]
      rfl

end Housekeeping

/-! What the manager has been asked to do. -/

inductive ManagerCall where
  | created (id : Uuid)
  | closed (id : Uuid)
  deriving DecidableEq

/-- The call that an event is, or that the task makes. -/
def callOf (manager : WfdeSessionManager threads) : ManagerEvent threads → Option ManagerCall
  | .create session => some (.created session.uuid)
  | .close id => some (.closed id)
  | .tick _ _ => none
  | .task index => manager.posted[index]?.map fun task => .closed task.uuid

/-- A session has been created and not closed since. -/
def IsOpen (calls : List ManagerCall) (id : Uuid) : Prop :=
  ∃ before after, calls = before ++ .created id :: after ∧ .closed id ∉ after

theorem isOpen_concat (calls : List ManagerCall) (call : ManagerCall) (id : Uuid) :
    IsOpen (calls ++ [call]) id ↔ call = .created id ∨ call ≠ .closed id ∧ IsOpen calls id := by
  constructor
  · rintro ⟨before, after, heq, hclosed⟩
    obtain rfl | ⟨rest, last, rfl⟩ := List.eq_nil_or_concat' after
    · exact .inl (List.singleton_inj.mp (List.append_inj' heq rfl).2)
    · rw [← List.cons_append, ← List.append_assoc] at heq
      obtain ⟨rfl, hlast⟩ := List.append_inj' heq rfl
      obtain rfl := List.singleton_inj.mp hlast
      rw [List.mem_append, not_or, List.mem_singleton] at hclosed
      exact .inr ⟨fun h => hclosed.2 h.symm, before, rest, rfl, hclosed.1⟩
  · rintro (rfl | ⟨hne, before, after, rfl, hclosed⟩)
    · exact ⟨calls, [], rfl, by simp⟩
    · refine ⟨before, after ++ [call], by simp, ?_⟩
      rw [List.mem_append, not_or, List.mem_singleton]
      exact ⟨hclosed, fun h => hne h.symm⟩

/-- The sessions under their ids are the open ones. -/
def Tracks (calls : List ManagerCall) (manager : WfdeSessionManager threads) : Prop :=
  ∀ id, id ∈ manager.sessions.map (·.uuid) ↔ IsOpen calls id

theorem Tracks.closed {calls : List ManagerCall} (h : Tracks calls manager)
    (hconsistent : manager.Consistent) (id : Uuid) :
    Tracks (calls ++ [.closed id]) (manager.tryClose id) := by
  intro other
  rw [isOpen_concat, ← h other, (hconsistent.tryClose id).2]
  simp only [reduceCtorEq, false_or, List.mem_map, List.mem_filter, decide_eq_true_eq]
  constructor
  · rintro ⟨session, ⟨hsession, hne⟩, rfl⟩
    exact ⟨fun heq => hne (ManagerCall.closed.inj heq).symm, session, hsession, rfl⟩
  · rintro ⟨hne, session, hsession, rfl⟩
    exact ⟨session, ⟨hsession, fun heq => hne (congrArg _ heq.symm)⟩, rfl⟩

theorem Tracks.created {calls : List ManagerCall} (h : Tracks calls manager)
    (hconsistent : manager.Consistent) {session : ManagedSession threads}
    (hnew : session.uuid ∉ manager.sessions.map (·.uuid)) :
    Tracks (calls ++ [.created session.uuid]) (manager.createSession session) := by
  intro other
  rw [isOpen_concat, ← h other, (hconsistent.createSession hnew).2]
  simp [or_comm, eq_comm]

/-- The posted task, if the event is one, finds the stub that has posted it. -/
def findsStub : Option (WfdeSessionManager threads) → ManagerEvent threads → Bool
  | some manager, .task index => manager.posted[index]?.all fun task => manager.isThere task.stub
  | _, _ => true

/-- What one event keeps. A new session has an id that is not there yet. -/
theorem step_consistent {calls : List ManagerCall} {event : ManagerEvent threads}
    (hconsistent : manager.Consistent) (htracks : Tracks calls manager)
    (hfinds : findsStub (some manager) event = true)
    (hnew : ∀ session, event = .create session → ¬ IsOpen calls session.uuid) :
    ∃ next, manager.step event = some next ∧ next.Consistent
      ∧ Tracks (calls ++ (manager.callOf event).toList) next := by
  cases event with
  | create session =>
      have hfresh : session.uuid ∉ manager.sessions.map (·.uuid) := by
        rw [htracks]
        exact hnew session rfl
      exact ⟨_, rfl, (hconsistent.createSession hfresh).1, htracks.created hconsistent hfresh⟩
  | close id => exact ⟨_, rfl, (hconsistent.tryClose id).1, htracks.closed hconsistent id⟩
  | tick id timedOut =>
      simp only [step, callOf, Option.toList_none, List.append_nil]
      by_cases hdue : id ∈ manager.timers
      · rw [if_pos hdue]
        obtain ⟨hnext, hsessions⟩ := hconsistent.tick hdue timedOut
        refine ⟨_, rfl, hnext, fun other => ?_⟩
        rw [hsessions]
        exact htracks other
      · rw [if_neg hdue]
        exact ⟨manager, rfl, hconsistent, htracks⟩
  | task index =>
      simp only [step, callOf]
      cases htask : manager.posted[index]? with
      | none => exact ⟨manager, rfl, hconsistent, by simpa using htracks⟩
      | some task =>
          let left : WfdeSessionManager threads :=
            { manager with posted := manager.posted.eraseIdx index }
          have hleft : left.Consistent := hconsistent.of_eq rfl rfl rfl
          have hthere : manager.isThere task.stub = true := by
            simpa [findsStub, htask] using hfinds
          have hrun : left.runTask task = some (left.tryClose task.uuid) := if_pos hthere
          exact ⟨_, hrun, (hleft.tryClose _).1, @Tracks.closed _ left calls htracks hleft _⟩

section Runs

def stepFrom (state : Option (WfdeSessionManager threads)) (event : ManagerEvent threads) :
    Option (WfdeSessionManager threads) :=
  state.bind fun manager => manager.step event

def run (events : List (ManagerEvent threads)) : Option (WfdeSessionManager threads) :=
  Machine.run stepFrom (some {}) events

def calls (events : List (ManagerEvent threads)) : List ManagerCall :=
  Machine.trace stepFrom (fun state event => state.bind fun manager => manager.callOf event)
    (some {}) events

def createdId : ManagerEvent threads → Option Uuid
  | .create session => some session.uuid
  | _ => none

/-- `random_generator` does not repeat itself. -/
def FreshIds (events : List (ManagerEvent threads)) : Prop := (events.filterMap createdId).Nodup

instance (events : List (ManagerEvent threads)) : Decidable (FreshIds events) :=
  inferInstanceAs (Decidable (List.Nodup _))

/-- No posted close runs when the stub that has posted it is gone. -/
def TasksFindStubs (events : List (ManagerEvent threads)) : Prop :=
  Machine.Along stepFrom (fun state event => findsStub state event = true) (some {}) events

instance (events : List (ManagerEvent threads)) : Decidable (TasksFindStubs events) :=
  inferInstanceAs (Decidable (Machine.Along ..))

theorem IsOpen.mem {calls : List ManagerCall} {id : Uuid} (h : IsOpen calls id) :
    .created id ∈ calls := by
  obtain ⟨before, after, rfl, -⟩ := h
  simp

theorem createdId_of_callOf {event : ManagerEvent threads} {id : Uuid}
    (h : manager.callOf event = some (.created id)) : createdId event = some id := by
  cases event with
  | create session => simpa [callOf, createdId] using h
  | close other => simp [callOf] at h
  | tick => simp [callOf] at h
  | task index => simp [callOf] at h

theorem run_consistent (events : List (ManagerEvent threads)) (hfresh : FreshIds events)
    (hfind : TasksFindStubs events) :
    ∃ manager, run events = some manager ∧ manager.Consistent ∧ Tracks (calls events) manager
      ∧ ∀ id, .created id ∈ calls events → id ∈ events.filterMap createdId := by
  induction events using List.reverseRecOn with
  | nil =>
      refine ⟨{}, rfl, consistent_empty, fun id => ?_, fun id hid => ?_⟩
      · simp [calls, Machine.trace, IsOpen]
      · simp [calls, Machine.trace] at hid
  | append_singleton events event ih =>
      unfold FreshIds at hfresh
      rw [List.filterMap_append, List.nodup_append'] at hfresh
      obtain ⟨hbefore, hlast⟩ := (Machine.along_append stepFrom).mp hfind
      obtain ⟨manager, hrun, hconsistent, htracks, hcreated⟩ := ih hfresh.1 hbefore
      have hstate : Machine.run stepFrom (some {}) events = some manager := hrun
      have hnew : ∀ session, event = .create session → ¬ IsOpen (calls events) session.uuid := by
        rintro session rfl hopen
        exact hfresh.2.2 (hcreated _ hopen.mem) (by simp [createdId])
      obtain ⟨next, hstep, hnext, hnextTracks⟩ :=
        step_consistent hconsistent htracks (hstate ▸ hlast.1) hnew
      have hcalls : calls (events ++ [event]) = calls events ++ (manager.callOf event).toList := by
        rw [calls, Machine.trace_append, hstate]
        simp [Machine.trace, calls]
      refine ⟨next, ?_, hnext, hcalls ▸ hnextTracks, fun id hid => ?_⟩
      · rw [run, Machine.run_append, hstate]
        exact hstep
      · rw [hcalls, List.mem_append] at hid
        rw [List.filterMap_append, List.mem_append]
        refine hid.imp (hcreated id) fun hid => ?_
        have hcall : createdId event = some id := createdId_of_callOf (Option.mem_toList.mp hid)
        simp [hcall]

/-- There is a state behind an event only if its task finds the stub. -/
theorem findsStub_of_step {event : ManagerEvent threads} {next : WfdeSessionManager threads}
    (h : manager.step event = some next) : findsStub (some manager) event = true := by
  cases event with
  | task index =>
      simp only [step] at h
      cases htask : manager.posted[index]? with
      | none => simp [findsStub, htask]
      | some task =>
          simp only [htask, runTask] at h
          split at h
          · simpa [findsStub, htask] using ‹_›
          · cases h
  | create session => rfl
  | close id => rfl
  | tick id timedOut => rfl

theorem tasksFindStubs_of_run {events : List (ManagerEvent threads)}
    {manager : WfdeSessionManager threads} (h : run events = some manager) :
    TasksFindStubs events := by
  induction events using List.reverseRecOn generalizing manager with
  | nil => trivial
  | append_singleton events event ih =>
      rw [run, Machine.run_append] at h
      obtain ⟨before, hbefore, hstep⟩ := Option.bind_eq_some_iff.mp h
      refine (Machine.along_append stepFrom).mpr ⟨ih hbefore, ?_, trivial⟩
      rw [hbefore]
      exact findsStub_of_step hstep

end Runs

def holds (manager : WfdeSessionManager threads) (id : Fin threads) (uuid : Uuid) : Nat :=
  match manager.stubs id with
  | none => 0
  | some stub => stub.thdSessions.countP (·.uuid = uuid)

/-- What the registry, the stubs and the timers have in common after a list of calls. -/
structure Agrees (calls : List ManagerCall) (manager : WfdeSessionManager threads) : Prop where
  ids : ∀ id, id ∈ manager.sessions.map (·.uuid) ↔ ∃ thread, 0 < manager.holds thread id
  once : ∀ session ∈ manager.sessions, ∀ thread,
    manager.holds thread session.uuid = if thread = session.threadId then 1 else 0
  timers : ∀ thread, manager.timers.count thread = if (manager.stubs thread).isSome then 1 else 0
  found : ∀ id, (∃ session, manager.getSession id = .ok session ∧ session.uuid = id)
    ↔ IsOpen calls id
  stub : ∀ id session, manager.getSession id = .ok session →
    (manager.stubs session.threadId).isSome
  again : ∀ id, ¬ IsOpen calls id →
    manager.closeSession id = .error .notFound ∧ manager.tryClose id = manager

theorem Consistent.mem_of_stub (h : manager.Consistent) {id : Fin threads} {stub : ThreadStub threads}
    (hstub : manager.stubs id = some stub) {session : ManagedSession threads}
    (hsession : session ∈ stub.thdSessions) : session ∈ manager.sessions := by
  obtain rfl := h.own id stub hstub session hsession
  exact (h.held session).mpr ⟨stub, hstub, hsession⟩

theorem Consistent.holds_eq (h : manager.Consistent) {session : ManagedSession threads}
    (hsession : session ∈ manager.sessions) (id : Fin threads) :
    manager.holds id session.uuid = if id = session.threadId then 1 else 0 := by
  have hsame : ∀ {stub}, manager.stubs id = some stub → ∀ other ∈ stub.thdSessions,
      (other.uuid = session.uuid ↔ other = session) := by
    intro stub hstub other hother
    exact ⟨h.eq_of_uuid_eq (h.mem_of_stub hstub hother) hsession, congrArg _⟩
  by_cases hid : id = session.threadId
  · obtain ⟨stub, hstub, hmem⟩ := (h.held session).mp hsession
    rw [← hid] at hstub
    have hcount : stub.thdSessions.countP (·.uuid = session.uuid) = stub.thdSessions.count session :=
      List.countP_congr fun other hother => by simpa using hsame hstub other hother
    rw [if_pos hid, holds, hstub]
    exact hcount.trans (List.count_eq_one_of_mem (h.once id stub hstub) hmem)
  · rw [if_neg hid, holds]
    cases hstub : manager.stubs id with
    | none => rfl
    | some stub =>
        refine List.countP_eq_zero.mpr fun other hother heq => hid ?_
        have hother' : other = session := (hsame hstub other hother).mp (by simpa using heq)
        rw [← hother', h.own id stub hstub other hother]

theorem Consistent.getSession_eq_ok (h : manager.Consistent) {id : Uuid}
    {session : ManagedSession threads} (hget : manager.getSession id = .ok session) :
    session ∈ manager.sessions ∧ session.uuid = id := by
  by_cases hid : id ∈ manager.sessions.map (·.uuid)
  · obtain ⟨found, hfound, rfl⟩ := List.mem_map.mp hid
    rw [h.getSession_of_mem hfound] at hget
    obtain rfl := Except.ok.inj hget
    exact ⟨hfound, rfl⟩
  · rw [getSession_of_not_mem hid] at hget
    cases hget

theorem Consistent.agrees {calls : List ManagerCall} (h : manager.Consistent)
    (htracks : Tracks calls manager) : Agrees calls manager where
  ids id := by
    constructor
    · intro hid
      obtain ⟨session, hsession, rfl⟩ := List.mem_map.mp hid
      exact ⟨session.threadId, by simp [h.holds_eq hsession]⟩
    · rintro ⟨thread, hholds⟩
      rw [holds] at hholds
      cases hstub : manager.stubs thread with
      | none => simp [hstub] at hholds
      | some stub =>
          simp only [hstub, List.countP_pos_iff, decide_eq_true_eq] at hholds
          obtain ⟨session, hsession, rfl⟩ := hholds
          exact List.mem_map.mpr ⟨session, h.mem_of_stub hstub hsession, rfl⟩
  once session hsession thread := h.holds_eq hsession thread
  timers := h.timers
  found id := by
    rw [← htracks id, List.mem_map]
    constructor
    · rintro ⟨session, hget, rfl⟩
      exact ⟨session, (h.getSession_eq_ok hget).1, rfl⟩
    · rintro ⟨session, hsession, rfl⟩
      exact ⟨session, h.getSession_of_mem hsession, rfl⟩
  stub id session hget := by
    obtain ⟨stub, hstub, -⟩ := (h.held session).mp (h.getSession_eq_ok hget).1
    simp [hstub]
  again id hclosed := by
    have hnone := closeSession_of_not_mem (mt (htracks id).mp hclosed)
    exact ⟨hnone, by rw [WfdeSessionManager.tryClose, hnone]⟩

/-- **Session registry.** The manager comes to a state, in which the registry, the stubs and the
timers agree, if and only if no posted close runs when the stub that has posted it is gone. -/
theorem run_agrees_iff (threads : Nat) (events : List (ManagerEvent threads))
    (hfresh : FreshIds events) :
    (∃ manager, run events = some manager ∧ Agrees (calls events) manager)
      ↔ TasksFindStubs events := by
  constructor
  · rintro ⟨manager, hrun, -⟩
    exact tasksFindStubs_of_run hrun
  · intro hfind
    obtain ⟨manager, hrun, hconsistent, htracks, -⟩ := run_consistent events hfresh hfind
    exact ⟨manager, hrun, hconsistent.agrees htracks⟩

def onlySession : ManagedSession 1 := ⟨1, 0⟩

/-- The session times out and is closed by the task, and the stub goes with the timer. -/
def timesOut : List (ManagerEvent 1) :=
  [.create onlySession, .tick 0 fun _ => true, .task 0, .tick 0 fun _ => false]

/-- The client is gone first, and the stub too when the task comes. -/
def closesLate : List (ManagerEvent 1) :=
  [.create onlySession, .tick 0 fun _ => true, .close 1, .tick 0 fun _ => false, .task 0]

theorem run_agrees_timesOut :
    FreshIds timesOut ∧ ∃ manager, run timesOut = some manager ∧ Agrees (calls timesOut) manager :=
  ⟨by decide, (run_agrees_iff 1 timesOut (by decide)).mpr (by decide)⟩

/-- The task refers to a stub that the timer has destroyed. -/
theorem not_run_agrees_closesLate :
    FreshIds closesLate ∧ calls closesLate = [.created 1, .closed 1, .closed 1]
      ∧ ¬ ∃ manager, run closesLate = some manager ∧ Agrees (calls closesLate) manager := by
  refine ⟨by decide, by decide, ?_⟩
  rintro ⟨manager, hrun, -⟩
  have hnone : (run closesLate).isNone = true := by decide
  rw [hrun] at hnone
  cases hnone

end WfdeSessionManager

end Wfde
