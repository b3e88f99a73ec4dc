import Wfde.Proof.ServerRuns
import Wfde.Proof.StartedTransfers

/-!
# Transfers among other sessions

A transfer that one session runs while the others take their turns. What its turns keep, and what no
change of the disk elsewhere can break, holds as long as nobody else may change anything at or below
its file.
-/

namespace Wfde

open Effect FtpSession Separation WfdeFile

/-- What is at or below a path. -/
def Reach.under (path : PPath) : Reach where
  reads := {other | path <+: other}
  writes := {other | path <+: other}
  reads_below := List.IsPrefix.trans
  writes_below := List.IsPrefix.trans
  writes_subset _ hother := hother

namespace FtpSession

variable {path : PPath} {ftp : FtpSession} {disk disk' : Disk}

/-- The file of the transfer, if there is one, is at or below the path. -/
def UsesOnly (path : PPath) (ftp : FtpSession) : Prop :=
  ∀ file, ftp.currentFile = some file → Uses (.under path) false ftp file

theorem UsesOnly.twin (h : UsesOnly path ftp) (hsees : Sees (.under path) disk disk') :
    Twin (.under path) disk.files (fun _ => True) false { ftp with disk := disk }
      { ftp with disk := disk' } :=
  ⟨rfl, ⟨hsees.node, hsees.refuses, fun _ _ => rfl, rfl⟩, trivial, h⟩

theorem UsesOnly.stepTransfer (h : UsesOnly path ftp)
    (hin : ftp.transferFile.isSome = true → ftp.state.isInTransfer = true) (event : Event) :
    UsesOnly path (stepTransfer ftp event) := by
  rcases stepTransfer_cases hin event with ⟨-, hwork⟩ | ⟨env, answer, -, hstep⟩
  · have hphase : (ftp.stepTransfer event).transferFile = ftp.transferFile :=
      congrArg Work.transferFile hwork
    have htransfer : (ftp.stepTransfer event).state.transfer = ftp.state.transfer :=
      congrArg Work.transfer hwork
    have hcurrent : (ftp.stepTransfer event).currentFile = ftp.currentFile :=
      congrArg Work.currentFile hwork
    intro file hfile
    rw [hcurrent] at hfile
    unfold Uses
    rw [htransfer, hphase]
    exact h file hfile
  · rw [hstep]
    have htwin := h.twin ((sees_equivalence (.under path)).refl ftp.disk)
    exact ((inStep_resume env answer).after htwin).file

section Files

variable {file : WfdeFile} {held bytes : Bytes} {buffer : MutableBuffer}
  (hsees : Sees (.under path) disk disk')
include hsees

theorem Sees.node_eq : disk'.files.node path = disk.files.node path :=
  (hsees.node path List.prefix_rfl).symm

theorem Sees.refuses_eq (access : Access) :
    disk'.files.refuses access path = disk.files.refuses access path :=
  (hsees.refuses access path List.prefix_rfl).symm

theorem Holds.onDisk (h : WfdeFile.Holds file disk held) (hpath : file.path = path) :
    WfdeFile.Holds file disk' held where
  content := by rw [hpath, Sees.node_eq hsees, ← hpath]; exact h.content
  eof := h.eof
  mapped := h.mapped
  closed := h.closed
  writable := by rw [hpath, Sees.refuses_eq hsees, ← hpath]; exact h.writable
  visible := by rw [hpath, Sees.refuses_eq hsees, ← hpath]; exact h.visible
  segment := h.segment

theorem Offers.onDisk (h : Offers file disk held buffer) (hpath : file.path = path) :
    Offers file disk' held buffer :=
  ⟨Holds.onDisk hsees h.holds hpath, h.start, h.pos, h.last, h.room⟩

theorem Stored.onDisk (h : Stored file disk held buffer bytes) (hpath : file.path = path) :
    Stored file disk' held buffer bytes where
  offers := Offers.onDisk hsees h.offers hpath
  le := h.le
  stored := by rw [hpath, Sees.node_eq hsees, ← hpath]; exact h.stored

theorem Exact.onDisk (h : Exact file disk held) (hpath : file.path = path) :
    Exact file disk' held where
  takes := ⟨Holds.onDisk hsees h.takes.holds hpath, h.takes.pos⟩
  cut := by
    rw [hpath, Sees.node_eq hsees, ← hpath]
    exact h.cut

end Files

/-- What happens elsewhere on the disk does not matter to the file of an upload. -/
structure KeptAside (path : PPath) (receiver : Receiver) : Prop where
  ready : ∀ {past file disk disk'}, Sees (.under path) disk disk' →
    receiver.ready past file disk → receiver.ready past file disk'
  offers : ∀ {past buffer file disk disk'}, Sees (.under path) disk disk' →
    receiver.offers past buffer file disk → receiver.offers past buffer file disk'
  stored : ∀ {past count file disk disk'}, Sees (.under path) disk disk' →
    receiver.stored past count file disk → receiver.stored past count file disk'
  complete : ∀ {past file disk disk'}, Sees (.under path) disk disk' →
    receiver.complete past file disk → receiver.complete past file disk'
  settled : ∀ {past disk disk'}, Sees (.under path) disk disk' →
    receiver.settled past disk → receiver.settled past disk'

section Uploads

variable {segmentSize : Nat} {base : Bytes} {receiver : Receiver} {past : List SocketRead}

theorem keptAside_mapped (segmentSize : Nat) (path : PPath) (base : Bytes) :
    KeptAside path (mapped segmentSize path base) where
  ready := by
    rintro past file disk disk' hsees ⟨raw, hmaps, hholds, hrest⟩
    exact ⟨raw, hmaps, Holds.onDisk hsees hholds hmaps.path, hrest⟩
  offers := by
    rintro past buffer file disk disk' hsees ⟨raw, region, hmaps, hbuffer, hsize, hoffers, hshort⟩
    exact ⟨raw, region, hmaps, hbuffer, hsize, Offers.onDisk hsees hoffers hmaps.path, hshort⟩
  stored := by
    rintro past count file disk disk' hsees ⟨raw, region, held, bytes, hmaps, hcount, hstored, hrest⟩
    exact ⟨raw, region, held, bytes, hmaps, hcount, Stored.onDisk hsees hstored hmaps.path, hrest⟩
  complete := by
    rintro past file disk disk' hsees ⟨heof, raw, hmaps, hholds, htruncate⟩
    exact ⟨heof, raw, hmaps, Holds.onDisk hsees hholds hmaps.path, htruncate⟩
  settled {past disk disk'} hsees h := by
    constructor
    · rw [Sees.node_eq hsees]
      exact h.eof
    · rw [Sees.node_eq hsees]
      exact h.failed

theorem keptAside_wrapped (segmentSize : Nat) (path : PPath) (base : Bytes) :
    KeptAside path (wrapped segmentSize path base) where
  ready := by
    rintro past file disk disk' hsees ⟨raw, memory, hwraps, hexact⟩
    exact ⟨raw, memory, hwraps, Exact.onDisk hsees hexact hwraps.path⟩
  offers := by
    rintro past buffer file disk disk' hsees ⟨hsize, raw, memory, hwraps, hexact⟩
    exact ⟨hsize, raw, memory, hwraps, Exact.onDisk hsees hexact hwraps.path⟩
  stored := by
    rintro past count file disk disk' hsees ⟨hcount, raw, memory, held, hwraps, hexact, hheld⟩
    exact ⟨hcount, raw, memory, held, hwraps, Exact.onDisk hsees hexact hwraps.path, hheld⟩
  complete := by
    rintro past file disk disk' hsees ⟨raw, memory, hwraps, hexact⟩
    exact ⟨raw, memory, hwraps, Exact.onDisk hsees hexact hwraps.path⟩
  settled {past disk disk'} hsees h := by
    change TextSettled path base past disk'
    unfold TextSettled
    rw [Sees.node_eq hsees]
    exact h

/-- The others may change the disk elsewhere. -/
theorem KeptAside.onDisk (hkept : KeptAside path receiver) (h : (receiver.course past).At ftp)
    (huses : UsesOnly path ftp) (hsees : Sees (.under path) ftp.disk disk) :
    (receiver.course past).At { ftp with disk } := by
  have hon {p : File → Disk → Prop} (hp : ∀ {file}, p file ftp.disk → p file disk) (h : On p ftp) :
      On p { ftp with disk } := h.imp fun _ h => ⟨h.1, hp h.2⟩
  have hclosed : Sees (.under path) ftp.closedDisk { ftp with disk := disk }.closedDisk :=
    have htwins := (huses.twin hsees).closedDisk
    ⟨htwins.inside, htwins.refuses⟩
  refine h.follow ⟨rfl, ?_, ?_, hkept.settled hclosed, hkept.settled hsees⟩ rfl rfl
  · exact fun hat => ⟨hat.1, hon (hkept.ready hsees) hat.2⟩
  · intro phase hat
    cases phase with
    | receiving buffer => exact hon (hkept.offers hsees) hat
    | warning count => exact hon (hkept.stored hsees) hat
    | shuttingDown transfer => exact ⟨hat.1, hon (hkept.complete hsees) hat.2⟩
    | _ => exact hat.elim

end Uploads

/-- A turn of the transfer coroutine, to be counted. -/
def turnOf (_ : FtpSession) (event : Event) : Option Unit :=
  if event.isTransfer then some () else none

end FtpSession

namespace ServedSessions

variable {κ : Type} {w : ServedSessions} {id : Uuid} {path : PPath}
  {events : List (Uuid × ServerEvent)}

/-- The transfer coroutine of a session lives. -/
def Transfers (id : Uuid) (w : ServedSessions) : Prop :=
  ∃ served, w.process id = some served ∧ served.ftp.transferFile.isSome = true

instance (id : Uuid) (w : ServedSessions) : Decidable (Transfers id w) :=
  decidable_of_iff ((w.process id).any fun served => served.ftp.transferFile.isSome) <| by
    unfold Transfers
    cases w.process id with
    | none => simp
    | some served => simp

/-- What a turn of one session shows. -/
def shows (label : FtpSession → Event → Option κ) (id : Uuid) (w : ServedSessions)
    (event : Uuid × ServerEvent) : Option κ :=
  if event.1 = id then
    match w.process id, event.2 with
    | some served, .session event => label served.ftp event
    | _, _ => none
  else none

/-- What the data connection of a session returns. -/
def readsOf (id : Uuid) (w : ServedSessions) (events : List (Uuid × ServerEvent)) :
    List SocketRead := Machine.trace step (shows socketReadOf id) w events

/-- The number of turns that the transfer coroutine of a session takes. -/
def transferTurns (id : Uuid) (events : List (Uuid × ServerEvent)) : Nat :=
  ((eventsIn (eventsOf id events)).filter Event.isTransfer).length

/-- A step of a transfer, if the other sessions do no more than they may. -/
structure Proceeds (label : FtpSession → Event → Option κ) (ok : κ → Prop)
    (spares : Disk → Disk → Prop) (id : Uuid) (w : ServedSessions) (event : Uuid × ServerEvent) :
    Prop where
  transfers : Transfers id w
  shown : ∀ o ∈ shows label id w event, ok o
  others : event.1 ≠ id → spares w.store (w.step event).store

/-- What a turn of the transfer keeps on its own, and what the changes of the others leave. -/
structure TransferRule (label : FtpSession → Event → Option κ) (ok : κ → Prop)
    (spares : Disk → Disk → Prop) (inv : List κ → FtpSession → Prop) : Prop where
  against : ∀ ftp disk auth event,
    label { ftp with disk } (Event.against auth event) = label ftp event
  turn : ∀ past ftp event, inv past ftp → ftp.transferFile.isSome = true →
    (∀ o ∈ label ftp event, ok o) →
      inv (past ++ (label ftp event).toList) (ftp.stepTransfer event)
  disk : ∀ past (ftp : FtpSession) disk, inv past ftp → spares ftp.disk disk →
    inv past { ftp with disk }

/-- A session of which the invariant holds, on the disk as it is. -/
def Carries (inv : List κ → FtpSession → Prop) (id : Uuid) (past : List κ) (w : ServedSessions) :
    Prop :=
  ∃ served, w.process id = some served ∧ inv past (served.onDisk w.store).ftp

section Turns

variable {served : Served}

theorem step_process_self (hserved : w.process id = some served) (event : ServerEvent) :
    (w.step (id, event)).process id = (serve (some served) w.store event).1 := by
  rw [← hserved]
  exact turn_process_self w id event

theorem step_store_self (hserved : w.process id = some served) (event : ServerEvent) :
    (w.step (id, event)).store = (serve (some served) w.store event).2 := by
  rw [← hserved]
  rfl

theorem shows_session (label : FtpSession → Event → Option κ)
    (hserved : w.process id = some served) (event : Event) :
    shows label id w (id, .session event) = label served.ftp event := by
  rw [shows, if_pos rfl, hserved]

theorem shows_connected (label : FtpSession → Event → Option κ) (host : WfdeHost)
    (running : Bool) (segmentSize : Nat) :
    shows label id w (id, .connected host running segmentSize) = none := by
  rw [shows, if_pos rfl]
  split
  · rename_i hevent
    cases hevent
  · rfl

/-- A session stays. -/
theorem exists_process_step (hserved : w.process id = some served)
    (event : Uuid × ServerEvent) : ∃ left, (w.step event).process id = some left := by
  obtain ⟨other, event⟩ := event
  by_cases hid : id = other
  · subst hid
    rw [step_process_self hserved]
    cases event <;> exact ⟨_, rfl⟩
  · exact ⟨served, (turn_process_of_ne w hid event).trans hserved⟩

theorem length_trace_turnOf (hserved : w.process id = some served) :
    (Machine.trace step (shows turnOf id) w events).length = transferTurns id events := by
  induction events generalizing w served with
  | nil => rfl
  | cons event events ih =>
      obtain ⟨left, hleft⟩ := exists_process_step hserved event
      rw [Machine.trace, List.length_append, ih hleft]
      obtain ⟨other, event⟩ := event
      by_cases hid : other = id
      · subst hid
        rw [transferTurns, transferTurns, eventsOf_cons_self]
        cases event with
        | connected host running segmentSize =>
            rw [shows_connected]
            exact Nat.zero_add _
        | session event =>
            rw [shows_session turnOf hserved, turnOf]
            cases hturn : event.isTransfer with
            | true => simp [eventsIn, ServerEvent.inSession, hturn, Nat.add_comm]
            | false => simp [eventsIn, ServerEvent.inSession, hturn]
      · have hnone : shows turnOf id w (other, event) = none := if_neg hid
        rw [hnone, transferTurns, transferTurns, eventsOf_cons_of_ne hid]
        exact Nat.zero_add _

/-- What a session keeps in every step, on whatever disk, every session of a server keeps. -/
theorem session_invariant (inv : FtpSession → Prop)
    (hfresh : ∀ permissions disk segmentSize, inv (fresh permissions disk segmentSize))
    (hstep : ∀ ftp event, inv ftp → inv (ftp.step event))
    (hdisk : ∀ (ftp : FtpSession) disk, inv ftp → inv { ftp with disk }) (disk : Disk)
    (events : List (Uuid × ServerEvent)) {served : Served}
    (hserved : (run (idle disk) events).process id = some served) : inv served.ftp := by
  let held (session : Option Served) : Prop := ∀ served, session = some served → inv served.ftp
  have hserve (session : Option Served) (disk : Disk) (event : ServerEvent) (h : held session) :
      held (serve session disk event).1 := by
    intro left hleft
    cases session with
    | none =>
        cases event with
        | session event => cases hleft
        | connected host running segmentSize =>
            unfold serve WfdeHost.onConnected at hleft
            dsimp only at hleft
            cases running with
            | false => cases hleft
            | true =>
                rw [if_pos rfl, WfdeHost.handleConnection_eq] at hleft
                obtain rfl := Option.some.inj hleft
                exact hfresh _ _ _
    | some served =>
        cases event with
        | connected host running segmentSize =>
            obtain rfl := Option.some.inj hleft
            exact h served rfl
        | session event =>
            obtain rfl := Option.some.inj hleft
            exact hstep _ _ (hdisk _ _ (h served rfl))
  have hrun := Machine.run_induction step (fun w => ∀ id, held (w.process id))
    (fun w event hw id => ?_) (s := idle disk) (fun _ _ hnone => by cases hnone) events
  · exact hrun id served hserved
  · obtain ⟨other, event⟩ := event
    by_cases hid : id = other
    · subst hid
      rw [step, turn_process_self]
      exact hserve _ _ _ (hw id)
    · rw [step, turn_process_of_ne w hid]
      exact hw id

end Turns

section Rule

variable {label : FtpSession → Event → Option κ} {ok : κ → Prop} {spares : Disk → Disk → Prop}
  {inv : List κ → FtpSession → Prop} (h : TransferRule label ok spares inv)
include h

theorem Carries.step {past : List κ} {event : Uuid × ServerEvent} (hw : Carries inv id past w)
    (hproceeds : Proceeds label ok spares id w event) :
    Carries inv id (past ++ (shows label id w event).toList) (w.step event) := by
  obtain ⟨served, hserved, hinv⟩ := hw
  obtain ⟨other, event⟩ := event
  by_cases hid : other = id
  · subst hid
    unfold Carries
    rw [step_process_self hserved, step_store_self hserved]
    cases event with
    | connected host running segmentSize =>
        rw [shows_connected, Option.toList_none, List.append_nil]
        exact ⟨served, rfl, hinv⟩
    | session event =>
        have hshown := hproceeds.shown
        rw [shows_session label hserved] at hshown ⊢
        obtain ⟨alive, halive, htransfers⟩ := hproceeds.transfers
        obtain rfl := Option.some.inj (hserved.symm.trans halive)
        have hlabel := h.against served.ftp w.store served.host.authManager event
        have hturn := h.turn past _ (event.against served.host.authManager) hinv htransfers
          (by rw [Served.onDisk, hlabel]; exact hshown)
        have hstep : FtpSession.stepTransfer { served.ftp with disk := w.store }
            (event.against served.host.authManager)
              = FtpSession.step { served.ftp with disk := w.store }
                (event.against served.host.authManager) := if_pos htransfers
        rw [Served.onDisk, hlabel, hstep] at hturn
        exact ⟨_, rfl, hturn⟩
  · have hnone : shows label id w (other, event) = none := if_neg hid
    rw [hnone, Option.toList_none, List.append_nil]
    refine ⟨served, (turn_process_of_ne w (Ne.symm hid) event).trans hserved, ?_⟩
    exact h.disk past { served.ftp with disk := w.store } _ hinv (hproceeds.others hid)

theorem Carries.run (hw : Carries inv id [] w)
    (hproceeds : Machine.Along ServedSessions.step (Proceeds label ok spares id) w events) :
    Carries inv id (Machine.trace ServedSessions.step (shows label id) w events) (w.run events) :=
  Machine.trace_induction_along ServedSessions.step (shows label id) (Carries inv id)
    (fun _ _ _ hproceeds hw => hw.step h hproceeds) hw hproceeds

end Rule

/-- **An upload** goes on as it would alone. -/
theorem rule_receiver {receiver : Receiver} (hsound : receiver.Sound)
    (hkept : KeptAside path receiver) :
    TransferRule socketReadOf SocketRead.Fits (Sees (.under path))
      fun past ftp => (receiver.course past).At ftp ∧ UsesOnly path ftp where
  against ftp disk auth event := by cases event <;> rfl
  turn _ _ event h _ hfits :=
    ⟨Receiver.at_step hsound h.1 event hfits, h.2.stepTransfer (h.1.isInTransfer nofun) event⟩
  disk _ _ _ h hsees := ⟨hkept.onDisk h.1 h.2 hsees, h.2⟩

/-- A file or a listing that is sent, with what had been sent before and the turns that it takes. -/
structure ServesWithin (source : Option PPath) (before whole : Bytes) (bound : Nat) (past : List Unit)
    (ftp : FtpSession) : Prop where
  serving : ∃ turns, (FtpSession.serving source (before ++ whole) turns).At ftp
    ∧ past.length + turns ≤ bound
  grown : before <+: ftp.sent

theorem rule_serving (source : Option PPath) (before whole : Bytes) (bound : Nat) :
    TransferRule turnOf (fun _ => True)
      (fun disk disk' => ∀ path ∈ source, disk'.files.node path = disk.files.node path)
      (ServesWithin source before whole bound) where
  against ftp disk auth event := by cases event <;> rfl
  turn past ftp event h halive _ := by
    obtain ⟨turns, hserving, hbound⟩ := h.serving
    have hone : 1 ≤ turns := serving_one_le hserving halive
    refine ⟨⟨_, (countdown_serving _ _).step hserving event, ?_⟩,
      h.grown.trans (sent_stepTransfer (hserving.isInTransfer nofun) event)⟩
    rw [List.length_append, turnOf]
    cases event.isTransfer with
    | true => simp only [if_true, Option.toList_some, List.length_singleton]; omega
    | false =>
        simp only [Bool.false_eq_true, if_false, Option.toList_none, List.length_nil]
        omega
  disk _ _ _ h hsame :=
    let ⟨turns, hserving, hbound⟩ := h.serving
    ⟨⟨turns, serving_onDisk hserving hsame, hbound⟩, h.grown⟩

/-- The turns of a run change nothing but what the session may change whose turn it is. -/
theorem spares_along (disk : Disk) (events : List (Uuid × ServerEvent)) :
    Machine.Along step
      (fun w event => Spares (reachOf (eventsOf event.1 events)) w.store (w.step event).store)
      (.idle disk) events := by
  let reach (id : Uuid) := reachOf (eventsOf id events)
  refine Machine.Along.imp step (fun w => ∀ id, Alike (reach id) (w.process id) (w.process id))
    (fun w event hstays halike => ?_) (fun w event hstays halike => ?_)
    (s := ServedSessions.idle disk) (fun _ => trivial)
    (stays_run disk reach fun _ _ hgranted => Reach.covers_below hgranted)
  · obtain ⟨other, event⟩ := event
    intro id
    by_cases hid : id = other
    · subst hid
      rw [step, turn_process_self]
      exact (serve_alike hstays (halike id) ((sees_equivalence _).refl w.store)).1
    · rw [step, turn_process_of_ne w hid]
      exact halike id
  · exact (serve_alike hstays (halike event.1) ((sees_equivalence _).refl w.store)).2.2

theorem run_append (before during : List (Uuid × ServerEvent)) (w : ServedSessions) :
    run w (before ++ during) = run (run w before) during := Machine.run_append step w before during

/-- Of all that take a turn, nobody but these sessions may change anything at or below a path, or that
it lies in. -/
def Reserved (told during : List (Uuid × ServerEvent)) (own : Set Uuid) (path : PPath) : Prop :=
  ∀ event ∈ during, event.1 ∉ own → ∀ foreign, Granted (eventsOf event.1 told) foreign →
    foreign.changes = true → ¬ path <+: foreign.ppath ∧ ¬ foreign.ppath <+: path

section Reserved

variable {disk : Disk} {told before during behind : List (Uuid × ServerEvent)} {own : Set Uuid}

theorem Reserved.along (h : Reserved told during own path) (disk : Disk)
    (htold : told = before ++ during ++ behind) :
    Machine.Along step
      (fun w event => event.1 ∉ own → Sees (.under path) w.store (w.step event).store)
      (run (idle disk) before) during := by
  have hspares := spares_along disk told
  rw [htold] at hspares
  have hduring := ((Machine.along_append step).mp ((Machine.along_append step).mp hspares).1).2
  rw [← htold] at hduring
  have hmem := Machine.along_of_forall_mem step (p := (· ∈ during)) (fun _ hmem => hmem)
    (run (idle disk) before)
  refine Machine.Along.imp step (fun _ => True) (fun _ _ _ _ => trivial)
    (fun w event hboth _ hother => ?_) trivial (hduring.and step hmem)
  obtain ⟨hspares, hevent⟩ := hboth
  refine hspares.sees fun below hbelow => ?_
  rintro ⟨foreign, hforeign, hbit, habove⟩
  obtain ⟨hnot, hnot'⟩ := h event hevent hother foreign hforeign hbit
  exact (List.prefix_or_prefix_of_prefix hbelow habove).elim hnot hnot'

/-- Nobody changes what is at a path that is reserved from all. -/
theorem Reserved.node_run (h : Reserved told during ∅ path) (disk : Disk)
    (htold : told = before ++ during ++ behind) :
    (run (idle disk) (before ++ during)).store.files.node path
      = (run (idle disk) before).store.files.node path := by
  rw [run_append]
  refine Machine.run_induction_along step
    (fun w => w.store.files.node path = (run (idle disk) before).store.files.node path)
    (fun w event hsees hw => ?_) rfl (h.along disk htold)
  exact ((hsees (Set.notMem_empty _)).node path List.prefix_rfl).symm.trans hw

/-- The transfer of a session does not end before the last step of a run. -/
def Lives (id : Uuid) (w : ServedSessions) (events : List (Uuid × ServerEvent)) : Prop :=
  Machine.Along step (fun w _ => Transfers id w) w events

instance (id : Uuid) (w : ServedSessions) (events : List (Uuid × ServerEvent)) :
    Decidable (Lives id w events) := inferInstanceAs (Decidable (Machine.Along _ _ _ _))

theorem Reserved.proceeds (h : Reserved told during {id} path)
    (htold : told = before ++ during ++ behind)
    (hlives : Lives id (run (idle disk) before) during) {ok : SocketRead → Prop}
    (hreads : ∀ read ∈ readsOf id (run (idle disk) before) during, ok read) :
    Machine.Along step (Proceeds socketReadOf ok (Sees (.under path)) id)
      (run (idle disk) before) during := by
  have hothers := h.along disk htold
  have hread := Machine.along_of_forall_trace step (shows socketReadOf id) hreads
  refine Machine.Along.imp step (fun _ => True) (fun _ _ _ _ => trivial)
    (fun w event hall _ => ?_) trivial ((hlives.and step hread).and step hothers)
  exact ⟨hall.1.1, hall.1.2, hall.2⟩

theorem proceeds_of_source {source : Option PPath}
    (h : ∀ path ∈ source, Reserved told during {id} path)
    (htold : told = before ++ during ++ behind)
    (hlives : Lives id (run (idle disk) before) during) :
    Machine.Along step (Proceeds turnOf (fun _ => True)
      (fun disk disk' => ∀ path ∈ source, disk'.files.node path = disk.files.node path) id)
      (run (idle disk) before) during := by
  cases source with
  | none =>
      refine Machine.Along.imp step (fun _ => True) (fun _ _ _ _ => trivial)
        (fun w event htransfers _ => ?_) trivial hlives
      exact ⟨htransfers, fun _ _ => trivial, fun _ _ hnone => by cases hnone⟩
  | some path =>
      have hothers := (h path rfl).along disk htold
      refine Machine.Along.imp step (fun _ => True) (fun _ _ _ _ => trivial)
        (fun w event hall _ => ?_) trivial (hlives.and step hothers)
      refine ⟨hall.1, fun _ _ => trivial, fun hother other hpath => ?_⟩
      obtain rfl := Option.some.inj hpath
      exact Sees.node_eq (hall.2 hother)

end Reserved

end ServedSessions

end Wfde
