import Wfde.Ftp.Server
import Wfde.Proof.PermissionSets
import Wfde.Proof.Rename
import Wfde.Proof.SessionFootprint
import Wfde.Proof.SessionPermissions
import Wfde.Proof.Users

/-!
# Runs of a server

Every session of a server holds the permissions of its host, and those of a user of that host if the
client has given its name and its password. What they lead to is all that the session sees of the disk,
and all that it changes.
-/

namespace Wfde

open Effect FtpSession Separation

variable {told : List ServerEvent}

/-- Somebody has connected to the host while it was running. -/
def Connected (told : List ServerEvent) (host : WfdeHost) : Prop :=
  ∃ segmentSize, .connected host true segmentSize ∈ told

def ServerEvent.inSession : ServerEvent → Option Event
  | .connected _ _ _ => none
  | .session event => some event

/-- What the coroutines of a session were told. -/
def eventsIn (told : List ServerEvent) : List Event := told.filterMap ServerEvent.inSession

/-- A name was given with USER, and the password with PASS unless it is empty. -/
def Gives (requests : List Event) (name pwd : Bytes) : Prop :=
  (∃ user ∈ requests, user.Asks .user name) ∧ (pwd = [] ∨ ∃ pass ∈ requests, pass.Asks .pass pwd)

/-- The entries that a session may hold after what it was told: those of its host and those of a user
of that host whose name and password it was given. -/
inductive Granted (told : List ServerEvent) (entry : Path) : Prop
  | host (host : WfdeHost) (hconnected : Connected told host) (hentry : entry ∈ host.permissions.paths)
  | user (host : WfdeHost) (hconnected : Connected told host) (name pwd : Bytes)
      (hgives : Gives (eventsIn told) name pwd) (loginName : Bytes) (perms : Permissions)
      (hlogin : host.authManager.login name pwd = .ok ⟨loginName, some perms⟩)
      (hentry : entry ∈ perms.paths)

theorem Connected.mono {later : List ServerEvent} {host : WfdeHost} (h : Connected told host)
    (hsub : told ⊆ later) : Connected later host :=
  let ⟨segmentSize, hmem⟩ := h
  ⟨segmentSize, hsub hmem⟩

theorem eventsIn_subset {later : List ServerEvent} (hsub : told ⊆ later) :
    eventsIn told ⊆ eventsIn later := List.filterMap_subset _ hsub

theorem Granted.mono {later : List ServerEvent} {entry : Path} (h : Granted told entry)
    (hsub : told ⊆ later) : Granted later entry := by
  cases h with
  | host host hconnected hentry => exact .host host (hconnected.mono hsub) hentry
  | user host hconnected name pwd hgives loginName perms hlogin hentry =>
      have hevents := eventsIn_subset hsub
      obtain ⟨⟨user, huser, hname⟩, hpwd⟩ := hgives
      refine .user host (hconnected.mono hsub) name pwd ⟨⟨user, hevents huser, hname⟩, ?_⟩ loginName
        perms hlogin hentry
      rcases hpwd with hnone | ⟨pass, hpass, hasks⟩
      · exact .inl hnone
      · exact .inr ⟨pass, hevents hpass, hasks⟩

section Permissions

theorem Client.mem_paths_effective {client : Client} {base : Permissions} {entry : Path}
    (h : entry ∈ (client.effective base).paths) :
    entry ∈ base.paths ∨ ∃ perms, client.permissions = some perms ∧ entry ∈ perms.paths := by
  unfold Client.effective at h
  cases hperms : client.permissions with
  | none =>
      rw [hperms] at h
      exact .inl h
  | some perms =>
      rw [hperms] at h
      dsimp only at h
      rw [Permissions.copy_eq, Permissions.paths_merge, List.mem_append, List.mem_filter] at h
      exact h.elim (fun hown => .inr ⟨perms, rfl, hown⟩) fun hbase => .inl hbase.1

theorem WfdeHost.handleConnection_eq (host : WfdeHost) (disk : Disk) (segmentSize : Nat) :
    host.handleConnection disk segmentSize
      = some ⟨host, FtpSession.fresh host.permissions disk segmentSize⟩ := by
  have heffective : host.protocolEntity.getEffectivePermissions 1
      = some (.ok host.permissions.copy) := rfl
  rw [handleConnection, heffective, Permissions.copy_eq]

theorem asks_against {event : Event} {auth : AuthManagerImpl} {cmd : FtpCmd} {param : Bytes}
    (h : (event.against auth).Asks cmd param) : event.Asks cmd param := by
  obtain ⟨env, line, hevent, hcmd, hparam⟩ := h
  cases event with
  | request env' line' =>
      obtain ⟨-, rfl⟩ := Event.request.inj hevent
      exact ⟨env', line', rfl, hcmd, hparam⟩
  | _ => cases hevent

/-- Who is let in by an authentication manager has given a name and a password that it knows. -/
theorem LetsIn.gives {requests front : List Event} {event : Event} {auth : AuthManagerImpl}
    {client : Client} (h : LetsIn front event client)
    (hfront : front ++ [event] <+: requests.map (Event.against auth)) :
    ∃ name pwd, Gives requests name pwd ∧ auth.login name pwd = .ok client := by
  have hmem {other : Event} (hother : other ∈ front ++ [event]) :
      ∃ asked ∈ requests, asked.against auth = other := List.mem_map.mp (hfront.subset hother)
  obtain ⟨env, line, name, pwd, hrequest, hlogin, hhow⟩ := h
  have hlast : event ∈ front ++ [event] := by simp
  obtain ⟨accepted, haccepted, hagainst⟩ := hmem hlast
  refine ⟨name, pwd, ?_, ?_⟩
  · rcases hhow with ⟨huser, hpwd⟩ | ⟨hpass, user, huser, hasks⟩
    · exact ⟨⟨accepted, haccepted, asks_against (hagainst ▸ huser)⟩, .inl hpwd⟩
    · obtain ⟨asked, hasked, hsame⟩ := hmem (List.mem_append_left [event] huser)
      exact ⟨⟨asked, hasked, asks_against (hsame ▸ hasks)⟩,
        .inr ⟨accepted, haccepted, asks_against (hagainst ▸ hpass)⟩⟩
  · cases accepted with
    | request env' line' =>
        obtain ⟨rfl, -⟩ := Event.request.inj (hagainst.trans hrequest)
        exact hlogin
    | _ => cases hagainst.trans hrequest

/-- Where the permissions of a session come from. -/
structure Holds (told : List ServerEvent) (served : Served) : Prop where
  connected : Connected told served.host
  authorised : Authorised served.host.permissions
    ((eventsIn told).map (Event.against served.host.authManager)) served.ftp

variable {served : Served}

theorem Holds.mono {later : List ServerEvent} (h : Holds told served) (htold : told <+: later) :
    Holds later served :=
  ⟨h.connected.mono htold.subset, h.authorised.mono ((htold.filterMap _).map _)⟩

theorem Holds.granted (h : Holds told served) {entry : Path}
    (hentry : entry ∈ served.ftp.session.permissions.paths) : Granted told entry := by
  cases hclient : served.ftp.session.client with
  | none =>
      rw [h.authorised.nobody hclient] at hentry
      exact .host served.host h.connected hentry
  | some client =>
      obtain ⟨hperms, front, event, hfront, hin⟩ := h.authorised.client client hclient
      rw [hperms] at hentry
      rcases Client.mem_paths_effective hentry with hbase | ⟨perms, hown, hmem⟩
      · exact .host served.host h.connected hbase
      · obtain ⟨name, pwd, hgives, hlogin⟩ := hin.gives hfront
        refine .user served.host h.connected name pwd hgives client.loginName perms ?_ hmem
        rw [hlogin, ← hown]

theorem holds_serve {session : Option Served} {disk : Disk} {event : ServerEvent}
    (h : ∀ served, session = some served → Holds told served)
    (hserved : (serve session disk event).1 = some served) : Holds (told ++ [event]) served := by
  have hpast : told <+: told ++ [event] := List.prefix_append told [event]
  cases session with
  | none =>
      cases event with
      | session event => cases hserved
      | connected host running segmentSize =>
          unfold serve WfdeHost.onConnected at hserved
          dsimp only at hserved
          cases running with
          | false => cases hserved
          | true =>
              rw [if_pos rfl, WfdeHost.handleConnection_eq] at hserved
              obtain rfl := Option.some.inj hserved
              refine ⟨⟨segmentSize, by simp⟩, ?_⟩
              exact (authorised_fresh _ _ _).mono List.nil_prefix
  | some before =>
      cases event with
      | connected host running segmentSize =>
          obtain rfl := Option.some.inj hserved
          exact (h before rfl).mono hpast
      | session event =>
          obtain rfl := Option.some.inj hserved
          have hbefore := h before rfl
          refine ⟨hbefore.connected.mono hpast.subset, ?_⟩
          have hondisk : Authorised before.host.permissions
              ((eventsIn told).map (Event.against before.host.authManager))
              { before.ftp with disk } :=
            ⟨hbefore.authorised.nobody, hbefore.authorised.client, hbefore.authorised.name⟩
          have htold : eventsIn (told ++ [.session event]) = eventsIn told ++ [event] :=
            List.filterMap_append
          rw [htold, List.map_append, List.map_singleton]
          exact hondisk.step (event.against before.host.authManager)

/-- **What the sessions of a server hold.** -/
theorem holds_run (disk : Disk) (events : List (Uuid × ServerEvent)) (id : Uuid) (served : Served)
    (hserved : (ServedSessions.run (.idle disk) events).process id = some served) :
    Holds (eventsOf id events) served := by
  induction events using List.reverseRecOn generalizing served with
  | nil => cases hserved
  | append_singleton events event ih =>
      obtain ⟨turnOf, event⟩ := event
      unfold ServedSessions.run at hserved
      rw [Machine.run_append] at hserved
      change (turn serve (ServedSessions.run (.idle disk) events) (turnOf, event)).process id
        = some served at hserved
      by_cases hid : id = turnOf
      · subst hid
        rw [turn_process_self] at hserved
        rw [eventsOf_concat_self]
        exact holds_serve ih hserved
      · rw [turn_process_of_ne _ hid] at hserved
        rw [eventsOf_concat_of_ne (Ne.symm hid)]
        exact ih served hserved

end Permissions

section Reach

variable {reach : Reach} {session session' : Option Served} {disk disk' : Disk}

/-- Two sessions that differ in nothing but what they do not see of their disks. -/
def Alike (reach : Reach) : Option Served → Option Served → Prop
  | none, none => True
  | some served, some served' =>
      served.host = served'.host
        ∧ served'.ftp = { served.ftp with disk := served'.ftp.disk }
        ∧ reach.Covers served.ftp.session.permissions
        ∧ ∀ file, served.ftp.currentFile = some file → Uses reach false served.ftp file
  | _, _ => False

/-- Two disks that are the same to whoever sees no more. -/
structure Sees (reach : Reach) (disk disk' : Disk) : Prop where
  node : ∀ path ∈ reach.reads, disk.files.node path = disk'.files.node path
  refuses : ∀ access, ∀ path ∈ reach.reads,
    disk.files.refuses access path = disk'.files.refuses access path

/-- A disk has changed only where it may be changed. -/
structure Spares (reach : Reach) (before after : Disk) : Prop where
  node : ∀ path ∉ reach.writes, after.files.node path = before.files.node path
  refuses : after.files.refuses = before.files.refuses

theorem Spares.trans {before between after : Disk} (h : Spares reach before between)
    (hnext : Spares reach between after) : Spares reach before after :=
  ⟨fun path hpath => (hnext.node path hpath).trans (h.node path hpath),
    hnext.refuses.trans h.refuses⟩

/-- What may not be changed looks the same. -/
theorem Spares.sees {before after : Disk} (h : Spares reach before after) {seen : Reach}
    (hapart : ∀ path ∈ seen.reads, path ∉ reach.writes) : Sees seen before after :=
  ⟨fun path hpath => (h.node path (hapart path hpath)).symm, fun _ _ _ => by rw [h.refuses]⟩

theorem sees_equivalence (reach : Reach) : Equivalence (Sees reach) where
  refl _ := ⟨fun _ _ => rfl, fun _ _ _ => rfl⟩
  symm h := ⟨fun path hpath => (h.node path hpath).symm,
    fun access path hpath => (h.refuses access path hpath).symm⟩
  trans h hnext := ⟨fun path hpath => (h.node path hpath).trans (hnext.node path hpath),
    fun access path hpath => (h.refuses access path hpath).trans (hnext.refuses access path hpath)⟩

/-- The permissions with which a session ends its turn lead nowhere else. -/
def Stays (reach : Reach) (session : Option Served) (disk : Disk) (event : ServerEvent) : Prop :=
  ∀ served, (serve session disk event).1 = some served →
    reach.Covers served.ftp.session.permissions

/-- **A turn of a session.** It does the same on two disks that are the same to it, and changes them
only where it may. -/
theorem serve_alike {event : ServerEvent} (hstays : Stays reach session disk event)
    (halike : Alike reach session session') (hsees : Sees reach disk disk') :
    Alike reach (serve session disk event).1 (serve session' disk' event).1
      ∧ Sees reach (serve session disk event).2 (serve session' disk' event).2
      ∧ Spares reach disk (serve session disk event).2 := by
  have hspares : Spares reach disk disk := ⟨fun _ _ => rfl, rfl⟩
  cases session with
  | none =>
      cases session' with
      | some _ => exact halike.elim
      | none =>
          cases event with
          | session event => exact ⟨trivial, hsees, hspares⟩
          | connected host running segmentSize =>
              refine ⟨?_, hsees, hspares⟩
              unfold Stays at hstays
              unfold serve WfdeHost.onConnected at hstays ⊢
              dsimp only at hstays ⊢
              cases running with
              | false => trivial
              | true =>
                  rw [if_pos rfl, host.handleConnection_eq] at hstays
                  rw [if_pos rfl, if_pos rfl, host.handleConnection_eq, host.handleConnection_eq]
                  exact ⟨rfl, rfl, hstays _ rfl, nofun⟩
  | some served =>
      cases session' with
      | none => exact halike.elim
      | some served' =>
          cases event with
          | connected host running segmentSize => exact ⟨halike, hsees, hspares⟩
          | session event =>
              obtain ⟨hhost, hftp, hcovers, hfile⟩ := halike
              have htwins : Twins reach disk.files disk disk' :=
                ⟨hsees.node, hsees.refuses, fun _ _ => rfl, rfl⟩
              have htwin : Twin reach disk.files reach.Covers false { served.ftp with disk := disk }
                  { served'.ftp with disk := disk' } :=
                ⟨by rw [hftp], htwins, hcovers, hfile⟩
              have hstep := htwin.step (event.against served.host.authManager) (hstays _ rfl)
              unfold serve
              dsimp only
              rw [← hhost]
              refine ⟨⟨rfl, hstep.same, hstep.permissions, hstep.file⟩, ?_, ?_⟩
              · exact ⟨hstep.disks.inside, hstep.disks.refuses⟩
              · exact ⟨hstep.disks.outside, hstep.disks.kept⟩

/-- The turns of a session whose part of the disk no other one may change. -/
theorem separate_serve (reach : Uuid → Reach) (id : Uuid)
    (hapart : ∀ other, other ≠ id → ∀ path ∈ (reach id).reads, path ∉ (reach other).writes) :
    Separate serve id (fun other session => Alike (reach other) session session)
      (fun other => Stays (reach other)) (Alike (reach id)) (Sees (reach id)) where
  equivalence := sees_equivalence (reach id)
  own _ _ _ _ _ hstays halike hsees :=
    let ⟨halike, hsees, _⟩ := serve_alike hstays halike hsees
    ⟨halike, hsees⟩
  stays other _ disk _ hstays hself :=
    (serve_alike hstays hself ((sees_equivalence (reach other)).refl disk)).1
  others other _ disk _ hne hstays hself :=
    let ⟨_, _, hspares⟩ := serve_alike hstays hself ((sees_equivalence (reach other)).refl disk)
    hspares.sees (hapart other hne)

end Reach

section Runs

variable {events : List (Uuid × ServerEvent)}

/-- What leads to what a session was granted in the end is not left before. -/
theorem stays_run (disk : Disk) (reach : Uuid → Reach)
    (hcovers : ∀ id perms, (∀ entry ∈ perms.paths, Granted (eventsOf id events) entry) →
      (reach id).Covers perms) :
    Machine.Along (turn serve)
      (fun w event => Stays (reach event.1) (w.process event.1) w.store event.2)
      (ServedSessions.idle disk) events := by
  refine Machine.along_of_splits _ fun front event back hsplit served hserved => ?_
  obtain ⟨id, event⟩ := event
  have hholds : Holds (eventsOf id front ++ [event]) served :=
    holds_serve (holds_run disk front id) hserved
  have htold : eventsOf id events = eventsOf id front ++ [event] ++ eventsOf id back := by
    rw [hsplit, eventsOf_append, eventsOf_cons_self, List.append_cons]
  refine hcovers id _ fun entry hentry => (hholds.granted hentry).mono ?_
  rw [htold]
  exact List.subset_append_left _ _

/-- All that any session of a run was granted. -/
def grantedToAny (events : List (Uuid × ServerEvent)) : Set Path :=
  {entry | ∃ id, Granted (eventsOf id events) entry}

theorem spares_run (disk : Disk) (events : List (Uuid × ServerEvent)) :
    Spares (Reach.below (grantedToAny events)) disk
      (ServedSessions.run (.idle disk) events).store := by
  let reach := Reach.below (grantedToAny events)
  let inv (w : ServedSessions) : Prop :=
    Spares reach disk w.store ∧ ∀ id, Alike reach (w.process id) (w.process id)
  have hstart : inv (.idle disk) := ⟨⟨fun _ _ => rfl, rfl⟩, fun _ => trivial⟩
  have hstep (w : ServedSessions) (event : Uuid × ServerEvent)
      (hstays : Stays reach (w.process event.1) w.store event.2) (hw : inv w) :
      inv (turn serve w event) := by
    obtain ⟨turnOf, event⟩ := event
    obtain ⟨hkept, halike⟩ := hw
    obtain ⟨hself, -, hspares⟩ :=
      serve_alike hstays (halike turnOf) ((sees_equivalence reach).refl w.store)
    refine ⟨hkept.trans hspares, fun id => ?_⟩
    by_cases hid : id = turnOf
    · subst hid
      rw [turn_process_self]
      exact hself
    · rw [turn_process_of_ne w hid]
      exact halike id
  have hstays : Machine.Along (turn serve)
      (fun w event => Stays reach (w.process event.1) w.store event.2)
      (ServedSessions.idle disk) events :=
    stays_run disk (fun _ => reach) fun id _ hgranted =>
      Reach.covers_below fun entry hentry => ⟨id, hgranted entry hentry⟩
  exact (Machine.run_induction_along _ inv hstep hstart hstays).1

end Runs

/-- **Integrity.** However the sessions of a server take turns, a node that is not as it was is at or
below an entry with a bit for some change. That entry is one of a host that somebody has connected to,
or of a user of that host whose name and password the same session was given. -/
theorem changes_granted (disk : Disk) (events : List (Uuid × ServerEvent)) (path : PPath) :
    (ServedSessions.run (.idle disk) events).store.files.node path = disk.files.node path
      ∨ ∃ id entry, Granted (eventsOf id events) entry ∧ entry.changes = true
        ∧ entry.ppath <+: path := by
  have hspares := spares_run disk events
  by_cases hpath : path ∈ (Reach.below (grantedToAny events)).writes
  · obtain ⟨entry, ⟨id, hgranted⟩, hbit, hbelow⟩ := hpath
    exact .inr ⟨id, entry, hgranted, hbit, hbelow⟩
  · exact .inl (hspares.node path hpath)

section Noninterference

variable {disk : Disk} {events : List (Uuid × ServerEvent)} {id : Uuid}

/-- A session put on another disk. -/
def Served.onDisk (served : Served) (disk : Disk) : Served :=
  { served with ftp := { served.ftp with disk } }

theorem Alike.map_onDisk {reach : Reach} {session session' : Option Served}
    (h : Alike reach session session') (disk : Disk) :
    session.map (·.onDisk disk) = session'.map (·.onDisk disk) := by
  cases session with
  | none =>
      cases session' with
      | none => rfl
      | some _ => exact False.elim h
  | some served =>
      cases session' with
      | none => exact False.elim h
      | some served' =>
          obtain ⟨hhost, hftp, -⟩ := h
          rw [Option.map_some, Option.map_some, Served.onDisk, Served.onDisk, hhost, hftp]

/-- What a session may see and change. -/
def reachOf (told : List ServerEvent) : Reach := Reach.below {entry | Granted told entry}

/-- No entry of the session leads to where another one may change something. -/
def Untouched (events : List (Uuid × ServerEvent)) (id : Uuid) : Prop :=
  ∀ other, other ≠ id → ∀ own foreign, Granted (eventsOf id events) own →
    Granted (eventsOf other events) foreign → foreign.changes = true →
      ¬ own.ppath <+: foreign.ppath ∧ ¬ foreign.ppath <+: own.ppath

/-- A session that nobody touches runs as it does alone, on any disk that is the same to it. -/
theorem Untouched.run_alone (h : Untouched events id) {disk' : Disk}
    (hsees : Sees (reachOf (eventsOf id events)) disk disk') :
    let left := ServedSessions.run (.idle disk) events
    let solo := Machine.run (alone serve) (none, disk') (eventsOf id events)
    Alike (reachOf (eventsOf id events)) (left.process id) solo.1
      ∧ Sees (reachOf (eventsOf id events)) left.store solo.2 := by
  have hapart (other : Uuid) (hne : other ≠ id) (path : PPath)
      (hpath : path ∈ (reachOf (eventsOf id events)).reads) :
      path ∉ (reachOf (eventsOf other events)).writes := by
    rintro ⟨foreign, hforeign, hbit, hbelow⟩
    obtain ⟨own, hown, habove⟩ := hpath
    obtain ⟨hnot, hnot'⟩ := h other hne own foreign hown hforeign hbit
    exact (List.prefix_or_prefix_of_prefix habove hbelow).elim hnot hnot'
  have hstays := stays_run disk (fun id => reachOf (eventsOf id events))
    fun id _ hgranted => Reach.covers_below hgranted
  let solo : Option Served × Disk := (none, disk')
  have hidle : Alike (reachOf (eventsOf id events)) ((ServedSessions.idle disk).process id)
      solo.1 := trivial
  exact (separate_serve (fun id => reachOf (eventsOf id events)) id hapart).run_apart
    (w := ServedSessions.idle disk) (fun _ => trivial) hidle hsees hstays

end Noninterference

/-- **Noninterference.** Take two runs of a server in which a session is told the same, on disks that
are the same at and below what it is granted, while the other sessions do what they like. If none of
them may change anything there, the session is in the same state behind both runs, with the same
replies and the same bytes sent, and the disks are still the same to it. -/
theorem session_noninterference (disk disk' : Disk) (events events' : List (Uuid × ServerEvent))
    (id : Uuid) (htold : eventsOf id events' = eventsOf id events)
    (hsees : Sees (reachOf (eventsOf id events)) disk disk')
    (huntouched : Untouched events id) (huntouched' : Untouched events' id) :
    let left := ServedSessions.run (.idle disk) events
    let left' := ServedSessions.run (.idle disk') events'
    (left.process id).map (·.onDisk disk) = (left'.process id).map (·.onDisk disk)
      ∧ Sees (reachOf (eventsOf id events)) left.store left'.store := by
  intro left left'
  have hequivalence := sees_equivalence (reachOf (eventsOf id events))
  obtain ⟨halike, hleft⟩ := huntouched.run_alone hsees
  obtain ⟨halike', hleft'⟩ := huntouched'.run_alone ((sees_equivalence _).refl disk')
  rw [htold] at halike' hleft'
  exact ⟨(halike.map_onDisk disk).trans (halike'.map_onDisk disk).symm,
    hequivalence.trans hleft (hequivalence.symm hleft')⟩

/-- A host whose user `joe` may make directories in one place. -/
def homeHost (dir : Bytes) : WfdeHost where
  id := none
  name := dir
  authManager := AuthManagerImpl.assign {} (bytes "joe") ⟨bytes "joe", [],
    Permissions.empty.pushBack (.make [slash] [dir] (Path.toPermBits [.canCreateDir, .isRecursive]))⟩
  permissions := Permissions.empty
  protocols := []

/-- `joe` makes one there. -/
def makesDir (dir : Bytes) : List ServerEvent :=
  let told : List Event := [.start joeEnv, .written joeEnv true] ++ exchange "USER joe"
    ++ exchange "MKD new"
  .connected (homeHost dir) true 4096 :: told.map ServerEvent.session

/-- Two sessions do so on two hosts, in turns. -/
def besides : List (Uuid × ServerEvent) :=
  (List.zipWith (fun own foreign => [(1, own), (2, foreign)]) (makesDir (bytes "pub"))
    (makesDir (bytes "tmp"))).flatten

theorem granted_makesDir (dir : Bytes) {entry : Path} (h : Granted (makesDir dir) entry) :
    entry.ppath = [dir] := by
  have hhost (host : WfdeHost) (hconnected : Connected (makesDir dir) host) : host = homeHost dir := by
    obtain ⟨segmentSize, hmem⟩ := hconnected
    rcases List.mem_cons.mp hmem with hfirst | hsession
    · exact (ServerEvent.connected.inj hfirst).1
    · obtain ⟨_, -, heq⟩ := List.mem_map.mp hsession
      cases heq
  cases h with
  | host host hconnected hmem =>
      obtain rfl := hhost host hconnected
      cases hmem
  | user host hconnected name pwd hgives loginName perms hlogin hmem =>
      obtain rfl := hhost host hconnected
      obtain ⟨user, hfound, -, hclient⟩ := AuthManagerImpl.login_eq_ok.mp hlogin
      rw [homeHost, AuthManagerImpl.find_assign] at hfound
      obtain ⟨-, hsame⟩ := Option.ite_none_right_eq_some.mp hfound
      obtain rfl := Option.some.inj hsame
      obtain rfl := Option.some.inj (Client.mk.inj hclient).2
      obtain rfl := List.mem_singleton.mp hmem
      rfl

theorem not_granted_nil {entry : Path} : ¬ Granted [] entry := by
  rintro (⟨host, ⟨segmentSize, hmem⟩, -⟩ | ⟨host, ⟨segmentSize, hmem⟩⟩) <;> cases hmem

/-- The other session has changed the disk meanwhile. -/
theorem session_noninterference_besides :
    let left := ServedSessions.run (.idle emptyDisk) besides
    ((ServedSessions.run (.idle emptyDisk) ((makesDir (bytes "pub")).map (Prod.mk 1))).process 1).map
        (·.onDisk emptyDisk)
      = (left.process 1).map (·.onDisk emptyDisk)
      ∧ left.store.files.node [bytes "tmp", bytes "new"] = some .directory := by
  intro left
  have hnobody (other : Uuid) (hother : other ≠ 1) :
      eventsOf other ((makesDir (bytes "pub")).map (Prod.mk (1 : Uuid))) = [] :=
    eventsOf_map_of_ne (Ne.symm hother) _
  have hothers (other : Uuid) (hone : other ≠ 1) (htwo : other ≠ 2) : eventsOf other besides = [] := by
    have hids : ∀ turn ∈ besides, turn.1 = 1 ∨ turn.1 = 2 := by simp [besides, makesDir, exchange]
    refine List.eq_nil_iff_forall_not_mem.mpr fun event hevent => ?_
    exact (hids _ (mem_eventsOf.mp hevent)).elim hone htwo
  refine ⟨(session_noninterference emptyDisk emptyDisk ((makesDir (bytes "pub")).map (Prod.mk 1))
    besides 1 rfl ((sees_equivalence _).refl _) ?_ ?_).1, by decide +kernel⟩
  · intro other hother own foreign _ hforeign
    rw [hnobody other hother] at hforeign
    exact absurd hforeign not_granted_nil
  · intro other hother own foreign hown hforeign _
    by_cases htwo : other = 2
    · subst htwo
      rw [granted_makesDir (bytes "pub") hown, granted_makesDir (bytes "tmp") hforeign]
      decide
    · rw [hothers other hother htwo] at hforeign
      exact absurd hforeign not_granted_nil

end Wfde
