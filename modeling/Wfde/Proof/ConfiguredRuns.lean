import Wfde.Proof.ConfiguredServers
import Wfde.Proof.ServerRuns

/-!
# From the configuration to the disk

The hosts that sessions are made by are those that the configuration describes. What the sessions of a
server change can be read off its nodes.
-/

namespace Wfde

open Effect FtpSession Separation WfdeConfigurationPropertyTree

/-- Whom a name stands for by the nodes below `Users`: the user of that name, or the one whom an alias
of that name stands for. The case of the names does not matter. -/
inductive StandsFor (users : Ptree) : Bytes → Bytes → Prop
  | user {name user : Bytes} (hname : ciKey user = ciKey name) : StandsFor users name user
  | link {name key user : Bytes} (hkey : key ∈ names users) (hname : ciKey key = ciKey name)
      (htarget : StandsFor users (textAt users [key] []) user) : StandsFor users name user

/-- What a session with these requests may hold, by the node of its host. -/
inductive Describes (platform : Platform) (node : Ptree) (requests : List Event) (entry : Path) : Prop
  | host (name : Bytes) (hname : name ∈ names (nodeAt node [bytes "Paths"]))
      (hentry : pathOf platform (nodeAt node [bytes "Paths", name]) = .ok entry)
  | user (user : Bytes) (huser : user ∈ names (nodeAt node [bytes "Users"])) (asked : Bytes)
      (hstands : StandsFor (nodeAt node [bytes "Users"]) asked user)
      (hgives : Gives requests asked (textAt node [bytes "Users", user, bytes "Passwd"] []))
      (name : Bytes) (hname : name ∈ names (nodeAt node [bytes "Users", user, bytes "Paths"]))
      (hentry : pathOf platform (nodeAt node [bytes "Users", user, bytes "Paths", name]) = .ok entry)

section Users

variable {platform : Platform} {users : Ptree}

/-- A name stands for a user who has a node. -/
theorem exists_of_resolve {nodes : List UserNode} {name : Bytes} {client : ClientImpl}
    (hnodes : ∀ node ∈ nodes, ∃ key ∈ names users, IsUser platform users key node)
    (h : resolve nodes name = some client) :
    ∃ user ∈ names users, StandsFor users name user
      ∧ client.pwd = textAt users [user, bytes "Passwd"] []
      ∧ HasPathsOf platform (nodeAt users [user, bytes "Paths"]) client.permissions := by
  induction nodes generalizing name with
  | nil => cases h
  | cons node nodes ih =>
      have hrest (name : Bytes) (h : resolve nodes name = some client) :=
        ih (fun other hother => hnodes other (List.mem_cons_of_mem node hother)) h
      obtain ⟨key, hkey, hnamed, hlinks, huser⟩ := hnodes node List.mem_cons_self
      rw [AuthManagerImpl.resolve_cons] at h
      by_cases hname : ciKey node.name = ciKey name
      · rw [if_pos hname] at h
        rw [hnamed] at hname
        cases hempty : node.linksTo.isEmpty with
        | true =>
            rw [hempty, if_pos rfl] at h
            rw [← hlinks, hempty, if_pos rfl] at huser
            obtain rfl := Option.some.inj h
            exact ⟨key, hkey, .user hname, huser.1, huser.2⟩
        | false =>
            rw [hempty, if_neg Bool.false_ne_true, hlinks] at h
            obtain ⟨user, hmem, hstands, hclient⟩ := hrest _ h
            exact ⟨user, hmem, .link hkey hname hstands, hclient⟩
      · rw [if_neg hname] at h
        exact hrest name h

theorem HasUsersOf.login {auth : AuthManagerImpl} (h : HasUsersOf platform users auth)
    {name pwd : Bytes} {client : Client} (hlogin : auth.login name pwd = .ok client) :
    ∃ user ∈ names users, StandsFor users name user
      ∧ pwd = textAt users [user, bytes "Passwd"] []
      ∧ ∃ perms, client.permissions = some perms
        ∧ HasPathsOf platform (nodeAt users [user, bytes "Paths"]) perms := by
  obtain ⟨nodes, hreads, hmake⟩ := h
  obtain ⟨found, hfound, hpwd, rfl⟩ := AuthManagerImpl.login_eq_ok.mp hlogin
  rw [AuthManagerImpl.holds_make hmake name] at hfound
  have hnodes (node : UserNode) (hnode : node ∈ nodes.reverse) :
      ∃ key ∈ names users, IsUser platform users key node :=
    Fallible.exists_of_forall₂ hreads (List.mem_reverse.mp hnode)
  obtain ⟨user, huser, hstands, hpasswd, hpaths⟩ := exists_of_resolve hnodes hfound
  exact ⟨user, huser, hstands, hpwd.symm.trans hpasswd, found.permissions, rfl, hpaths⟩

end Users

section Hosts

variable {platform : Platform} {node : Ptree} {host : WfdeHost} {told : List ServerEvent}

theorem IsHost.describes_paths (h : IsHost platform node host) {entry : Path}
    (hentry : entry ∈ host.permissions.paths) (requests : List Event) :
    Describes platform node requests entry := by
  obtain ⟨name, hname, hpath⟩ := Fallible.exists_of_forall₂ h.paths hentry
  rw [← nodeAt_append] at hpath
  exact .host name hname hpath

theorem IsHost.describes_user (h : IsHost platform node host) {requests : List Event}
    {name pwd : Bytes} (hgives : Gives requests name pwd) {client : Client} {perms : Permissions}
    (hlogin : host.authManager.login name pwd = .ok client) (hperms : client.permissions = some perms)
    {entry : Path} (hentry : entry ∈ perms.paths) : Describes platform node requests entry := by
  obtain ⟨user, huser, hstands, hpwd, found, hfound, hpaths⟩ := h.users.login hlogin
  obtain rfl := Option.some.inj (hperms.symm.trans hfound)
  obtain ⟨key, hkey, hpath⟩ := Fallible.exists_of_forall₂ hpaths hentry
  rw [← nodeAt_append, ← nodeAt_append] at hpath
  rw [← nodeAt_append] at hkey
  rw [← textAt_append] at hpwd
  rw [hpwd] at hgives
  exact .user user huser name hstands hgives key hkey hpath

end Hosts

section Servers

variable {platform : Platform} {conf : WfdeConfigurationPropertyTree} {servers : List WfdeServer}
  {events : List (Uuid × ServerEvent)}

/-- Connections go to the hosts of the servers only. -/
def ToHostsOf (servers : List WfdeServer) (events : List (Uuid × ServerEvent)) : Prop :=
  ∀ id host running segmentSize, (id, .connected host running segmentSize) ∈ events →
    ∃ server ∈ servers, host ∈ server.hosts

/-- The node below `Hosts` of the host that a session has connected to describes what the session was
granted. -/
theorem exists_describes (hkeyed : WellKeyed conf.data)
    (hprepared : prepareServers platform conf = .ok servers) (hhosts : ToHostsOf servers events)
    {id : Uuid} {entry : Path} (hgranted : Granted (eventsOf id events) entry) :
    ∃ host, Connected (eventsOf id events) host
      ∧ ∃ svr ∈ names conf.data, ∃ hst ∈ names (nodeAt conf.data [svr, bytes "Hosts"]),
        IsHost platform (nodeAt conf.data [svr, bytes "Hosts", hst]) host
          ∧ Describes platform (nodeAt conf.data [svr, bytes "Hosts", hst])
            (eventsIn (eventsOf id events)) entry := by
  have hnode (host : WfdeHost) (hconnected : Connected (eventsOf id events) host) :
      ∃ svr ∈ names conf.data, ∃ hst ∈ names (nodeAt conf.data [svr, bytes "Hosts"]),
        IsHost platform (nodeAt conf.data [svr, bytes "Hosts", hst]) host := by
    obtain ⟨segmentSize, hmem⟩ := hconnected
    obtain ⟨server, hserver, hhost⟩ := hhosts id host true segmentSize (mem_eventsOf.mp hmem)
    exact exists_isHost platform hkeyed hprepared hserver hhost
  cases hgranted with
  | host host hconnected hentry =>
      obtain ⟨svr, hsvr, hst, hhst, hhost⟩ := hnode host hconnected
      exact ⟨host, hconnected, svr, hsvr, hst, hhst, hhost, hhost.describes_paths hentry _⟩
  | user host hconnected name pwd hgives loginName perms hlogin hentry =>
      obtain ⟨svr, hsvr, hst, hhst, hhost⟩ := hnode host hconnected
      exact ⟨host, hconnected, svr, hsvr, hst, hhst, hhost,
        hhost.describes_user hgives hlogin rfl hentry⟩

end Servers

/-- **From the configuration to the disk.** Whatever is requested on the hosts of a configuration, by
any number of sessions in any order, a node of the disk is as it was unless it is at or below the
`Path` of a configured entry whose `Perms` allow some change. That is an entry of the host that some
session has connected to, or one of a user of that host whose name, or an alias of it, and whose
`Passwd` that session was given. -/
theorem changes_configured (platform : Platform) {conf : WfdeConfigurationPropertyTree}
    (hkeyed : WellKeyed conf.data) {servers : List WfdeServer}
    (hprepared : prepareServers platform conf = .ok servers) (disk : Disk)
    {events : List (Uuid × ServerEvent)} (hhosts : ToHostsOf servers events) (path : PPath) :
    (ServedSessions.run (.idle disk) events).store.files.node path = disk.files.node path
      ∨ ∃ id host, Connected (eventsOf id events) host
        ∧ ∃ svr ∈ names conf.data, ∃ hst ∈ names (nodeAt conf.data [svr, bytes "Hosts"]),
          IsHost platform (nodeAt conf.data [svr, bytes "Hosts", hst]) host
            ∧ ∃ entry, Describes platform (nodeAt conf.data [svr, bytes "Hosts", hst])
                (eventsIn (eventsOf id events)) entry
              ∧ entry.changes = true ∧ entry.ppath <+: path := by
  have hspares := spares_run disk events
  by_cases hpath : path ∈ (Reach.below (grantedToAny events)).writes
  · obtain ⟨entry, ⟨id, hgranted⟩, hbit, hbelow⟩ := hpath
    obtain ⟨host, hconnected, svr, hsvr, hst, hhst, hhost, hdescribes⟩ :=
      exists_describes hkeyed hprepared hhosts hgranted
    exact .inr ⟨id, host, hconnected, svr, hsvr, hst, hhst, hhost, entry, hdescribes, hbit, hbelow⟩
  · exact .inl (hspares.node path hpath)

/-- Somebody connects to every host. -/
def everyHost (servers : List WfdeServer) : List (Uuid × ServerEvent) :=
  (servers.flatMap WfdeServer.hosts).map fun host => (1, .connected host true 4096)

theorem changes_configured_fanClub : ∃ servers, prepareServers noInterfaces fanClub = .ok servers
    ∧ ∀ path, (ServedSessions.run (.idle emptyDisk) (everyHost servers)).store.files.node path = none
      ∨ ∃ id host, Connected (eventsOf id (everyHost servers)) host
        ∧ ∃ svr ∈ names fanClub.data, ∃ hst ∈ names (nodeAt fanClub.data [svr, bytes "Hosts"]),
          IsHost noInterfaces (nodeAt fanClub.data [svr, bytes "Hosts", hst]) host
            ∧ ∃ entry, Describes noInterfaces (nodeAt fanClub.data [svr, bytes "Hosts", hst])
                (eventsIn (eventsOf id (everyHost servers))) entry
              ∧ entry.changes = true ∧ entry.ppath <+: path := by
  have hmade : (prepareServers noInterfaces fanClub).toBool = true := by decide +kernel
  cases hservers : prepareServers noInterfaces fanClub with
  | error e =>
      rw [hservers] at hmade
      cases hmade
  | ok servers =>
      have hhosts : ToHostsOf servers (everyHost servers) := by
        intro id host running segmentSize hmem
        obtain ⟨made, hmade, hsame⟩ := List.mem_map.mp hmem
        obtain ⟨rfl, -⟩ := ServerEvent.connected.inj (Prod.mk.inj hsame).2
        exact List.mem_flatMap.mp hmade
      exact ⟨servers, rfl,
        changes_configured noInterfaces wellKeyed_fanClub hservers emptyDisk hhosts⟩

end Wfde
