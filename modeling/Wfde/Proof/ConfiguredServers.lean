import Wfde.Lib.Fallible
import Wfde.PrepareServers
import Wfde.Proof.PermissionSets
import Wfde.Proof.SubConfiguration
import Wfde.Proof.Users

/-!
# What the configuration says

The calls by which a server is prepared spell the paths of the nodes they ask for. The values below
are read off the tree itself: the nodes of the paths, the users, the hosts and the servers.
-/

namespace Wfde

open Segments

/-- The name of a node has no slashes, which is what `Node` promises. -/
abbrev IsKey (key : Bytes) : Prop := IsSegment slash key

namespace WfdeConfigurationPropertyTree

section Keys

variable {keys rest : List Bytes} {key : Bytes}

theorem joined_singleton (key : Bytes) : joined slash [key] = slash :: key := by
  rw [joined_cons, joined_nil, List.append_nil]

theorem toPath_joined (h : ∀ key ∈ keys, IsKey key) : toPath (joined slash keys) = keys := by
  cases keys with
  | nil => rfl
  | cons key keys =>
      have hsplit := splitOn_append_joined (h key List.mem_cons_self) fun next hnext =>
        h next (List.mem_cons_of_mem _ hnext)
      have hlast : (key :: keys).getLast? ≠ some [] := by
        intro hempty
        exact (h [] (List.mem_of_getLast? hempty)).1 rfl
      change pathKeys (key ++ joined slash keys) = key :: keys
      rw [pathKeys, hsplit]
      exact if_neg hlast

/-- `EnumNodes("")` of a view asks for a path that ends in a slash. -/
theorem toPath_joined_slash (h : ∀ key ∈ keys, IsKey key) :
    toPath (joined slash keys ++ [slash]) = keys := by
  cases keys with
  | nil => rfl
  | cons key keys =>
      change pathKeys ((key ++ joined slash keys) ++ slash :: []) = key :: keys
      rw [pathKeys_append, splitOn_append_joined (h key List.mem_cons_self) fun next hnext =>
        h next (List.mem_cons_of_mem _ hnext)]
      exact List.append_nil _

end Keys

section Nodes

/-- The node at some keys, empty where there is none. -/
def nodeAt (tree : Ptree) (keys : List Bytes) : Ptree := tree.nodeAt [] keys

def textAt (tree : Ptree) (keys : List Bytes) (defaultVal : Bytes) : Bytes :=
  tree.valueAt defaultVal keys

def names (tree : Ptree) : List Bytes := tree.keys

variable {conf : WfdeConfigurationPropertyTree} {view : SubConfig} {keys rest : List Bytes}
  {key : Bytes}

theorem nodeAt_append (tree : Ptree) (keys rest : List Bytes) :
    nodeAt tree (keys ++ rest) = nodeAt (nodeAt tree keys) rest :=
  KeyTree.nodeAt_append [] tree keys rest

theorem textAt_append (tree : Ptree) (keys rest : List Bytes) (key defaultVal : Bytes) :
    textAt tree (keys ++ key :: rest) defaultVal = textAt (nodeAt tree keys) (key :: rest) defaultVal :=
  KeyTree.valueAt_append [] tree defaultVal keys key rest

theorem getValue_joined (h : ∀ key ∈ keys, IsKey key) (defaultVal : Option Bytes) :
    conf.getValue (joined slash keys) defaultVal = textAt conf.data keys (defaultVal.getD []) := by
  rw [WfdeConfigurationPropertyTree.getValue, toPath_joined h, textAt, KeyTree.valueAt]
  cases conf.data.get? keys with
  | some node => rfl
  | none => rfl

theorem enumNodes_of_toPath {path : Bytes} (h : toPath path = keys) :
    conf.enumNodes path = names (nodeAt conf.data keys) := by
  rw [WfdeConfigurationPropertyTree.enumNodes, h, nodeAt, KeyTree.nodeAt]
  cases conf.data.get? keys with
  | some node => rfl
  | none => rfl

/-- The view has been made for the path of a node. -/
structure Views (view : SubConfig) (keys : List Bytes) : Prop where
  rootPath : view.rootPath = joined slash keys
  areKeys : ∀ key ∈ keys, IsKey key

theorem areKeys_singleton (h : IsKey key) : ∀ next ∈ [key], IsKey next := fun _ hnext =>
  List.mem_singleton.mp hnext ▸ h

theorem areKeys_pair {other : Bytes} (h : IsKey key) (hother : IsKey other) :
    ∀ next ∈ [key, other], IsKey next := by
  intro next hnext
  rcases List.mem_pair.mp hnext with rfl | rfl
  · exact h
  · exact hother

theorem areKeys_append (h : ∀ key ∈ keys, IsKey key) (hrest : ∀ key ∈ rest, IsKey key) :
    ∀ key ∈ keys ++ rest, IsKey key := fun key hkey =>
  (List.mem_append.mp hkey).elim (h key) (hrest key)

/-- A path below the view, with a slash in front or without. -/
theorem Views.path_eq (h : Views view keys) (hkey : IsKey key) :
    view.rootPath ++ SubConfig.sep (key ++ joined slash rest) ++ (key ++ joined slash rest)
        = joined slash (keys ++ key :: rest)
      ∧ view.rootPath ++ SubConfig.sep (joined slash (key :: rest)) ++ joined slash (key :: rest)
        = joined slash (keys ++ key :: rest) := by
  have hjoined : joined slash (key :: rest) = slash :: (key ++ joined slash rest) := rfl
  have hhead : (key ++ joined slash rest).head? ≠ some slash := by
    obtain ⟨c, others, rfl⟩ := List.exists_cons_of_ne_nil hkey.1
    intro hslash
    obtain rfl : c = slash := Option.some.inj hslash
    exact hkey.2 List.mem_cons_self
  rw [List.append_assoc, List.append_assoc, sep_append, sep_append, rooted, if_neg hhead, rooted,
    if_pos (by rw [hjoined]; rfl), h.rootPath, joined_append, hjoined]
  exact ⟨rfl, rfl⟩

variable (h : Views view keys) (hkeys : ∀ next ∈ key :: rest, IsKey next) (conf)
include h hkeys

theorem Views.getValue (defaultVal : Option Bytes) :
    view.getValue conf (joined slash (key :: rest)) defaultVal
      = textAt (nodeAt conf.data keys) (key :: rest) (defaultVal.getD []) := by
  rw [SubConfig.getValue, (h.path_eq (hkeys key List.mem_cons_self)).2,
    getValue_joined (areKeys_append h.areKeys hkeys), textAt_append]

omit hkeys in
theorem Views.text {path name : Bytes} (hpath : path = slash :: name) (hname : IsKey name)
    (defaultVal : Option Bytes) :
    view.getValue conf path defaultVal
      = textAt (nodeAt conf.data keys) [name] (defaultVal.getD []) := by
  rw [hpath, ← joined_singleton]
  exact h.getValue conf (areKeys_singleton hname) defaultVal

theorem Views.getValue_unrooted (defaultVal : Option Bytes) :
    view.getValue conf (key ++ joined slash rest) defaultVal
      = textAt (nodeAt conf.data keys) (key :: rest) (defaultVal.getD []) := by
  rw [SubConfig.getValue, (h.path_eq (hkeys key List.mem_cons_self)).1,
    getValue_joined (areKeys_append h.areKeys hkeys), textAt_append]

omit conf in
theorem Views.getConfigForPath : Views (view.getConfigForPath (joined slash (key :: rest))) (keys ++ key :: rest) where
  rootPath := (h.path_eq (hkeys key List.mem_cons_self)).2
  areKeys := areKeys_append h.areKeys hkeys

omit conf in
theorem Views.getConfigForPath_unrooted :
    Views (view.getConfigForPath (key ++ joined slash rest)) (keys ++ key :: rest) where
  rootPath := (h.path_eq (hkeys key List.mem_cons_self)).1
  areKeys := areKeys_append h.areKeys hkeys

theorem Views.enumNodes_below :
    view.enumNodes conf (joined slash (key :: rest)) = names (nodeAt (nodeAt conf.data keys) (key :: rest)) := by
  rw [SubConfig.enumNodes, (h.path_eq (hkeys key List.mem_cons_self)).2,
    enumNodes_of_toPath (toPath_joined (areKeys_append h.areKeys hkeys)), nodeAt_append]

theorem Views.setValue (value : Bytes) :
    (view.setValue conf (joined slash (key :: rest)) value).data
      = conf.data.put [] (keys ++ key :: rest) value := by
  rw [SubConfig.setValue, (h.path_eq (hkeys key List.mem_cons_self)).2,
    WfdeConfigurationPropertyTree.setValue, toPath_joined (areKeys_append h.areKeys hkeys)]

omit hkeys in
theorem Views.enumNodes : view.enumNodes conf [] = names (nodeAt conf.data keys) := by
  have hpath : view.rootPath ++ SubConfig.sep [] ++ [] = joined slash keys ++ [slash] := by
    rw [h.rootPath, List.append_nil]
    rfl
  rw [SubConfig.enumNodes, hpath, enumNodes_of_toPath (toPath_joined_slash h.areKeys)]

end Nodes

end WfdeConfigurationPropertyTree

open WfdeConfigurationPropertyTree

section Paths

variable (platform : Platform) {conf : WfdeConfigurationPropertyTree} {view : SubConfig}
  {keys : List Bytes}

/-- The entry that a node below `Paths` describes. -/
def pathOf (node : Ptree) : Except Exception Path := do
  let permbits ← Path.toPermBitsOfNames (textAt node [bytes "Perms"] [])
  return Path.make (textAt node [bytes "Name"] [])
    (platform.toPPath (textAt node [bytes "Path"] [])) permbits

/-- The entries of a permission set are the ones that the nodes below a node describe, in their
order. -/
def HasPathsOf (node : Ptree) (perms : Permissions) : Prop :=
  List.Forall₂ (fun name path => pathOf platform (nodeAt node [name]) = .ok path) (names node)
    perms.paths

theorem collects_paths : Fallible.Collects Permissions.paths Permissions.addPath where
  add_eq_ok self path perms := by
    rcases Permissions.addPath_cases self path with ⟨hthrows, hknows⟩ | ⟨added, hadded, -, hpaths⟩
    · constructor
      · intro h
        rw [hthrows] at h
        cases h
      · intro hpaths
        obtain ⟨own, hown, hsame⟩ := Permissions.knows_iff.mp hknows
        have hvpaths := perms.uniqueVpath
        have hppaths := perms.uniquePpath
        rw [hpaths, List.map_append, List.nodup_append] at hvpaths hppaths
        rcases hsame with hsame | hsame
        · exact absurd hsame (hvpaths.2.2 _ (List.mem_map_of_mem hown) _ (List.mem_singleton_self _))
        · exact absurd hsame (hppaths.2.2 _ (List.mem_map_of_mem hown) _ (List.mem_singleton_self _))
    · rw [hadded, Except.ok.injEq]
      constructor
      · rintro rfl
        exact hpaths
      · intro h
        exact Permissions.ext_paths (hpaths.trans h.symm)
  ext _ _ := Permissions.ext_paths
  front perms first rest h := by
    have hvpaths := perms.uniqueVpath
    have hppaths := perms.uniquePpath
    rw [h, List.map_append] at hvpaths hppaths
    exact ⟨⟨first, hvpaths.of_append_left, hppaths.of_append_left⟩, rfl⟩

theorem addConfiguredPath_eq (h : Views view keys) {name : Bytes} (hname : IsKey name)
    (rvalPerms : Permissions) :
    addConfiguredPath platform conf view rvalPerms name
      = pathOf platform (nodeAt (nodeAt conf.data keys) [name]) >>= rvalPerms.addPath := by
  have htext (key : Bytes) (hkey : IsKey key) :
      view.getValue conf (slash :: name ++ slash :: key) none
        = textAt (nodeAt (nodeAt conf.data keys) [name]) [key] [] := by
    have hpath : slash :: name ++ slash :: key = joined slash [name, key] := by
      rw [joined_cons, joined_singleton]
    rw [hpath, h.getValue conf (areKeys_pair hname hkey)]
    exact textAt_append _ [name] [] key _
  have hname := htext (bytes "Name") (by decide)
  have hpath := htext (bytes "Path") (by decide)
  have hperms := htext (bytes "Perms") (by decide)
  change view.getValue conf (slash :: name ++ bytes "/Name") none = _ at hname
  change view.getValue conf (slash :: name ++ bytes "/Path") none = _ at hpath
  change view.getValue conf (slash :: name ++ bytes "/Perms") none = _ at hperms
  unfold addConfiguredPath pathOf
  rw [hname, hpath, hperms]
  simp only [bind_assoc, pure_bind]

theorem createPermissions_eq_ok (h : Views view keys)
    (hnames : ∀ name ∈ names (nodeAt conf.data keys), IsKey name) (perms : Permissions) :
    createPermissions platform conf view = .ok perms
      ↔ HasPathsOf platform (nodeAt conf.data keys) perms := by
  have hpass : ∀ name ∈ names (nodeAt conf.data keys), ∀ self added : Permissions,
      addConfiguredPath platform conf view self name = .ok added
        ↔ ∃ path, pathOf platform (nodeAt (nodeAt conf.data keys) [name]) = .ok path
          ∧ self.addPath path = .ok added := by
    intro name hname self added
    rw [addConfiguredPath_eq platform h (hnames name hname), Fallible.bind_eq_ok]
  rw [createPermissions, h.enumNodes, Fallible.foldlM_eq_ok hpass]
  simp only [collects_paths.foldlM_eq_ok]
  constructor
  · rintro ⟨paths, hread, hpaths⟩
    obtain rfl : perms.paths = paths := hpaths
    exact hread
  · intro hread
    exact ⟨perms.paths, hread, rfl⟩

end Paths

section Users

variable (platform : Platform) {conf : WfdeConfigurationPropertyTree} {view : SubConfig}
  {keys : List Bytes}

/-- All names of nodes are keys. -/
def WellKeyed (tree : Ptree) : Prop := ∀ keys, ∀ name ∈ names (nodeAt tree keys), IsKey name

theorem WellKeyed.nodeAt {tree : Ptree} (h : WellKeyed tree) (keys : List Bytes) :
    WellKeyed (nodeAt tree keys) := by
  intro rest name hname
  rw [← nodeAt_append] at hname
  exact h _ name hname

theorem wellKeyed_node {value : Bytes} {children : List (Bytes × Ptree)}
    (h : ∀ child ∈ children, IsKey child.1 ∧ WellKeyed child.2) :
    WellKeyed (.node value children) := by
  intro keys name hname
  cases keys with
  | nil =>
      obtain ⟨child, hchild, rfl⟩ := List.mem_map.mp hname
      exact (h child hchild).1
  | cons key keys =>
      rw [← List.singleton_append, nodeAt_append] at hname
      have hchild : nodeAt (.node value children) [key]
          = ((KeyTree.node value children).child? key).getD (.node [] []) := by
        rw [nodeAt, KeyTree.nodeAt, KeyTree.get?]
        cases (KeyTree.node value children).child? key <;> rfl
      rw [hchild] at hname
      cases hfound : (KeyTree.node value children).child? key with
      | none =>
          rw [hfound] at hname
          cases keys <;> cases hname
      | some child =>
          rw [hfound] at hname
          obtain ⟨entry, hentry, rfl⟩ := Option.map_eq_some_iff.mp hfound
          exact (h entry (List.mem_of_find?_eq_some hentry)).2 keys name hname

/-- A node below `Users`: an alias has a value, a user may have a password and paths. -/
def IsUser (users : Ptree) (name : Bytes) (user : UserNode) : Prop :=
  user.name = name ∧ user.linksTo = textAt users [name] []
    ∧ if (textAt users [name] []).isEmpty then
        user.passwd = textAt users [name, bytes "Passwd"] []
          ∧ HasPathsOf platform (nodeAt users [name, bytes "Paths"]) user.permissions
      else user.passwd = [] ∧ user.permissions = .empty

/-- A user manager that the nodes below a node make. -/
def HasUsersOf (users : Ptree) (auth : AuthManagerImpl) : Prop :=
  ∃ nodes, List.Forall₂ (IsUser platform users) (names users) nodes
    ∧ AuthManagerImpl.make nodes = .ok auth

/-- What the constructor reads of a node. -/
def readUser (conf : WfdeConfigurationPropertyTree) (view : SubConfig) (name : Bytes) :
    Except Exception UserNode := do
  let linksTo := view.getValue conf name (some [])
  if linksTo.isEmpty then
    let permissions ←
      createPermissions platform conf (view.getConfigForPath (name ++ bytes "/Paths"))
    return { name, passwd := view.getValue conf (name ++ bytes "/Passwd") (some []), permissions }
  else return { name, linksTo, permissions := .empty }

theorem addConfiguredUser_eq (self : AuthManagerImpl) (name : Bytes) :
    addConfiguredUser platform conf view self name
      = readUser platform conf view name >>= self.addNode := by
  unfold addConfiguredUser readUser
  dsimp only
  split
  · rw [bind_assoc]
    rfl
  · rfl

theorem readUser_eq_ok (h : Views view keys) (hkeyed : WellKeyed conf.data) {name : Bytes}
    (hname : IsKey name) {user : UserNode} :
    readUser platform conf view name = .ok user
      ↔ IsUser platform (nodeAt conf.data keys) name user := by
  have hvalue := h.getValue_unrooted conf (areKeys_singleton hname) (some [])
  rw [joined_nil, List.append_nil] at hvalue
  have hpasswd :=
    h.getValue_unrooted conf (areKeys_pair hname (by decide : IsKey (bytes "Passwd"))) (some [])
  change view.getValue conf (name ++ bytes "/Passwd") _ = _ at hpasswd
  have hpaths : Views (view.getConfigForPath (name ++ joined slash [bytes "Paths"]))
      (keys ++ [name, bytes "Paths"]) :=
    h.getConfigForPath_unrooted (areKeys_pair hname (by decide))
  change Views (view.getConfigForPath (name ++ bytes "/Paths")) _ at hpaths
  have hperms (permissions : Permissions) :=
    createPermissions_eq_ok platform hpaths (hkeyed _) permissions
  simp only [nodeAt_append] at hperms
  unfold readUser IsUser
  rw [hvalue, hpasswd]
  dsimp only [Option.getD_some]
  split
  · rename_i hempty
    rw [List.isEmpty_iff] at hempty
    simp only [Fallible.bind_eq_ok, Fallible.pure_eq_ok, hperms]
    constructor
    · rintro ⟨permissions, hread, rfl⟩
      exact ⟨rfl, hempty.symm, rfl, hread⟩
    · rintro ⟨hnamed, hlinks, hpwd, hread⟩
      rw [hempty] at hlinks
      refine ⟨user.permissions, hread, ?_⟩
      cases user
      dsimp only at hnamed hlinks hpwd
      rw [hnamed, hlinks, hpwd]
  · rw [Fallible.pure_eq_ok]
    constructor
    · rintro rfl
      exact ⟨rfl, rfl, rfl, rfl⟩
    · rintro ⟨hnamed, hlinks, hpwd, hpermissions⟩
      cases user
      dsimp only at hnamed hlinks hpwd hpermissions
      rw [hnamed, hlinks, hpwd, hpermissions]

theorem ofConfiguration_eq_ok (h : Views view keys) (hkeyed : WellKeyed conf.data)
    {auth : AuthManagerImpl} :
    AuthManagerImpl.ofConfiguration platform conf view = .ok auth
      ↔ HasUsersOf platform (nodeAt conf.data keys) auth := by
  have hpass : ∀ name ∈ names (nodeAt conf.data keys), ∀ self added : AuthManagerImpl,
      addConfiguredUser platform conf view self name = .ok added
        ↔ ∃ user, IsUser platform (nodeAt conf.data keys) name user ∧ self.addNode user = .ok added := by
    intro name hname self added
    rw [addConfiguredUser_eq, Fallible.bind_eq_ok]
    simp only [readUser_eq_ok platform h hkeyed (hkeyed keys name hname)]
  rw [AuthManagerImpl.ofConfiguration, h.enumNodes, Fallible.foldlM_eq_ok hpass]
  rfl

end Users

section Entities

variable (platform : Platform) {conf : WfdeConfigurationPropertyTree} {view : SubConfig}
  {keys : List Bytes}

def nameOf (node : Ptree) : Bytes := textAt node [bytes "Name"] (bytes "Default")

/-- A node gives its entity an id. Without one the entity gets some id. -/
def HasId (node : Ptree) : Option Uuid → Prop
  | none => textAt node [bytes "Id"] [] = []
  | some uuid => textAt node [bytes "Id"] [] ≠ []
      ∧ platform.getUuidFromString (textAt node [bytes "Id"] []) = .ok uuid

structure IsInterface (node : Ptree) (endpoint : Endpoint) (interface : WfdeInterface) : Prop where
  id : HasId platform node interface.id
  name : interface.name = nameOf node
  endpoint : interface.endpoint = endpoint
  tlsCert : interface.tlsCert = textAt node [bytes "TlsCert"] []

/-- The interfaces that a node below `Interfaces` is good for, one for each endpoint. -/
def AreInterfaces (node : Ptree) (interfaces : List WfdeInterface) : Prop :=
  ∃ endpoints,
    platform.resolve (textAt node [bytes "Ip"] []) (textAt node [bytes "Port"] []) = .ok endpoints
      ∧ List.Forall₂ (IsInterface platform node) endpoints interfaces

structure IsProtocol (node : Ptree) (protocol : WfdeProtocol) : Prop where
  id : HasId platform node protocol.id
  isRegistered : textAt node [bytes "Name"] [] ∈ protocolFactories
  name : protocol.name = nameOf node
  interfaces : ∃ added,
    List.Forall₂ (fun name => AreInterfaces platform (nodeAt node [bytes "Interfaces", name]))
        (names (nodeAt node [bytes "Interfaces"])) added
      ∧ protocol.interfaces = added.flatten

structure IsHost (node : Ptree) (host : WfdeHost) : Prop where
  id : HasId platform node host.id
  name : host.name = nameOf node
  users : HasUsersOf platform (nodeAt node [bytes "Users"]) host.authManager
  paths : HasPathsOf platform (nodeAt node [bytes "Paths"]) host.permissions
  protocols : List.Forall₂ (fun name => IsProtocol platform (nodeAt node [bytes "Protocols", name]))
    (names (nodeAt node [bytes "Protocols"])) host.protocols

structure IsServer (node : Ptree) (server : WfdeServer) : Prop where
  id : HasId platform node server.id
  name : server.name = nameOf node
  hosts : List.Forall₂ (fun name => IsHost platform (nodeAt node [bytes "Hosts", name]))
    (names (nodeAt node [bytes "Hosts"])) server.hosts
  /-- the names of the hosts can be the keys of one map -/
  unique : ∀ front host back, server.hosts = front ++ host :: back →
    platform.mapAddUnique (front.map WfdeHost.name) host.name = .ok ()

theorem views_joined (h : ∀ key ∈ keys, IsKey key) :
    Views (WfdeConfigurationPropertyTree.getConfigForPath (joined slash keys)) keys := ⟨rfl, h⟩

theorem entityName_eq (h : Views view keys) : entityName conf view = nameOf (nodeAt conf.data keys) :=
  h.text conf rfl (by decide : IsKey (bytes "Name")) _

theorem loadId_eq_ok (h : Views view keys) {id : Option Uuid} :
    loadId platform conf view = .ok id ↔ HasId platform (nodeAt conf.data keys) id := by
  have hid := h.text conf (by rfl : bytes "/Id" = slash :: bytes "Id") (by decide) (some [])
  unfold loadId
  rw [hid, Option.getD_some]
  cases htext : textAt (nodeAt conf.data keys) [bytes "Id"] [] with
  | nil => cases id <;> simp [HasId, htext]
  | cons c text =>
      cases huuid : platform.getUuidFromString (c :: text) with
      | error e => cases id <;> simp [HasId, htext, huuid, Except.map]
      | ok uuid => cases id <;> simp [HasId, htext, huuid, Except.map]

theorem addInterface_eq_ok (h : Views view keys) {interfaces : List WfdeInterface} :
    WfdeProtocol.addInterface platform conf view = .ok interfaces
      ↔ AreInterfaces platform (nodeAt conf.data keys) interfaces := by
  have hip := h.text conf (by rfl : bytes "/Ip" = slash :: bytes "Ip") (by decide) none
  have hport := h.text conf (by rfl : bytes "/Port" = slash :: bytes "Port") (by decide) none
  have hcert : view.getValue conf (bytes "TlsCert") (some [])
      = textAt (nodeAt conf.data keys) [bytes "TlsCert"] [] :=
    h.getValue_unrooted conf (areKeys_singleton (by decide : IsKey (bytes "TlsCert"))) (some [])
  have hmade (endpoint : Endpoint) (interface : WfdeInterface) :
      (do
        let id ← loadId platform conf view
        return {
          id
          name := entityName conf view
          endpoint
          tlsCert := view.getValue conf (bytes "TlsCert") (some []) }) = Except.ok interface
        ↔ IsInterface platform (nodeAt conf.data keys) endpoint interface := by
    rw [hcert, entityName_eq h]
    simp only [Fallible.bind_eq_ok, Fallible.pure_eq_ok, loadId_eq_ok platform h]
    constructor
    · rintro ⟨id, hid, rfl⟩
      exact ⟨hid, rfl, rfl, rfl⟩
    · rintro ⟨hid, hname, hendpoint, hcert⟩
      exact ⟨interface.id, hid, by rw [← hname, ← hendpoint, ← hcert]⟩
  unfold WfdeProtocol.addInterface AreInterfaces
  dsimp only
  rw [hip, hport]
  simp only [Fallible.bind_eq_ok, Option.getD_none,
    Fallible.mapM_eq_ok fun endpoint _ => hmade endpoint]

theorem addInterfaces_eq_ok (h : Views view keys) (hkeyed : WellKeyed conf.data)
    {interfaces : List WfdeInterface} :
    WfdeProtocol.addInterfaces platform conf view = .ok interfaces
      ↔ ∃ added,
        List.Forall₂
            (fun name => AreInterfaces platform
              (nodeAt (nodeAt conf.data keys) [bytes "Interfaces", name]))
            (names (nodeAt (nodeAt conf.data keys) [bytes "Interfaces"])) added
          ∧ interfaces = added.flatten := by
  have hroot : bytes "/Interfaces" = joined slash [bytes "Interfaces"] := rfl
  have hnames :=
    h.enumNodes_below conf (areKeys_singleton (by decide : IsKey (bytes "Interfaces")))
  rw [← hroot] at hnames
  have hpass : ∀ name ∈ names (nodeAt (nodeAt conf.data keys) [bytes "Interfaces"]),
      ∀ before after : List WfdeInterface,
        (do
          let added ← WfdeProtocol.addInterface platform conf
            (view.getConfigForPath (bytes "/Interfaces/" ++ name))
          return before ++ added) = Except.ok after
        ↔ ∃ added, AreInterfaces platform
              (nodeAt (nodeAt conf.data keys) [bytes "Interfaces", name]) added
            ∧ (pure (before ++ added) : Except Exception (List WfdeInterface)) = .ok after := by
    intro name hname before after
    have hkey : IsKey name := (hkeyed.nodeAt keys) _ name hname
    have hpath : bytes "/Interfaces/" ++ name = joined slash [bytes "Interfaces", name] := by
      rw [joined_cons, joined_singleton]
      rfl
    have hview := h.getConfigForPath (areKeys_pair (by decide : IsKey (bytes "Interfaces")) hkey)
    rw [hpath, Fallible.bind_eq_ok]
    simp only [addInterface_eq_ok platform hview, nodeAt_append]
  rw [WfdeProtocol.addInterfaces, hnames, Fallible.foldlM_eq_ok hpass]
  simp only [Fallible.foldlM_flatten_eq_ok, List.nil_append]

theorem createProtocol_eq_ok (h : Views view keys) (hkeyed : WellKeyed conf.data)
    {protocol : WfdeProtocol} :
    createProtocol platform conf view = .ok protocol
      ↔ IsProtocol platform (nodeAt conf.data keys) protocol := by
  have hname := h.text conf (by rfl : bytes "/Name" = slash :: bytes "Name") (by decide) none
  unfold createProtocol
  rw [hname, Option.getD_none, entityName_eq h]
  split
  · rename_i hregistered
    simp only [Fallible.bind_eq_ok, Fallible.pure_eq_ok, addInterfaces_eq_ok platform h hkeyed,
      loadId_eq_ok platform h]
    constructor
    · rintro ⟨id, hid, interfaces, hinterfaces, rfl⟩
      exact ⟨hid, List.contains_iff_mem.mp hregistered, rfl, hinterfaces⟩
    · rintro ⟨hid, -, hnamed, hinterfaces⟩
      exact ⟨protocol.id, hid, protocol.interfaces, hinterfaces, by rw [← hnamed]⟩
  · rename_i hunknown
    exact iff_of_false nofun fun hprotocol =>
      hunknown (List.contains_iff_mem.mpr hprotocol.isRegistered)

theorem prepareHost_eq_ok (hkeys : ∀ key ∈ keys, IsKey key) (hkeyed : WellKeyed conf.data)
    {hosts : List WfdeHost} {host : WfdeHost} :
    prepareHost platform conf hosts (joined slash keys) = .ok host
      ↔ IsHost platform (nodeAt conf.data keys) host
        ∧ platform.mapAddUnique (hosts.map WfdeHost.name) host.name = .ok () := by
  have hbelow (key : Bytes) (hkey : IsKey key) : ∀ next ∈ keys ++ [key], IsKey next :=
    areKeys_append hkeys (areKeys_singleton hkey)
  have hpath (key : Bytes) : joined slash keys ++ slash :: key = joined slash (keys ++ [key]) := by
    rw [joined_append, joined_singleton]
  have hprotocols : ∀ name ∈ names (nodeAt conf.data (keys ++ [bytes "Protocols"])),
      ∀ protocol : WfdeProtocol,
        createProtocol platform conf (WfdeConfigurationPropertyTree.getConfigForPath
            (joined slash (keys ++ [bytes "Protocols"]) ++ slash :: name)) = .ok protocol
          ↔ IsProtocol platform (nodeAt (nodeAt conf.data keys) [bytes "Protocols", name]) protocol := by
    intro name hname protocol
    have hrest := areKeys_pair (by decide : IsKey (bytes "Protocols")) (hkeyed _ name hname)
    have hview := views_joined (areKeys_append hkeys hrest)
    rw [List.append_cons, joined_append, joined_singleton] at hview
    rw [createProtocol_eq_ok platform hview hkeyed, ← List.append_cons, nodeAt_append]
  unfold prepareHost
  dsimp only
  have husersPath : joined slash keys ++ bytes "/Users" = _ := hpath (bytes "Users")
  have hpathsPath : joined slash keys ++ bytes "/Paths" = _ := hpath (bytes "Paths")
  have hprotPath : joined slash keys ++ bytes "/Protocols" = _ := hpath (bytes "Protocols")
  rw [husersPath, hpathsPath, hprotPath, entityName_eq (views_joined hkeys),
    enumNodes_of_toPath (toPath_joined (hbelow (bytes "Protocols") (by decide)))]
  simp only [Fallible.bind_eq_ok, Fallible.pure_eq_ok, Fallible.mapM_eq_ok hprotocols,
    loadId_eq_ok platform (views_joined hkeys),
    ofConfiguration_eq_ok platform (views_joined (hbelow (bytes "Users") (by decide))) hkeyed,
    createPermissions_eq_ok platform (views_joined (hbelow (bytes "Paths") (by decide))) (hkeyed _)]
  rw [nodeAt_append, nodeAt_append, nodeAt_append]
  constructor
  · rintro ⟨auth, hauth, id, hid, ⟨⟩, hunique, permissions, hpermissions, protocols, hall, rfl⟩
    exact ⟨⟨hid, rfl, hauth, hpermissions, hall⟩, hunique⟩
  · rintro ⟨⟨hid, hnamed, hauth, hpermissions, hall⟩, hunique⟩
    refine ⟨host.authManager, hauth, host.id, hid, ⟨⟩, ?_, host.permissions, hpermissions,
      host.protocols, hall, ?_⟩
    · rwa [← hnamed]
    · rw [← hnamed]

theorem prepareServer_eq_ok (hkeys : ∀ key ∈ keys, IsKey key) (hkeyed : WellKeyed conf.data)
    {server : WfdeServer} :
    prepareServer platform conf (joined slash keys) = .ok server
      ↔ IsServer platform (nodeAt conf.data keys) server := by
  have hbelow : ∀ next ∈ keys ++ [bytes "Hosts"], IsKey next :=
    areKeys_append hkeys (areKeys_singleton (by decide))
  have hosts : ∀ name ∈ names (nodeAt conf.data (keys ++ [bytes "Hosts"])),
      ∀ (before : List WfdeHost) (host : WfdeHost),
        prepareHost platform conf before (joined slash (keys ++ [bytes "Hosts"]) ++ slash :: name) = .ok host
          ↔ IsHost platform (nodeAt (nodeAt conf.data keys) [bytes "Hosts", name]) host
            ∧ platform.mapAddUnique (before.map WfdeHost.name) host.name = .ok () := by
    intro name hname before host
    have hrest := areKeys_append hbelow (areKeys_singleton (hkeyed _ name hname))
    have hpath : joined slash (keys ++ [bytes "Hosts"]) ++ slash :: name
        = joined slash (keys ++ [bytes "Hosts"] ++ [name]) := by
      rw [joined_append (keys ++ _), joined_singleton]
    rw [hpath, prepareHost_eq_ok platform hrest hkeyed, List.append_assoc, nodeAt_append]
    rfl
  have hostsPath : joined slash keys ++ bytes "/Hosts" = joined slash (keys ++ [bytes "Hosts"]) := by
    rw [joined_append, joined_singleton]
    rfl
  unfold prepareServer
  dsimp only
  rw [hostsPath, entityName_eq (views_joined hkeys), enumNodes_of_toPath (toPath_joined hbelow)]
  simp only [Fallible.bind_eq_ok, Fallible.pure_eq_ok, Fallible.foldlM_append_eq_ok hosts,
    loadId_eq_ok platform (views_joined hkeys), List.nil_append]
  rw [nodeAt_append]
  constructor
  · rintro ⟨id, hid, _, ⟨prepared, rfl, hall, hunique⟩, rfl⟩
    exact ⟨hid, rfl, hall, hunique⟩
  · rintro ⟨hid, hnamed, hall, hunique⟩
    exact ⟨server.id, hid, server.hosts, ⟨server.hosts, rfl, hall, hunique⟩, by rw [← hnamed]⟩

theorem prepareServer_root (hkeyed : WellKeyed conf.data) :
    ∀ name ∈ names conf.data, ∀ server : WfdeServer,
      prepareServer platform conf (slash :: name) = .ok server
        ↔ IsServer platform (nodeAt conf.data [name]) server := by
  intro name hname server
  rw [← joined_singleton]
  exact prepareServer_eq_ok platform (areKeys_singleton (hkeyed [] name hname)) hkeyed

theorem enumNodes_root : conf.enumNodes [slash] = names conf.data :=
  have hroot : toPath [slash] = [] := rfl
  enumNodes_of_toPath hroot

/-- Every host that is prepared is what some node describes. -/
theorem exists_isHost (hkeyed : WellKeyed conf.data) {servers : List WfdeServer}
    (hprepared : prepareServers platform conf = .ok servers) {server : WfdeServer} {host : WfdeHost}
    (hserver : server ∈ servers) (hhost : host ∈ server.hosts) :
    ∃ svr ∈ names conf.data, ∃ hst ∈ names (nodeAt conf.data [svr, bytes "Hosts"]),
      IsHost platform (nodeAt conf.data [svr, bytes "Hosts", hst]) host := by
  rw [prepareServers, enumNodes_root, Fallible.mapM_eq_ok (prepareServer_root platform hkeyed)]
    at hprepared
  obtain ⟨svr, hsvr, hserver⟩ := Fallible.exists_of_forall₂ hprepared hserver
  obtain ⟨hst, hhst, hhost⟩ := Fallible.exists_of_forall₂ hserver.hosts hhost
  rw [← nodeAt_append] at hhst hhost
  exact ⟨svr, hsvr, hst, hhst, hhost⟩

end Entities

/-- **Preparing the servers.** From a configuration whose nodes have names without slashes the servers
are made if and only if they are what its nodes describe: every host has the paths and the users of its
own node, and its protocols have an interface for each of their endpoints. -/
theorem prepareServers_eq_ok_iff (platform : Platform) (conf : WfdeConfigurationPropertyTree)
    (hkeyed : WellKeyed conf.data) (servers : List WfdeServer) :
    prepareServers platform conf = .ok servers
      ↔ List.Forall₂ (fun name => IsServer platform (nodeAt conf.data [name])) (names conf.data)
        servers := by
  rw [prepareServers, enumNodes_root, Fallible.mapM_eq_ok (prepareServer_root platform hkeyed)]

/-- One host with one path, which anybody may list, and with a user and an alias. -/
def fanClub : WfdeConfigurationPropertyTree where
  data := .node [] [(bytes "S", .node [] [(bytes "Hosts", .node [] [(bytes "H", .node [] [
    (bytes "Paths", .node [] [(bytes "root", .node [] [(bytes "Name", .node (bytes "/") []),
      (bytes "Path", .node (bytes "/srv") []), (bytes "Perms", .node (bytes "CAN_LIST") [])])]),
    (bytes "Users", .node [] [(bytes "anonymous", .node [] []),
      (bytes "ftp", .node (bytes "anonymous") [])])])])])]

def noInterfaces : Platform where
  toPPath := Path.split
  resolve _ _ := .error .systemError
  mapAddUnique names name := if names.contains name then .error .alreadyExist else .ok ()
  getUuidFromString _ := .error .parseError

theorem wellKeyed_fanClub : WellKeyed fanClub.data := by
  repeat' first
    | exact List.forall_mem_nil _
    | refine List.forall_mem_cons.mpr ⟨⟨by decide, ?_⟩, ?_⟩
    | refine wellKeyed_node ?_

/-- The servers of this configuration can be made. -/
theorem prepareServers_eq_ok_iff_fanClub : ∃ servers : List WfdeServer,
    List.Forall₂ (fun name => IsServer noInterfaces (nodeAt fanClub.data [name]))
      (names fanClub.data) servers := by
  have hmade : (prepareServers noInterfaces fanClub).toBool = true := by decide +kernel
  cases hservers : prepareServers noInterfaces fanClub with
  | error e =>
      rw [hservers] at hmade
      cases hmade
  | ok servers =>
      exact ⟨servers, (prepareServers_eq_ok_iff noInterfaces fanClub wellKeyed_fanClub servers).mp
        hservers⟩

/-- **Users.** The users of a configuration can be read if and only if their paths can and every alias
stands for one of the users in front of it. A client is let in under a name if and only if it gives the
password of the user whom the name stands for, and gets the name and the permissions of that user. -/
theorem login_configured (platform : Platform) {conf : WfdeConfigurationPropertyTree}
    {view : SubConfig} {keys : List Bytes} (h : Views view keys) (hkeyed : WellKeyed conf.data) :
    ((∃ auth, AuthManagerImpl.ofConfiguration platform conf view = .ok auth)
        ↔ ∃ nodes, List.Forall₂ (IsUser platform (nodeAt conf.data keys))
            (names (nodeAt conf.data keys)) nodes ∧ AliasesResolve nodes)
      ∧ ∀ auth, AuthManagerImpl.ofConfiguration platform conf view = .ok auth →
        ∃ nodes, List.Forall₂ (IsUser platform (nodeAt conf.data keys))
            (names (nodeAt conf.data keys)) nodes
          ∧ ∀ name pwd client, auth.login name pwd = .ok client
            ↔ ∃ user, resolve nodes.reverse name = some user ∧ user.pwd = pwd
              ∧ client = ⟨user.name, some user.permissions⟩ := by
  constructor
  · simp only [ofConfiguration_eq_ok platform h hkeyed, HasUsersOf]
    constructor
    · rintro ⟨auth, nodes, hreads, hauth⟩
      exact ⟨nodes, hreads, (AuthManagerImpl.exists_make_iff nodes).mp ⟨auth, hauth⟩⟩
    · rintro ⟨nodes, hreads, haliases⟩
      obtain ⟨auth, hauth⟩ := (AuthManagerImpl.exists_make_iff nodes).mpr haliases
      exact ⟨auth, nodes, hreads, hauth⟩
  · intro auth hauth
    obtain ⟨nodes, hreads, hmake⟩ := (ofConfiguration_eq_ok platform h hkeyed).mp hauth
    refine ⟨nodes, hreads, fun name pwd client => ?_⟩
    rw [AuthManagerImpl.login_eq_ok, AuthManagerImpl.holds_make hmake]

/-- The users of this configuration can be read. -/
theorem login_configured_fanClub :
    ∃ auth nodes, AuthManagerImpl.ofConfiguration noInterfaces fanClub
          (WfdeConfigurationPropertyTree.getConfigForPath (bytes "/S/Hosts/H/Users")) = .ok auth
        ∧ ∀ name pwd client, auth.login name pwd = .ok client
          ↔ ∃ user, resolve (List.reverse nodes) name = some user ∧ user.pwd = pwd
            ∧ client = ⟨user.name, some user.permissions⟩ := by
  have hmade : (AuthManagerImpl.ofConfiguration noInterfaces fanClub
      (WfdeConfigurationPropertyTree.getConfigForPath (bytes "/S/Hosts/H/Users"))).toBool = true := by
    decide +kernel
  have hviews : Views (WfdeConfigurationPropertyTree.getConfigForPath (bytes "/S/Hosts/H/Users"))
      [bytes "S", bytes "Hosts", bytes "H", bytes "Users"] := ⟨by decide, by decide⟩
  cases hauth : AuthManagerImpl.ofConfiguration noInterfaces fanClub
      (WfdeConfigurationPropertyTree.getConfigForPath (bytes "/S/Hosts/H/Users")) with
  | error e =>
      rw [hauth] at hmade
      cases hmade
  | ok auth =>
      obtain ⟨nodes, -, hlogin⟩ :=
        (login_configured noInterfaces hviews wellKeyed_fanClub).2 auth hauth
      exact ⟨auth, nodes, rfl, hlogin⟩

end Wfde
