import Wfde.AuthManager
import Wfde.Configuration
import Wfde.Entity
import Wfde.Ftp.Protocol
import Wfde.PermissionNames

/-!
# Preparing the servers

`PrepareServers` of `wfded` and what it calls: the servers, hosts, protocols and interfaces of the
configuration, with the permissions of the hosts and the users they know.
-/

namespace Wfde

open WfdeConfigurationPropertyTree

/-- What the repository does not bring itself. -/
structure Platform where
  /-- the constructor of `boost::filesystem::path` -/
  toPPath : Bytes → PPath
  /-- `resolve` of a host and a port -/
  resolve : Bytes → Bytes → Except Exception (List Endpoint)
  /-- `WarMapAddUnique`, as far as the keys of the map go -/
  mapAddUnique : List Bytes → Bytes → Except Exception Unit
  /-- `get_uuid_from_string` -/
  getUuidFromString : Bytes → Except Exception Uuid

structure WfdeInterface where
  id : Option Uuid
  name : Bytes
  endpoint : Endpoint
  tlsCert : Bytes
  deriving DecidableEq

structure WfdeProtocol where
  id : Option Uuid
  name : Bytes
  interfaces : List WfdeInterface
  deriving DecidableEq

structure WfdeHost where
  id : Option Uuid
  name : Bytes
  authManager : AuthManagerImpl
  permissions : Permissions
  protocols : List WfdeProtocol

structure WfdeServer where
  id : Option Uuid
  name : Bytes
  hosts : List WfdeHost

section Configured

variable (platform : Platform) (conf : WfdeConfigurationPropertyTree)

section Permissions

/-- One pass of the loop of `CreatePermissions`. -/
def addConfiguredPath (view : SubConfig) (rvalPerms : Permissions) (name : Bytes) :
    Except Exception Permissions := do
  let vpath := view.getValue conf (slash :: name ++ bytes "/Name") none
  let ppath := view.getValue conf (slash :: name ++ bytes "/Path") none
  let perms := view.getValue conf (slash :: name ++ bytes "/Perms") none
  let permbits ← Path.toPermBitsOfNames perms
  rvalPerms.addPath (Path.make vpath (platform.toPPath ppath) permbits)

def createPermissions (view : SubConfig) : Except Exception Permissions :=
  (view.enumNodes conf []).foldlM (addConfiguredPath platform conf view) Permissions.empty

end Permissions

section Users

/-- What the constructor of `AuthManagerImpl` does for a node. -/
def addConfiguredUser (view : SubConfig) (self : AuthManagerImpl) (name : Bytes) :
    Except Exception AuthManagerImpl := do
  let linksTo := view.getValue conf name (some [])
  if linksTo.isEmpty then
    let permissions ←
      createPermissions platform conf (view.getConfigForPath (name ++ bytes "/Paths"))
    let passwd := view.getValue conf (name ++ bytes "/Passwd") (some [])
    self.addNode { name, passwd, permissions }
  else self.addNode { name, linksTo, permissions := .empty }

def AuthManagerImpl.ofConfiguration (view : SubConfig) : Except Exception AuthManagerImpl :=
  (view.enumNodes conf []).foldlM (addConfiguredUser platform conf view) {}

end Users

/-- `LoadId`, with which the constructor of every entity begins. An id that is made up at random is
left open. -/
def loadId (view : SubConfig) : Except Exception (Option Uuid) :=
  let id := view.getValue conf (bytes "/Id") (some [])
  if id.isEmpty then .ok none else (platform.getUuidFromString id).map some

/-- `GetName` of an entity. -/
def entityName (view : SubConfig) : Bytes := view.getValue conf (bytes "/Name") (some (bytes "Default"))

namespace WfdeProtocol

/-- An interface for each endpoint. The name that `CreateInterface` is given is not used. -/
def addInterface (view : SubConfig) : Except Exception (List WfdeInterface) := do
  let ifIp := view.getValue conf (bytes "/Ip") none
  let ifPort := view.getValue conf (bytes "/Port") none
  let endpoints ← platform.resolve ifIp ifPort
  endpoints.mapM fun endpoint => do
    let id ← loadId platform conf view
    return {
      id
      name := entityName conf view
      endpoint
      tlsCert := view.getValue conf (bytes "TlsCert") (some []) }

def addInterfaces (view : SubConfig) : Except Exception (List WfdeInterface) :=
  (view.enumNodes conf (bytes "/Interfaces")).foldlM
    (fun interfaces name => do
      let added ←
        addInterface platform conf (view.getConfigForPath (bytes "/Interfaces/" ++ name))
      return interfaces ++ added)
    []

end WfdeProtocol

/-- The names under which `RegisterDefaultProtocols` adds a factory. -/
def protocolFactories : List Bytes := [bytes "FTP"]

/-- `CreateProtocol`, and the interfaces it gets. -/
def createProtocol (view : SubConfig) : Except Exception WfdeProtocol := do
  if protocolFactories.contains (view.getValue conf (bytes "/Name") none) then
    let id ← loadId platform conf view
    let interfaces ← WfdeProtocol.addInterfaces platform conf view
    return { id, name := entityName conf view, interfaces }
  else throw .notFound

/-- What `PrepareServers` does for a host. -/
def prepareHost (hosts : List WfdeHost) (thishostPath : Bytes) : Except Exception WfdeHost := do
  let authManager ←
    AuthManagerImpl.ofConfiguration platform conf (getConfigForPath (thishostPath ++ bytes "/Users"))
  let id ← loadId platform conf (getConfigForPath thishostPath)
  let name := entityName conf (getConfigForPath thishostPath)
  platform.mapAddUnique (hosts.map WfdeHost.name) name
  let permissions ←
    createPermissions platform conf (getConfigForPath (thishostPath ++ bytes "/Paths"))
  let protPath := thishostPath ++ bytes "/Protocols"
  let protocols ← (conf.enumNodes protPath).mapM fun prdef =>
    createProtocol platform conf (getConfigForPath (protPath ++ slash :: prdef))
  return { id, name, authManager, permissions, protocols }

def prepareServer (svrPath : Bytes) : Except Exception WfdeServer := do
  let id ← loadId platform conf (getConfigForPath svrPath)
  let hostsPath := svrPath ++ bytes "/Hosts"
  let hosts ← (conf.enumNodes hostsPath).foldlM
    (fun hosts hostdef => do
      let host ← prepareHost platform conf hosts (hostsPath ++ slash :: hostdef)
      return hosts ++ [host])
    []
  return { id, name := entityName conf (getConfigForPath svrPath), hosts }

def prepareServers : Except Exception (List WfdeServer) :=
  (conf.enumNodes [slash]).mapM fun svrdef => prepareServer platform conf (slash :: svrdef)

end Configured

namespace WfdeHost

/-- The protocol of an interface as an entity, up to the server. `PrepareServers` gives permissions to
hosts only. -/
def protocolEntity (self : WfdeHost) : Entity :=
  .child none (.child (some self.permissions) (.root none))

end WfdeHost

end Wfde
