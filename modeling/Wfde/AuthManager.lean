import Wfde.Session

/-!
# The authentication manager

`AuthManagerImpl` of `wfded`: the users of the configuration, in a map whose order ignores the case of
the names.
-/

namespace Wfde

/-- A `ClientImpl`, without its instance count. -/
structure ClientImpl where
  name : Bytes
  pwd : Bytes
  permissions : Permissions

/-- A node of the configuration below the users. -/
structure UserNode where
  name : Bytes
  linksTo : Bytes := []
  passwd : Bytes := []
  permissions : Permissions

/-- `std::tolower` in the classic locale. -/
def toLower (c : UInt8) : UInt8 := if 65 ≤ c && c ≤ 90 then c + 32 else c

/-- What `strcasecmp` sees of a name. Names that agree in it are equivalent under `ciLessLibC`. -/
def ciKey (name : Bytes) : Bytes := (name.takeWhile (· != 0)).map toLower

/-- `clients_` holds at most one entry for equivalent names. -/
structure AuthManagerImpl where
  clients : List (Bytes × ClientImpl) := []
  unique : (clients.map fun entry => ciKey entry.1).Nodup := by exact List.nodup_nil

namespace AuthManagerImpl

def find (self : AuthManagerImpl) (name : Bytes) : Option ClientImpl :=
  (self.clients.find? fun entry => ciKey entry.1 == ciKey name).map Prod.snd

/-- `clients_[name] = client` -/
def assign (self : AuthManagerImpl) (name : Bytes) (client : ClientImpl) : AuthManagerImpl :=
  if h : ciKey name ∈ self.clients.map fun entry => ciKey entry.1 then
    { clients := self.clients.map fun entry =>
        if ciKey entry.1 == ciKey name then (entry.1, client) else entry
      unique := by
        have hkeys : (fun entry : Bytes × ClientImpl => ciKey entry.1) ∘ (fun entry =>
              if ciKey entry.1 == ciKey name then (entry.1, client) else entry)
            = fun entry => ciKey entry.1 := by
          funext entry
          dsimp only [Function.comp_apply]
          split <;> rfl
        rw [List.map_map, hkeys]
        exact self.unique }
  else
    { clients := self.clients ++ [(name, client)]
      unique := by
        rw [List.map_append]
        refine List.nodup_append.mpr ⟨self.unique, List.nodup_singleton _, ?_⟩
        intro key hkey other hother heq
        rw [List.map_singleton, List.mem_singleton] at hother
        rw [← hother, ← heq] at h
        exact h hkey }

/-- A user, or an alias of a user that is there already. -/
def addNode (self : AuthManagerImpl) (node : UserNode) : Except Exception AuthManagerImpl :=
  if node.linksTo.isEmpty then
    .ok (self.assign node.name ⟨node.name, node.passwd, node.permissions⟩)
  else
    match self.find node.linksTo with
    | none => .error .notFound
    | some client => .ok (self.assign node.name client)

/-- The constructor. -/
def make (nodes : List UserNode) : Except Exception AuthManagerImpl :=
  nodes.foldlM addNode {}

def login (self : AuthManagerImpl) (name pwd : Bytes) : Except Exception Client :=
  match self.find name with
  | none => .error .notFound
  | some client =>
      if !client.pwd.isEmpty && pwd.isEmpty then .error .needPasswd
      else if client.pwd ≠ pwd then .error .badCredentials
      else .ok ⟨client.name, some client.permissions⟩

end AuthManagerImpl

end Wfde
