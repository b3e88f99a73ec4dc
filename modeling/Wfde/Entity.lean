import Wfde.Permissions

/-!
# Entities

`WfdeEntity`: a server, a host, a protocol or an interface, as far as its permissions go. An entity
comes with its parents up to the root.
-/

namespace Wfde

abbrev Uuid := BitVec 128

inductive Entity where
  | root (permissions : Option Permissions)
  | child (permissions : Option Permissions) (parent : Entity)

namespace Entity

def getPermissions : Entity → Option Permissions
  | root permissions => permissions
  | child permissions _ => permissions

def getParent : Entity → Option Entity
  | root _ => none
  | child _ parent => some parent

def haveParent (self : Entity) : Bool := self.getParent.isSome

/-- What a pass of the loop over the parents does to `rval`. -/
def mergeLevel (rval : Permissions) (parent : Entity) : Permissions :=
  match parent.getPermissions with
  | some pperms => rval.merge pperms
  | none => rval

/-- The loop of `GetEffectivePermissions`, as long as there are passes left. `own` is the parent of
the entity itself: it is its parent that every pass takes next. -/
def mergeParents (own : Entity) : Nat → Entity → Permissions → Option Permissions
  | 0, _, _ => none
  | passes + 1, parent, rval =>
      if parent.haveParent then
        match own.getParent with
        | some next => mergeParents own passes next (mergeLevel rval parent)
        | none => none
      else some rval

def getEffectivePermissions (passes : Nat) : Entity → Option (Except Exception Permissions)
  | root none => some (.error .missingInternalObject)
  | root (some permissions) => some (.ok permissions.copy)
  | child none parent => parent.getEffectivePermissions passes
  | child (some permissions) parent =>
      (mergeParents parent passes parent permissions.copy).map .ok

end Entity

end Wfde
