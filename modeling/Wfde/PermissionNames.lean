import Wfde.Path

/-!
# The names of permissions

What `WfdePath.cpp` makes of permission bits in text, and of text in permission bits.
-/

namespace Wfde

/-- `perm_names` -/
def permNames : List (Bytes × PermissionBits) :=
  [(bytes "CAN_READ", .canRead), (bytes "CAN_WRITE", .canWrite), (bytes "CAN_EXECUTE", .canExecute),
    (bytes "CAN_ENTER", .canEnter), (bytes "CAN_LIST", .canList),
    (bytes "CAN_CREATE_DIR", .canCreateDir), (bytes "CAN_CREATE_FILE", .canCreateFile),
    (bytes "CAN_DELETE_FILE", .canDeleteFile), (bytes "CAN_DELETE_DIR", .canDeleteDir),
    (bytes "CAN_SEE_HIDDEN_FILES", .canSeeHiddenFiles),
    (bytes "CAN_SEE_HIDDEN_DIRS", .canSeeHiddenDirs),
    (bytes "CAN_CREATE_HIDDEN_FILES", .canCreateHiddenFiles),
    (bytes "CAN_CREATE_HIDDEN_DIRS", .canCreateHiddenDirs),
    (bytes "CAN_SET_TIMESTAMP", .canSetTimestamp), (bytes "CAN_SET_PERMISSIONS", .canSetPermissions),
    (bytes "CAN_RENAME", .canRename), (bytes "IS_RECURSIVE", .isRecursive),
    (bytes "IS_SHARED_UPLOAD_DIR", .isSharedUploadDir)]

/-- What is printed, and what becomes of the flag. -/
def pad (virgin : Bool) : Bytes × Bool := if virgin then ([], false) else (bytes ", ", virgin)

def comma : UInt8 := 44

namespace Path

def toPermBit (name : Bytes) : Except Exception UInt32 :=
  match permNames.find? fun p => p.1 = name with
  | some p => .ok p.2.bit
  | none => .error .notFound

/-- `ToPermBits` of a text. -/
def toPermBitsOfNames (list : Bytes) : Except Exception UInt32 :=
  (doSplit list comma).foldlM
    (fun rval perm =>
      match toPermBit perm with
      | .ok bit => .ok (rval ||| bit)
      | .error e => .error e)
    0

/-- The loop of `ToPermNames`. The name is printed in front of what `pad` gives. -/
def printNames (perms : UInt32) (val : Bytes) (virgin : Bool) :
    List (Bytes × PermissionBits) → Bytes
  | [] => val
  | p :: names =>
      if perms &&& p.2.bit != 0 then
        printNames perms (val ++ p.1 ++ (pad virgin).1) (pad virgin).2 names
      else printNames perms val virgin names

def toPermNames (perms : UInt32) : Bytes := printNames perms [] true permNames

end Path

end Wfde
