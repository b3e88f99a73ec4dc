import Wfde.Bytes

/-!
# Virtual and physical paths

`Path` and `WfdePath`. A physical path is the list of its components: `operator/=` appends the name
it is given, which here is never empty and holds no slash.
-/

namespace Wfde

/-- The exceptions of the modelled code. What they carry goes to the log only. -/
inductive Exception where
  | accessDenied
  | alreadyExist
  | badPath
  | notFound
  /-- `boost::filesystem::filesystem_error` -/
  | filesystemError
  /-- `boost::interprocess::interprocess_exception` -/
  | interprocessError
  | seekBeoindEof
  | alreadyLoggedIn
  | badCredentials
  | needPasswd
  | failedToConnect
  | parseError
  /-- `std::length_error` -/
  | lengthError
  /-- `boost::bad_lexical_cast`, where it is not caught at once -/
  | badLexicalCast
  /-- `boost::system::system_error` of a socket -/
  | systemError
  | missingInternalObject
  /-- A loop that makes no progress. -/
  | diverged
  deriving DecidableEq

inductive PermissionBits where
  | canRead
  | canWrite
  | canExecute
  | canEnter
  | canList
  | canCreateDir
  | canCreateFile
  | canDeleteFile
  | canDeleteDir
  | canSeeHiddenFiles
  | canSeeHiddenDirs
  | canCreateHiddenFiles
  | canCreateHiddenDirs
  | canSetTimestamp
  | canSetPermissions
  | canRename
  | isRecursive
  | isSharedUploadDir
  deriving DecidableEq

/-- `WfdePath::Bit` -/
def PermissionBits.bit : PermissionBits → UInt32
  | canRead => 0b00000000000000000000000000000001
  | canWrite => 0b00000000000000000000000000000010
  | canExecute => 0b00000000000000000000000000000100
  | canEnter => 0b00000000000000000000000000001000
  | canList => 0b00000000000000000000000000010000
  | canCreateDir => 0b00000000000000000000000000100000
  | canCreateFile => 0b00000000000000000000000001000000
  | canDeleteFile => 0b00000000000000000000000010000000
  | canDeleteDir => 0b00000000000000000000000100000000
  | canSeeHiddenFiles => 0b00000000000000000000001000000000
  | canSeeHiddenDirs => 0b00000000000000000000010000000000
  | canCreateHiddenFiles => 0b00000000000000000000100000000000
  | canCreateHiddenDirs => 0b00000000000000000001000000000000
  | canSetTimestamp => 0b00000000000000000010000000000000
  | canSetPermissions => 0b00000000000000000100000000000000
  | canRename => 0b00000000000000001000000000000000
  | isRecursive => 0b00000000000000010000000000000000
  | isSharedUploadDir => 0b00000000000000100000000000000000

inductive PathType where
  | file
  | directory
  | any
  deriving DecidableEq

abbrev PPath := List Bytes

/-- `WfdePath::MakeValid` -/
def makeValid (vpath : Bytes) : Bytes :=
  match vpath with
  | [] => []
  | c :: rest => if c = slash then c :: rest else slash :: c :: rest

@[simp]
theorem makeValid_makeValid (vpath : Bytes) : makeValid (makeValid vpath) = makeValid vpath := by
  cases vpath with
  | nil => rfl
  | cons c rest =>
      by_cases hc : c = slash <;> simp [makeValid, hc]

/-- A `WfdePath`. Its constructor roots the virtual path. -/
structure Path where
  ppath : PPath
  vpath : Bytes
  permbits : UInt32
  type : PathType
  valid : makeValid vpath = vpath
  deriving DecidableEq

namespace Path

/-- The constructor of `WfdePath`. -/
def make (vpath : Bytes) (ppath : PPath) (permbits : UInt32) (type : PathType := .directory) :
    Path :=
  ⟨ppath, makeValid vpath, permbits, type, makeValid_makeValid vpath⟩

def toPermBits (list : List PermissionBits) : UInt32 := list.foldl (fun rval p => rval ||| p.bit) 0

def has (path : Path) (bit : PermissionBits) : Bool := bit.bit &&& path.permbits != 0

def canRead (path : Path) : Bool := path.has .canRead
def canWrite (path : Path) : Bool := path.has .canWrite
def canEnter (path : Path) : Bool := path.has .canEnter
def canList (path : Path) : Bool := path.has .canList
def canCreateDir (path : Path) : Bool := path.has .canCreateDir
def canCreateFile (path : Path) : Bool := path.has .canCreateFile
def canDeleteFile (path : Path) : Bool := path.has .canDeleteFile
def canDeleteDir (path : Path) : Bool := path.has .canDeleteDir
def canRename (path : Path) : Bool := path.has .canRename
def canSeeHiddenFiles (path : Path) : Bool := path.has .canSeeHiddenFiles
def isRecursive (path : Path) : Bool := path.has .isRecursive

/-- The loop of `DoSplit` at what is behind `pos`. Every pass takes at least one character, so the
length of the string is enough fuel. -/
def splitLoop (splitCh : UInt8) : Nat → Bytes → List Bytes
  | 0, _ => []
  | _ + 1, [] => []
  | fuel + 1, c :: rest =>
      if c = splitCh then splitLoop splitCh fuel rest
      else
        let segment := (c :: rest).takeWhile (· != splitCh)
        segment :: splitLoop splitCh fuel ((c :: rest).drop segment.length)

def doSplit (partsToSplit : Bytes) (splitCh : UInt8 := slash) : List Bytes :=
  splitLoop splitCh partsToSplit.length partsToSplit

def split (partsToSplit : Bytes) : List Bytes := doSplit partsToSplit

/-- `find_first_of` with a single character; none is `npos`. -/
def findFirstOf (text : Bytes) (c : UInt8) (pos : Nat) : Option Nat :=
  ((text.drop pos).findIdx? (· == c)).map (pos + ·)

/-- The variables of `DoSplit`. -/
structure SplitState where
  pos : Nat
  bytesLeft : Nat
  parts : List Bytes
  deriving DecidableEq

namespace SplitState

def start (partsToSplit : Bytes) : SplitState :=
  { pos := 0, bytesLeft := partsToSplit.length, parts := [] }

def segLen (state : SplitState) (partsToSplit : Bytes) (splitCh : UInt8) : Nat :=
  match findFirstOf partsToSplit splitCh state.pos with
  | none => state.bytesLeft
  | some found => found - state.pos

/-- One pass of the loop of `DoSplit`, with the position and the counter it keeps. -/
def pass (partsToSplit : Bytes) (splitCh : UInt8) (state : SplitState) : SplitState :=
  if state.bytesLeft = 0 then state
  else if partsToSplit[state.pos]? = some splitCh then
    { state with pos := state.pos + 1, bytesLeft := state.bytesLeft - 1 }
  else
    let segLen := state.segLen partsToSplit splitCh
    { pos := state.pos + segLen, bytesLeft := state.bytesLeft - segLen,
      parts := state.parts ++ [(partsToSplit.drop state.pos).take segLen] }

end SplitState

/-- The inner loop of `NormalizeAndSplit`: how far a name reaches. `first` says that `p` is still at
`cur`. Behind the end of the string `*(p+1)` is the terminating NUL. -/
def scanName (first : Bool) : Bytes → Except Exception Nat
  | [] => .ok 0
  | c :: rest =>
      if c = slash then .ok 0
      else if c = backslash then .error .badPath
      else if c = dot && !first && (rest.headD 0 = dot || rest.headD 0 = slash) then .ok 0
      else
        match scanName false rest with
        | .ok len => .ok (len + 1)
        | .error e => .error e

/-- The outer loop of `NormalizeAndSplit` at `cur`. -/
def normalizeLoop : Nat → List Bytes → Bytes → Except Exception (List Bytes)
  | _, parts, [] => .ok parts
  | 0, _, _ :: _ => .error .diverged
  | fuel + 1, parts, c :: rest =>
      if c = slash then normalizeLoop fuel parts rest
      else if c = dot && rest.isEmpty then normalizeLoop fuel parts rest
      else if c = dot && rest.headD 0 = slash then normalizeLoop fuel parts rest.tail
      else if c = dot && rest.headD 0 = dot then
        -- `..` winds up one part, `..` before anything but a slash is not allowed
        if rest.tail.isEmpty || rest.tail.headD 0 = slash then
          if parts.isEmpty then .error .accessDenied
          else normalizeLoop fuel parts.dropLast rest.tail.tail
        else .error .badPath
      else
        match scanName true (c :: rest) with
        | .ok 0 => normalizeLoop fuel parts (c :: rest)
        | .ok (len + 1) => normalizeLoop fuel (parts ++ [c :: rest.take len]) (rest.drop len)
        | .error e => .error e

def normalizeAndSplit (vpath currentDir : Bytes) : Except Exception (List Bytes) :=
  if vpath.isEmpty then .ok (split currentDir)
  else
    let parts := if vpath.headD 0 != slash then split currentDir else []
    normalizeLoop vpath.length parts vpath

/-- The loop of `ToVpath`. -/
def appendParts (vpath : Bytes) (virgin : Bool) : List Bytes → Bytes
  | [] => vpath
  | part :: parts =>
      appendParts ((if virgin then vpath else vpath ++ [slash]) ++ part) false parts

def toVpath (parts : List Bytes) (addRoot : Bool := true) : Bytes :=
  appendParts (if addRoot then [slash] else []) true parts

def normalize (vpath currentDir : Bytes) : Except Exception Bytes :=
  match normalizeAndSplit vpath currentDir with
  | .ok parts => .ok (toVpath parts)
  | .error e => .error e

def descend : PPath × Bytes → Bytes → PPath × Bytes
  | (pp, vp), node => (pp ++ [node], (if vp.length > 1 then vp ++ [slash] else vp) ++ node)

def createSubpath (path : Path) (subPath : Bytes) (pathType : PathType) : Path :=
  let (pp, vp) := (split subPath).foldl descend (path.ppath, path.vpath)
  make vp pp path.permbits pathType

/-- Both lists of parts are split from this path, and the second range ends one part earlier than
the first: `std::equal` compares the distances of two random access ranges first. -/
def isSameParentDir (path _other : Path) : Bool :=
  let myParts := split path.vpath
  let theirsParts := split path.vpath
  if myParts.isEmpty || myParts.length != theirsParts.length then false
  else
    ((myParts.length : Int) - 1 == (theirsParts.length : Int) - 2)
      && myParts.take (myParts.length - 1) == theirsParts.take (theirsParts.length - 2)

end Path

end Wfde
