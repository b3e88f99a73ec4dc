import Wfde.Path
import Mathlib.Data.List.Sort

/-!
# Permissions

`WfdePermissions` over the container of `multipaths.h`, which keeps its entries in sequence and
indexes them by virtual and by physical path, both indexes unique and ordered.
-/

namespace Wfde

/-- The entries in sequence. The unique indexes are the two fields on duplicates. -/
structure Permissions where
  paths : List Path
  uniqueVpath : (paths.map Path.vpath).Nodup
  uniquePpath : (paths.map Path.ppath).Nodup

namespace Permissions

def empty : Permissions := ⟨[], List.nodup_nil, List.nodup_nil⟩

def hasVpath (self : Permissions) (vpath : Bytes) : Bool :=
  (self.paths.map Path.vpath).contains vpath

def hasPpath (self : Permissions) (ppath : PPath) : Bool :=
  (self.paths.map Path.ppath).contains ppath

/-- `push_back` of the container leaves a path out that one of the unique indexes has already. -/
def pushBack (self : Permissions) (path : Path) : Permissions :=
  if h : self.hasVpath path.vpath = true ∨ self.hasPpath path.ppath = true then self
  else
    { paths := self.paths ++ [path]
      uniqueVpath := by
        rw [List.map_append, List.nodup_append]
        refine ⟨self.uniqueVpath, by simp, ?_⟩
        rintro vpath hvpath _ hpath rfl
        have hnew : ¬ self.hasVpath path.vpath = true := fun hhas => h (.inl hhas)
        rw [List.map_singleton, List.mem_singleton] at hpath
        exact hnew (by simpa [hasVpath, hpath] using hvpath)
      uniquePpath := by
        rw [List.map_append, List.nodup_append]
        refine ⟨self.uniquePpath, by simp, ?_⟩
        rintro ppath hppath _ hpath rfl
        have hnew : ¬ self.hasPpath path.ppath = true := fun hhas => h (.inr hhas)
        rw [List.map_singleton, List.mem_singleton] at hpath
        exact hnew (by simpa [hasPpath, hpath] using hppath) }

def addPath (self : Permissions) (path : Path) : Except Exception Permissions :=
  if self.hasVpath path.vpath then .error .alreadyExist
  else if self.hasPpath path.ppath then .error .alreadyExist
  else .ok (self.pushBack path)

def copy (self : Permissions) : Permissions := self.paths.foldl pushBack empty

def merge (self perms : Permissions) : Permissions :=
  perms.paths.foldl
    (fun merged path =>
      if merged.hasVpath path.vpath then merged
      else if merged.hasPpath path.ppath then merged
      else merged.pushBack path)
    self

/-- The index `tag_vpath`. -/
def byVpath (self : Permissions) : List Path :=
  self.paths.insertionSort fun a b => a.vpath ≤ b.vpath

/-- How far the inner loop of `GetPath` steps. Behind the end of `vpath` it reads the terminating
NUL. -/
def matchLength : Bytes → Bytes → Nat
  | [], _ => 0
  | c :: currVpath, vpath =>
      if c = vpath.headD 0 then matchLength currVpath vpath.tail + 1 else 0

def skipSlashes (vpath : Bytes) (remainingIt : Nat) : Nat :=
  remainingIt + ((vpath.drop remainingIt).takeWhile (· == slash)).length

/-- What the walk over the index leaves: a full match, or the best match and where the rest of the
path starts. -/
inductive Match where
  | full (path : Path)
  | best (bestMatch : Option (Path × Nat))

def walk (vpath : Bytes) (bestMatch : Option (Path × Nat)) : List Path → Match
  | [] => .best bestMatch
  | path :: rest =>
      let pp := matchLength path.vpath vpath
      if pp = path.vpath.length then
        if pp = vpath.length then .full path
        else if pp ≠ 0 then
          if path.isRecursive then walk vpath (some (path, skipSlashes vpath pp)) rest
          else walk vpath none rest
        else walk vpath bestMatch rest
      else walk vpath bestMatch rest

/-- `remaining->assign(remaining_it, use_path_end)`, which throws when the range is reversed. Without
a string to assign to there is nothing to do. -/
def assignRemaining (vpath : Bytes) (remainingIt : Nat) :
    Option Bytes → Except Exception (Option Bytes)
  | none => .ok none
  | some _ =>
      if vpath.length < remainingIt then .error .lengthError
      else .ok (some (vpath.drop remainingIt))

/-- `remaining` is what the caller's string holds, if it has passed one. A full match leaves it as
it is: `empty()` only asks. -/
def getPath (self : Permissions) (vpath : Bytes) (remaining : Option Bytes) :
    Except Exception (Path × Option Bytes) :=
  match walk vpath none self.byVpath with
  | .full path => .ok (path, remaining)
  | .best none => .error .accessDenied
  | .best (some (path, remainingIt)) =>
      (assignRemaining vpath remainingIt remaining).map fun remaining => (path, remaining)

end Permissions

end Wfde
