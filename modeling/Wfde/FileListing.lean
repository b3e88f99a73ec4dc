import Wfde.Path

/-!
# Directory listings

`FileListIterator` over `readdir`, the `Formatter` and the `DirLister` of `file_listing.h`, and
`WfdeFtpList`, which a transfer reads buffer by buffer.
-/

namespace Wfde

/-- What the accessors of the iterator read of a `struct stat`. -/
structure Stat where
  mode : Nat := 0
  size : Nat := 0
  mtime : Int := 0
  dev : Nat := 0
  ino : Nat := 0
  deriving DecidableEq

/-- What a formatter sees of the iterator. -/
structure Entry where
  name : Bytes
  st : Stat
  deriving DecidableEq

/-- `stat` fills in zeros where the call fails. `released` is what a reference to a string reads when
the string is destroyed; the language leaves it open. -/
structure Host where
  stat : PPath → Stat
  released : Bytes → Bytes

/-- `dir` is what `readdir` has left, or the null pointer. -/
structure FileListIterator where
  ppath : PPath
  dir : Option (List Bytes)
  isEof : Bool := false
  haveVpath : Bool := false
  st : Stat := {}
  name : Bytes := []
  vpaths : List Entry := []

namespace FileListIterator

def isFake (fli : FileListIterator) : Bool := fli.dir.isNone

def advance (host : Host) (fli : FileListIterator) : FileListIterator :=
  match fli.dir with
  | none => { fli with isEof := true }
  | some dir =>
      match fli.isEof, dir with
      | false, name :: dir => { fli with dir := some dir, name }
      | _, _ =>
          match fli.vpaths.getLast? with
          | none => { fli with isEof := true, name := [], haveVpath := false }
          | some vpath =>
              -- `name_` refers to the string that `pop_back` destroys
              { fli with
                isEof := true
                name := host.released vpath.name
                st := vpath.st
                vpaths := fli.vpaths.dropLast
                haveVpath := true }

/-- The constructor for a directory, whose `opendir` has succeeded. It prepares the first entry. -/
def make (host : Host) (ppath : PPath) (dir : List Bytes) : FileListIterator :=
  advance host { ppath, dir := some dir }

def addVirtualPath (fli : FileListIterator) (vpath : Entry) : FileListIterator :=
  { fli with vpaths := fli.vpaths ++ [vpath] }

/-- `operator !=`, which does not look at what it compares with. -/
def isMore (fli : FileListIterator) : Bool := !fli.isEof || fli.haveVpath

/-- `Stat` -/
def stat (host : Host) (fli : FileListIterator) : FileListIterator :=
  let statPath := if fli.isFake then fli.ppath else fli.ppath ++ [fli.name]
  { fli with st := if !fli.isEof then host.stat statPath else fli.st }

def entry (fli : FileListIterator) : Entry := ⟨fli.name, fli.st⟩

end FileListIterator

structure Format where
  calculateSize : Entry → Nat
  printIt : Entry → Bytes

/-- `cur` is the distance of `cur_` from the start of the buffer. -/
structure Formatter where
  buffer : Bytes
  cur : Nat := 0
  format : Format

/-- What `PrintIt` writes goes to the buffer, from `cur_` on. -/
def Formatter.put (formatter : Formatter) (line : Bytes) : Formatter :=
  let { buffer, cur, .. } := formatter
  { formatter with
    buffer := buffer.take cur ++ line ++ buffer.drop (cur + line.length), cur := cur + line.length }

/-- `Print`; the number of bytes is missing where it returns -1. -/
def Formatter.print (formatter : Formatter) (entry : Entry) : Option Nat × Formatter :=
  if formatter.buffer.length ≤ formatter.cur + formatter.format.calculateSize entry then
    (none, { formatter with cur := 0 })
  else
    let line := formatter.format.printIt entry
    (some line.length, formatter.put line)

/-- `NlstFormat` -/
def nlstFormat : Format where
  calculateSize entry := entry.name.length + 2
  printIt entry := entry.name ++ [cr, lf]

structure DirLister where
  bytesUsed : Nat := 0
  fli : FileListIterator
  formatter : Formatter
  showHidden : Bool

namespace DirLister

/-- A hidden file of UNIX. -/
def hides (showHidden : Bool) (name : Bytes) : Bool :=
  name.headD 0 == dot
    && !(showHidden || name.length == 1 || (name.length == 2 && name.getD 1 0 == dot))

/-- The loop of `List`; `none` when the fuel runs out. -/
def listLoop (host : Host) : Nat → DirLister → Option (Bool × DirLister)
  | 0, _ => none
  | fuel + 1, lister =>
      if lister.fli.isMore then
        if hides lister.showHidden lister.fli.name then
          listLoop host fuel { lister with fli := lister.fli.advance host }
        else
          let fli := lister.fli.stat host
          match lister.formatter.print fli.entry with
          | (none, formatter) => some (true, { lister with fli, formatter })
          | (some bytes, formatter) =>
              listLoop host fuel
                { lister with
                  fli := fli.advance host, formatter, bytesUsed := lister.bytesUsed + bytes }
      else some (false, lister)

/-- Says if there is more to list. -/
def list (host : Host) (fuel : Nat) (lister : DirLister) : Option (Bool × DirLister) :=
  listLoop host fuel { lister with bytesUsed := 0 }

def getBuffer (lister : DirLister) : Bytes := lister.formatter.buffer.take lister.bytesUsed

end DirLister

structure WfdeFtpList where
  isEof : Bool := false
  pos : Nat := 0
  dirLister : DirLister

namespace WfdeFtpList

/-- A listing of a directory with what `readdir` has for it, and the virtual names that the
constructor of `DirLister` adds. -/
def make (host : Host) (ppath : PPath) (dir : List Bytes) (vpaths : List Entry) (showHidden : Bool)
    (buffer : Bytes) (format : Format) : WfdeFtpList where
  dirLister :=
    { fli := vpaths.foldl FileListIterator.addVirtualPath (.make host ppath dir)
      formatter := { buffer, format }
      showHidden }

def read (host : Host) (fuel : Nat) (file : WfdeFtpList) : Option (Bytes × WfdeFtpList) :=
  (file.dirLister.list host fuel).map fun (more, dirLister) =>
    (dirLister.getBuffer, { isEof := !more, pos := file.pos + dirLister.bytesUsed, dirLister })

/-- What a transfer makes of a listing: the buffers that `Read` returns until `IsEof`. -/
def readUntilEof (host : Host) : Nat → WfdeFtpList → Option (List Bytes)
  | 0, _ => none
  | fuel + 1, file =>
      match file.read host (fuel + 1) with
      | none => none
      | some (buffer, file) =>
          if file.isEof then some [buffer]
          else (readUntilEof host fuel file).map (buffer :: ·)

end WfdeFtpList

end Wfde
