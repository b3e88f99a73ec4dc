import Wfde.FileListing
import Wfde.Ftp.SessionData
import Wfde.Lib.Cursor

/-!
# The formats of the listing commands

`LsLongFormat` and `MlsdFormat` of `WfdeFtpList.h`, with the pointer they write through, and what a
listing takes from the state of the protocol. The constants of `snprintf` and `strftime` and the
values they return are those of the source: what the call wanted to write, not what it wrote.
`gmtime` stands for `war_gmtime`, which is not part of the repository.
-/

namespace Wfde

/-- `struct tm`, with the ranges of its fields; a value that is initialised is all zeros. -/
structure Tm where
  sec : Fin 61 := 0
  min : Fin 60 := 0
  hour : Fin 24 := 0
  mday : Fin 32 := 0
  mon : Fin 12 := 0
  year : Int := 0
  deriving DecidableEq

/-- `war_gmtime`; nothing where it fails. -/
abbrev Gmtime := Int → Option Tm

/-- The time that is printed where `war_gmtime` fails. -/
def Tm.fallback : Tm := { mday := 1 }

def Gmtime.tm (gmtime : Gmtime) (time : Int) : Tm := (gmtime time).getD .fallback

/-- `S_ISDIR` -/
def Stat.isDirectory (st : Stat) : Bool := st.mode / 4096 % 16 == 4

section Numbers

def padLeft (fill : UInt8) (width : Nat) (text : Bytes) : Bytes :=
  List.replicate (width - text.length) fill ++ text

/-- `%d` -/
def signed (n : Int) : Bytes := if 0 ≤ n then decimal n.toNat else 45 :: decimal n.natAbs

/-- `%lld` of an unsigned number that is cast to `long long`. -/
def longLong (n : Nat) : Bytes := signed (if n < 2 ^ 63 then n else n - 2 ^ 64)

/-- `%x` -/
def hex (n : Nat) : Bytes := (Nat.toDigits 16 n).map fun c => UInt8.ofNat c.toNat

/-- `%02d` -/
def twoDigits (n : Nat) : Bytes := padLeft 48 2 (decimal n)

end Numbers

/-- `snprintf(cur, 16, ...)` and the step of `cur` by what it returns. -/
def snprintf (cur : Cursor UInt8) (text : Bytes) : Cursor UInt8 := Cursor.snprintf 0 16 cur text

/-- `strftime(cur, 16, ...)`; a text that does not fit leaves 0 and nothing that can be relied on. -/
def strftime (cur : Cursor UInt8) (text : Bytes) : Cursor UInt8 :=
  if text.length < 16 then Cursor.snprintf 0 16 cur text else cur

section Holds

variable {cur : Cursor UInt8} {text xs : Bytes}

theorem holds_snprintf (h : cur.Holds text) (hfits : xs.length < 16) :
    (snprintf cur xs).Holds (text ++ xs) :=
  h.snprintf hfits

theorem holds_strftime (h : cur.Holds text) (hfits : xs.length < 16) :
    (strftime cur xs).Holds (text ++ xs) := by
  rw [strftime, if_pos hfits]
  exact h.snprintf hfits

end Holds

structure LsLongFormat where
  yearTimeBorder : Int

namespace LsLongFormat

def halfYear : Int := 60 * 60 * 24 * (163 / 2)

/-- The constructor, at a time. -/
def make (now : Int) : LsLongFormat := { yearTimeBorder := now - halfYear }

def calculateSize (entry : Entry) : Nat := entry.name.length + 64

def bsStrFile : Bytes := bytes "-rw-r--r-- 1 ftp ftp "
def bsStrDir : Bytes := bytes "drwxr-xr-x 1 ftp ftp "

def months : List Bytes :=
  [bytes "Jan", bytes "Feb", bytes "Mar", bytes "Apr", bytes "May", bytes "Jun", bytes "Jul",
    bytes "Aug", bytes "Sep", bytes "Oct", bytes "Nov", bytes "Dec"]

/-- `" %2d %2d:%02d "` of the day, the minute and the second. -/
def timeText (tm : Tm) : Bytes :=
  [space] ++ padLeft space 2 (decimal tm.mday) ++ [space] ++ padLeft space 2 (decimal tm.min)
    ++ bytes ":" ++ twoDigits tm.sec ++ [space]

/-- `" %2d  %d "` of the day and the year. -/
def yearText (tm : Tm) : Bytes :=
  [space] ++ padLeft space 2 (decimal tm.mday) ++ [space, space] ++ signed (tm.year + 1900) ++ [space]

def printIt (gmtime : Gmtime) (self : LsLongFormat) (entry : Entry) : Cursor UInt8 :=
  let isDir := entry.st.isDirectory
  let cur := Cursor.start.memcpy (if isDir then bsStrDir else bsStrFile)
  let cur :=
    if !isDir then snprintf cur (padLeft space 8 (longLong entry.st.size) ++ [space])
    else cur.memcpy (bytes "       1 ")
  let tm := gmtime.tm entry.st.mtime
  let cur := cur.memcpy (months.getD tm.mon [])
  let cur :=
    if self.yearTimeBorder < entry.st.mtime then snprintf cur (timeText tm)
    else snprintf cur (yearText tm)
  let cur := cur.memcpy entry.name
  (cur.memcpy [cr]).memcpy [lf]

end LsLongFormat

/-- What `MlsdFormat` sees of the iterator. `GetPath` gives the path that is listed, or the null pointer;
for a file it is asserted to be there. -/
structure Listed extends Entry where
  path : Option Path
  asserted : st.isDirectory = false → path.isSome

/-- `GetUniqueFact`, whose buffer has room for every pair of numbers. -/
def Listed.getUniqueFact (fli : Listed) : Bytes :=
  if fli.path.isNone then fli.name
  else hex (fli.st.dev % 2 ^ 32) ++ bytes ":" ++ hex (fli.st.ino % 2 ^ 64)

/-- `print_timeval` -/
def printTimeval (gmtime : Gmtime) (time : Int) (cur : Cursor UInt8) : Cursor UInt8 :=
  let tm := gmtime.tm time
  strftime cur
    (signed (tm.year + 1900) ++ twoDigits (tm.mon + 1) ++ twoDigits tm.mday ++ twoDigits tm.hour
      ++ twoDigits tm.min ++ twoDigits tm.sec)

structure MlsdFormat where
  state : MdtxState

namespace MlsdFormat

def calculateSize (fli : Listed) : Nat := fli.name.length + 128

def typeFact (fli : Listed) : Bytes :=
  if fli.st.isDirectory then
    if fli.name.headD 0 = dot then
      if fli.name = bytes "." then bytes "cdir"
      else if fli.name = bytes ".." then bytes "pdir"
      else bytes "dir"
    else bytes "dir"
  else bytes "file"

/-- The letters, each if its condition holds. -/
def letters (table : List (Bool × String)) : Bytes :=
  (table.filter Prod.fst).flatMap fun letter => bytes letter.2

def permFact (fli : Listed) : Bytes :=
  match fli.path with
  | some path =>
      (if fli.st.isDirectory then
        letters
          [(path.canCreateFile, "c"), (path.canDeleteDir, "d"), (path.canEnter, "e"),
            (path.canCreateDir, "m"), (path.canDeleteFile || path.canDeleteDir, "p")]
      else
        letters
          [(path.canWrite, "a"), (path.canDeleteFile, "d"), (path.canRead, "r"),
            (path.canWrite, "w")])
        ++ letters [(path.canRename, "f")]
  -- assumed of pure virtual folders
  | none => bytes "e"

/-- What stands between `if (state_.IsEnabled(fact))` and the end of its block. -/
def printFact (self : MlsdFormat) (fact : Facts) (value : Cursor UInt8 → Cursor UInt8)
    (cur : Cursor UInt8) : Cursor UInt8 :=
  if self.state.isEnabled fact then
    (value ((cur.memcpy (MdtxState.factName fact)).memcpy (bytes "="))).memcpy (bytes ";")
  else cur

def printIt (gmtime : Gmtime) (self : MlsdFormat) (fli : Listed) : Cursor UInt8 :=
  let cur := Cursor.start.memcpy [space]
  let cur := self.printFact .type (fun cur => cur.memcpy (typeFact fli)) cur
  let cur := self.printFact .modify (printTimeval gmtime fli.st.mtime) cur
  let cur := self.printFact .size (fun cur => snprintf cur (longLong fli.st.size)) cur
  let cur := self.printFact .unique (fun cur => cur.memcpy fli.getUniqueFact) cur
  let cur := self.printFact .perm (fun cur => cur.memcpy (permFact fli)) cur
  -- the last byte is looked at, so that there is no double space
  let cur := if cur.cell (cur.pos - 1) != some space then cur.memcpy [space] else cur
  let cur := cur.memcpy fli.name
  (cur.memcpy [cr]).memcpy [lf]

end MlsdFormat

/-- What a formatter needs of a format: what it reserves for an entry, and the pointer it writes the line
through. -/
structure CursorFormat (ε : Type*) where
  calculateSize : ε → Nat
  printIt : ε → Cursor UInt8

def LsLongFormat.cursorFormat (gmtime : Gmtime) (self : LsLongFormat) : CursorFormat Entry where
  calculateSize := calculateSize
  printIt := self.printIt gmtime

/-- `NlstFormat`, with the pointer it writes through. -/
def nlstCursorFormat : CursorFormat Entry where
  calculateSize := nlstFormat.calculateSize
  printIt entry := ((Cursor.start.memcpy entry.name).memcpy [cr]).memcpy [lf]

def MlsdFormat.cursorFormat (gmtime : Gmtime) (self : MlsdFormat) : CursorFormat Listed where
  calculateSize := calculateSize
  printIt := self.printIt gmtime

/-- A `Formatter` and the memory from its buffer on; the buffer is the first `size` bytes of it. -/
structure RawFormatter where
  memory : Nat → UInt8
  size : Nat
  cur : Nat := 0

/-- `Print`. What `PrintIt` does not write keeps its value. -/
def RawFormatter.print {ε : Type*} (format : CursorFormat ε) (formatter : RawFormatter) (fli : ε) :
    RawFormatter :=
  if formatter.size ≤ formatter.cur + format.calculateSize fli then { formatter with cur := 0 }
  else
    let line := format.printIt fli
    { formatter with
      memory := fun i =>
        if i < formatter.cur then formatter.memory i
        else (line.cell (i - formatter.cur)).getD (formatter.memory i)
      cur := formatter.cur + line.pos }

/-- What a listing finds: the directory as `readdir` gives it, the virtual names in it, and what it
writes with. -/
structure Directory where
  host : Host
  names : List Bytes
  vpaths : List Entry
  buffer : Bytes
  format : Format

/-- The constructor of `WfdeFtpList`, with that of its `DirLister`. -/
def Directory.listing (directory : Directory) (path : Path) (state : FtpState) : WfdeFtpList :=
  .make directory.host path.ppath directory.names directory.vpaths
    (state.listHiddenFiles && path.canSeeHiddenFiles) directory.buffer directory.format

/-- The path itself as what is listed. -/
def Listed.ofPath (path : Path) (entry : Entry) : Listed where
  toEntry := entry
  path := some path
  asserted _ := rfl

namespace DirListerMlst

/-- `buffer_` -/
def bufferSize : Nat := 1024 * 16

/-- The format, for a line at the start of the buffer. -/
def format (gmtime : Gmtime) (buffer : Bytes) (path : Path) (state : FtpState) : Format where
  calculateSize entry := MlsdFormat.calculateSize (.ofPath path entry)
  printIt entry :=
    (MlsdFormat.printIt gmtime ⟨state.mdtxState⟩ (.ofPath path entry)).onto fun i => buffer.getD i 0

/-- The constructor. `show_hidden_` keeps its default, and nobody writes to the buffer. -/
def make (gmtime : Gmtime) (buffer : Bytes) (path : Path) (state : FtpState) : DirLister where
  fli := { ppath := path.ppath, dir := none, name := path.vpath }
  formatter := { buffer, format := format gmtime buffer path state }
  showHidden := false

/-- `GetMlstFacts`. The path is all that there is to list, so the loop comes to its head twice. -/
def getMlstFacts (gmtime : Gmtime) (host : Host) (buffer : Bytes) (path : Path) (state : FtpState) :
    Except Exception Bytes :=
  match (make gmtime buffer path state).list host 2 with
  | none => .error .diverged
  | some (_, mlst) =>
      let rval := mlst.getBuffer
      .ok (if 2 < rval.length then rval.take (rval.length - 2) else rval)

end DirListerMlst

/-- The environment with what `stat` and `war_gmtime` say, and what is in the memory where the lister
of an MLST puts its buffer. -/
def Env.withMlst (env : Env) (gmtime : Gmtime) (host : Host) (buffer : Bytes) : Env :=
  { env with mlstFacts := DirListerMlst.getMlstFacts gmtime host buffer }

end Wfde
