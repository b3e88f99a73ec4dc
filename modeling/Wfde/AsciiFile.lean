import Wfde.File
import Wfde.Bytes

/-!
# The file being transferred

A transfer works on a `File`: a mapped file or a directory listing, in ASCII mode wrapped by
`WfdeAsciiFile`, which maps the line ends. A listing is the buffers its `Read` calls will return.
-/

namespace Wfde

open Effect

/-- The files `OpenFile` and the listing commands make. -/
inductive RawFile where
  | mapped (file : WfdeFile)
  | listing (buffers : List Bytes) (eof : Bool)

/-- What `Write` returns: a region of the mapped file, or memory. -/
inductive WriteBuffer where
  | region (buffer : MutableBuffer)
  | memory (size : Nat)
  deriving DecidableEq

namespace WriteBuffer

def size : WriteBuffer → Nat
  | region buffer => buffer.size
  | memory size => size

end WriteBuffer

namespace RawFile

def getOperation : RawFile → FileOperation
  | mapped file => file.operation
  | listing _ _ => .read

def getSegmentSize : RawFile → Nat
  | mapped file => file.segmentSize
  | listing _ _ => 1024 * 16

def isEof : RawFile → Bool
  | mapped file => file.isEof
  | listing _ eof => eof

/-- At most so many calls of `Read` reach the end of the file. -/
def readsLeft : RawFile → Nat
  | mapped file => file.fileSize - file.pos
  | listing buffers eof => if eof then 0 else buffers.length + 1

def read (bytes : Nat) : RawFile → DiskM (Bytes × RawFile)
  | mapped file => do
      let (buffer, file) ← file.read bytes
      return (buffer, mapped file)
  | listing buffers _ => return (buffers.headD [], listing buffers.tail (buffers.tail == []))

/-- A listing is never written to. -/
def write (bytes : Nat) : RawFile → DiskM (WriteBuffer × RawFile)
  | mapped file => do
      let (buffer, file) ← file.write bytes
      return (.region buffer, mapped file)
  | listing buffers eof => return (.memory 0, listing buffers eof)

/-- What a socket reads goes to the start of the buffer. -/
def store (file : RawFile) (bytes : Bytes) (buffer : WriteBuffer) : DiskM Unit :=
  match buffer, file with
  | .region buffer, mapped file => file.store buffer bytes
  | _, _ => return ()

def setBytesWritten (bytes : Nat) : RawFile → RawFile
  | mapped file => mapped (file.setBytesWritten bytes)
  | listing buffers eof => listing buffers eof

def close : RawFile → DiskM RawFile
  | mapped file => return mapped (← file.close)
  | listing buffers eof => return listing buffers eof

end RawFile

inductive File where
  | raw (file : RawFile)
  | ascii (file : RawFile) (buffer : Bytes)

namespace File

/-- `local_eol_` of the system. -/
def localEol : Bytes := [lf]

/-- From the local format to text that is delimited by CRLF. -/
def toWire (text : Bytes) : Bytes :=
  text.flatMap fun c => if c = cr then [] else if c = lf then [cr, lf] else [c]

/-- From text that is delimited by CRLF to the local format. -/
def toLocal (text : Bytes) : Bytes :=
  text.flatMap fun c => if c = cr then [] else if c = lf then localEol else [c]

def inner : File → RawFile
  | raw file => file
  | ascii file _ => file

def getOperation (file : File) : FileOperation := file.inner.getOperation

def isEof (file : File) : Bool := file.inner.isEof

def read (bytes : Nat) : File → DiskM (Bytes × File)
  | raw file => do
      let (buffer, file) ← file.read bytes
      return (buffer, raw file)
  | ascii file _ => do
      let (buffer, file) ← file.read bytes
      return (toWire buffer, ascii file (toWire buffer))

def write (bytes : Nat) : File → DiskM (WriteBuffer × File)
  | raw file => do
      let (buffer, file) ← file.write bytes
      return (buffer, raw file)
  | ascii file _ =>
      let size := min (if bytes ≠ 0 then bytes else file.getSegmentSize) (file.getSegmentSize / 2)
      return (.memory size, ascii file (List.replicate size 0))

def store (bytes : Bytes) (buffer : WriteBuffer) : File → DiskM File
  | raw file => do
      file.store bytes buffer
      return raw file
  | ascii file text => return ascii file (bytes ++ text.drop bytes.length)

def setBytesWritten (bytes : Nat) : File → DiskM File
  | raw file => return raw (file.setBytesWritten bytes)
  | ascii file buffer => do
      let text := toLocal (buffer.take bytes)
      let (wrBuf, file) ← file.write (bytes * 2)
      file.store text wrBuf
      return ascii (file.setBytesWritten text.length) buffer

def close : File → DiskM File
  | raw file => return raw (← file.close)
  | ascii file buffer => return ascii (← file.close) buffer

end File

end Wfde
