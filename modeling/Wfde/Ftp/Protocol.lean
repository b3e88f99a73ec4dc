import Wfde.Session
import Wfde.AsciiFile

/-!
# The FTP protocol

`ftp_protocol.h`: reply codes and replies, the state the commands share, and what the command
classes say of themselves. The build is the one with TLS.
-/

namespace Wfde

inductive FtpReplyCodes where
  | restartMarker
  | connectionOpenStartingXfer
  | openingConnection
  | ok
  | statusOk
  | directoryStatus
  | fileStatus
  | help
  | name
  | ready
  | bye
  | dataConnectionOpen
  | closingDataConnection
  | passive
  | loggedIn
  | securityDataExchangeComplete
  | fileActionOk
  | pathnameCreated
  | needPasswd
  | fileActionPendingInfo
  | serviceNotAvailable
  | cantOpenDataConn
  | transferAborted
  | actionFailed
  | localError
  | outOfDiskspace
  | syntaxError
  | syntaxErrorInParams
  | commandNotImplemented
  | badSequenceOfCommands
  | paramNotImplemented
  | notLoggedOn
  | rejectedForPolicyReasons
  | actionNotTaken
  | illegalFileName
  deriving DecidableEq

/-- `Resolve`: the number on the wire and the text of a reply that brings none. -/
def FtpReplyCodes.resolve : FtpReplyCodes → Nat × Bytes
  | restartMarker => (110, bytes "Restart marker.")
  | connectionOpenStartingXfer => (125, bytes "Data connection already open; transfer starting.")
  | openingConnection => (150, bytes "File status okay; about to open data connection.")
  | ok => (200, bytes "Command okay.")
  | statusOk => (211, bytes "Status okay.")
  | directoryStatus => (212, bytes "Directory Status.")
  | fileStatus => (213, bytes "RC_FILE_STATUS")
  | help => (214, bytes "RC_HELP")
  | name => (215, bytes "RC_NAME")
  | ready => (220, bytes "Service ready for new user.")
  | bye => (221, bytes "Service closing control connection.")
  | dataConnectionOpen => (225, bytes "Data connection open; no transfer in progress.")
  | closingDataConnection => (226, bytes "Closing data connection.")
  | passive => (227, bytes "RC_PASSIVE")
  | loggedIn => (230, bytes "User logged in, proceed.")
  | securityDataExchangeComplete => (234, bytes "Security data exchange complete.")
  | fileActionOk => (250, bytes "Requested file action okay, completed.")
  | pathnameCreated => (257, bytes "RC_PATHNAME_CREATED")
  | needPasswd => (331, bytes "User name okay, need password.")
  | fileActionPendingInfo => (350, bytes "Requested file action pending further information.")
  | serviceNotAvailable => (421, bytes "Service not available, closing control connection.")
  | cantOpenDataConn => (425, bytes "Can't open data connection.")
  | transferAborted => (426, bytes "Connection closed; transfer aborted.")
  | actionFailed => (450, bytes "Requested file action not taken.")
  | localError => (451, bytes "Requested action aborted: local error in processing.")
  | outOfDiskspace =>
      (452, bytes "Requested action not taken. Insufficient storage space in system.")
  | syntaxError => (500, bytes "Syntax error, command unrecognized.")
  | syntaxErrorInParams => (501, bytes "Syntax error in parameters or arguments.")
  | commandNotImplemented => (502, bytes "Command not implemented.")
  | badSequenceOfCommands => (503, bytes "Bad sequence of commands.")
  | paramNotImplemented => (504, bytes "Command not implemented for that parameter.")
  | notLoggedOn => (530, bytes "Not logged in.")
  | rejectedForPolicyReasons => (354, bytes "Request denied for policy reasons")
  | actionNotTaken => (550, bytes "Requested action not taken. File is unavailable.")
  | illegalFileName => (553, bytes "Requested action not taken. File name not allowed.")

/-- An `FtpReply` that has been given. -/
structure FtpReply where
  code : FtpReplyCodes
  message : Bytes := []
  endSession : Bool := false
  multiLine : Bool := false
  deriving DecidableEq

def decimal (n : Nat) : Bytes := bytes (toString n)

def crlf : Bytes := [cr, lf]

/-- What `Reply` puts on the wire. -/
def FtpReply.text (reply : FtpReply) : Bytes :=
  let (number, default) := reply.code.resolve
  let first := decimal number ++ (if reply.multiLine then bytes "- " else bytes " ")
    ++ (if reply.message.isEmpty then default else reply.message) ++ crlf
  if reply.multiLine then first ++ decimal number ++ bytes " END\r\n" else first

inductive Facts where
  | size
  | modify
  | type
  | unique
  | perm
  deriving DecidableEq

/-- `fact_bits_` starts with the bits of size, modify, type and perm. -/
structure MdtxState where
  factBits : UInt32 := 0b0000000000010111
  deriving DecidableEq

namespace MdtxState

def facts : List Facts := [.size, .modify, .type, .unique, .perm]

def factName : Facts → Bytes
  | .size => bytes "Size"
  | .modify => bytes "Modify"
  | .type => bytes "Type"
  | .unique => bytes "Unique"
  | .perm => bytes "Perm"

/-- `1 << static_cast<int>(fact)` -/
def factBit : Facts → UInt32
  | .size => 1
  | .modify => 2
  | .type => 4
  | .unique => 8
  | .perm => 16

/-- The masked bit is compared with 1. -/
def isEnabled (self : MdtxState) (fact : Facts) : Bool := self.factBits &&& factBit fact == 1

def disableAll (_self : MdtxState) : MdtxState := { factBits := 0 }

def enable (self : MdtxState) (name : Bytes) : MdtxState :=
  facts.foldl
    (fun state fact =>
      if iequals (factName fact) name then { factBits := state.factBits ||| factBit fact }
      else state)
    self

def getFactList (self : MdtxState) : Bytes :=
  facts.flatMap fun fact =>
    factName fact ++ (if self.isEnabled fact then bytes "*" else []) ++ bytes ";"

end MdtxState

inductive Initiation where
  | none
  | port
  | pasv
  deriving DecidableEq

/-- `FtpState::Type` -/
inductive TransferType where
  | ascii
  | bin
  deriving DecidableEq

inductive Transfer where
  | none
  | incoming
  | outgoing
  deriving DecidableEq

structure Endpoint where
  address : List Nat := [0, 0, 0, 0]
  port : Nat := 0
  deriving DecidableEq

structure PasvAcceptor where
  listening : Bool := false
  address : Endpoint := {}
  deriving DecidableEq

/-- A task of `tasks_pending_after_reply`. -/
inductive PendingTask where
  | startTls
  deriving DecidableEq

structure FtpState where
  isLoggedIn : Bool := false
  transfer : Transfer := .none
  initiation : Initiation := .none
  ttype : TransferType := .ascii
  requestedPath : Bytes := []
  portEndpoint : Endpoint := {}
  rest : Nat := 0
  allo : Nat := 0
  abortPending : Bool := false
  rnfr : Bytes := []
  mdtxState : MdtxState := {}
  overrideAsBinary : Bool := false
  pasv : Option PasvAcceptor := none
  listHiddenFiles : Bool := false
  loginName : Bytes := []
  ccIsEncrypted : Bool := false
  encryptTransfers : Bool := false
  tasksPendingAfterReply : List PendingTask := []
  deriving DecidableEq

namespace FtpState

def isInTransfer (state : FtpState) : Bool := state.transfer != .none

def setPort (state : FtpState) (endp : Endpoint) : FtpState :=
  { state with portEndpoint := endp, initiation := .port }

def setPasv (state : FtpState) : FtpState := { state with initiation := .pasv }

def havePasvOrPost (state : FtpState) : Bool := state.initiation != .none

def abort (state : FtpState) : FtpState := { state with abortPending := true }

def resetTransfer (state : FtpState) : FtpState :=
  { state with
    transfer := .none
    initiation := .none
    allo := 0
    rest := 0
    overrideAsBinary := false
    pasv := none
    listHiddenFiles := false }

def getType (state : FtpState) : TransferType :=
  if state.overrideAsBinary then .bin else state.ttype

end FtpState

/-- The classes that `DefaultFtpCmds` adds. -/
inductive FtpCmd where
  | help | feat | opts | quit | syst | type | port | user | pass | retr | stor | stou | appe | rest
  | size | mdtm | allo | abor | pwd | cwd | cdup | dele | mkd | rmd | noop | rnfr | rnto | list | nlst
  | mlsd | mlst | pasv | stat | auth | pbsz | prot
  deriving DecidableEq

/-- The expressions for the parameters; `.` matches any byte and letters match in either case. -/
inductive ParamSyntax where
  /-- no expression: the command takes no parameters and ignores what is there -/
  | none
  /-- `(.*)` -/
  | anything
  /-- `(.+)` -/
  | something
  /-- `(\d+)` -/
  | digits
  /-- `([a-z]+)(\ (.+))?` -/
  | opts
  /-- `([A](\ N)?)|(I)` -/
  | type
  /-- six groups of one to three digits, separated by commas -/
  | port
  /-- `(tls|tls-c)` -/
  | auth
  /-- `(0)` -/
  | pbsz
  /-- `(P|C)` -/
  | prot
  deriving DecidableEq

/-- `boost::regex_match` of the whole parameter. -/
def ParamSyntax.matches (syntax_ : ParamSyntax) (param : Bytes) : Bool :=
  match syntax_ with
  | none => true
  | anything => true
  | something => !param.isEmpty
  | digits => !param.isEmpty && param.all isDigit
  | opts =>
      let rest := param.dropWhile isAlpha
      !(param.takeWhile isAlpha).isEmpty
        && (rest.isEmpty || (rest.headD 0 == space && 2 ≤ rest.length))
  | type => [bytes "A", bytes "A N", bytes "I"].any (iequals param)
  | port =>
      let groups := param.splitOn 44
      groups.length == 6 && groups.all fun group =>
        !group.isEmpty && group.length ≤ 3 && group.all isDigit
  | auth => [bytes "tls", bytes "tls-c"].any (iequals param)
  | pbsz => param == bytes "0"
  | prot => [bytes "P", bytes "C"].any (iequals param)

namespace FtpCmd

/-- In the order in which they are added. -/
def defaultCmds : List FtpCmd :=
  [help, feat, opts, quit, syst, type, port, user, pass, retr, stor, stou, appe, rest, size, mdtm,
    allo, abor, pwd, cwd, cdup, dele, mkd, rmd, noop, rnfr, rnto, list, nlst, mlsd, mlst, pasv, stat,
    auth, pbsz, prot]

def getName : FtpCmd → Bytes
  | help => bytes "HELP"
  | feat => bytes "FEAT"
  | opts => bytes "OPTS"
  | quit => bytes "QUIT"
  | syst => bytes "SYST"
  | type => bytes "TYPE"
  | port => bytes "PORT"
  | user => bytes "USER"
  | pass => bytes "PASS"
  | retr => bytes "RETR"
  | stor => bytes "STOR"
  | stou => bytes "STOU"
  | appe => bytes "APPE"
  | rest => bytes "REST"
  | size => bytes "SIZE"
  | mdtm => bytes "MDTM"
  | allo => bytes "ALLO"
  | abor => bytes "ABOR"
  | pwd => bytes "PWD"
  | cwd => bytes "CWD"
  | cdup => bytes "CDUP"
  | dele => bytes "DELE"
  | mkd => bytes "MKD"
  | rmd => bytes "RMD"
  | noop => bytes "NOOP"
  | rnfr => bytes "RNFR"
  | rnto => bytes "RNTO"
  | list => bytes "LIST"
  | nlst => bytes "NLST"
  | mlsd => bytes "MLSD"
  | mlst => bytes "MLST"
  | pasv => bytes "PASV"
  | stat => bytes "STAT"
  | auth => bytes "AUTH"
  | pbsz => bytes "PBSZ"
  | prot => bytes "PROT"

def getHelp : FtpCmd → Bytes
  | help => bytes "[command]"
  | opts => bytes "[PARAM [PARAM...]]"
  | type => bytes "A[ N]|I"
  | user => bytes "username"
  | pass => bytes "password"
  | port => bytes "h1,h2,h3,h4,p1,p2"
  | retr | stor | appe | size | mdtm => bytes "pathname"
  | rest => bytes "file-offset"
  | allo => bytes "bytes"
  | cwd | dele | mkd | rmd | rnfr | rnto => bytes "path"
  | list | nlst | mlsd | mlst | stat => bytes "[path]"
  | auth => bytes "tls"
  | pbsz => bytes "0"
  | prot => bytes "protection-mode"
  | _ => []

def getFeat : FtpCmd → Bytes
  | rest => bytes "REST STREAM"
  | size => bytes "SIZE"
  | mdtm => bytes "MDTM"
  | auth => bytes "AUTH TLS"
  | pbsz => bytes "PBSZ"
  | prot => bytes "PROT"
  | _ => []

def getSyntax : FtpCmd → ParamSyntax
  | help | cwd | list | nlst | mlsd | mlst | stat => .anything
  | user | pass | retr | stor | appe | size | mdtm | dele | mkd | rmd | rnfr | rnto => .something
  | rest | allo => .digits
  | opts => .opts
  | type => .type
  | port => .port
  | auth => .auth
  | pbsz => .pbsz
  | prot => .prot
  | feat | quit | syst | stou | abor | pwd | cdup | noop | pasv => .none

def mustBeLoggedIn : FtpCmd → Bool
  | quit | abor | feat | syst | type | user | pass | noop | auth | pbsz | prot => false
  | _ => true

def mustNotBeLoggedIn : FtpCmd → Bool
  | user | pass => true
  | _ => false

def mustBeInTransfer : FtpCmd → Bool
  | _ => false

def mustNotBeInTransfer : FtpCmd → Bool
  | opts | port | pasv | retr | stor | stou | appe | rest | size | mdtm | allo | cwd | cdup | dele
  | mkd | rmd | rnfr | rnto | help | list | nlst | mlsd | mlst => true
  | _ => false

def needPostOrPasv : FtpCmd → Bool
  | retr | stor | stou | appe | rest | list | nlst | mlsd => true
  | _ => false

def mustHaveEncryption : FtpCmd → Bool
  | pbsz | prot => true
  | _ => false

/-- The command required as the previous command. -/
def needPrevCmd : FtpCmd → Option FtpCmd
  | pass => some user
  | rnto => some rnfr
  | _ => Option.none

end FtpCmd

end Wfde
