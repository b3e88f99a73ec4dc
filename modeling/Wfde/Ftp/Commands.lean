import Wfde.Ftp.SessionData

/-!
# The FTP commands

`wfde_ftp_commands.cpp`: the `OnCmd` of every command class. A handler returns what it has put into
its `FtpReply`, if it has replied at all, and throws what its code lets through.
-/

namespace Wfde

open Effect FtpSession

abbrev Handler := FtpM (Option FtpReply)

namespace Handler

/-- `reply.Reply(code) << message` -/
def answer (code : FtpReplyCodes) (message : Bytes := []) : Handler :=
  return some { code, message }

/-- `reply.VerboseReply(code) << message` -/
def verbose (code : FtpReplyCodes) (message : Bytes) : Handler :=
  return some { code, message, multiLine := true }

/-- A `try` block whose `catch` clauses answer with 550 and the text the table has for the
exception. -/
def tryAction (catches : List (Exception × Bytes)) (body : Handler) : Handler :=
  tryCatch body fun e =>
    answer .actionNotTaken ((catches.lookup e).getD (bytes "Internal Server Error"))

/-- A `try` block that answers a failure to connect apart. -/
def tryConnect (body : Handler) : Handler :=
  tryCatch body fun e =>
    answer (if e = .failedToConnect then .cantOpenDataConn else .actionFailed)

/-- A `try` block behind which the command replies 450. -/
def tryOrFail (body : Handler) : Handler := tryCatch body fun _ => answer .actionFailed

end Handler

open Handler

def ofDigits (digits : Bytes) : Nat := digits.foldl (fun n c => n * 10 + (c.toNat - 48)) 0

/-- `boost::lexical_cast<std::uint64_t>` of a string of digits. -/
def lexicalCast (digits : Bytes) : Option Nat :=
  if ofDigits digits < 2 ^ 64 then some (ofDigits digits) else none

def FtpCmdQuit.onCmd : Handler := return some { code := .bye, endSession := true }

def FtpCmdAbor.onCmd : Handler := do
  modifyState FtpState.abort
  return none

namespace FtpCmdFeat

/-- The keys of `features_`, a map. -/
def features : List Bytes :=
  let added := (FtpCmd.defaultCmds.map FtpCmd.getFeat).filter (· ≠ [])
  (added ++ [bytes "TVFS", bytes "MLST"]).insertionSort (· ≤ ·)

def onCmd : Handler := do
  let state ← getState
  verbose .statusOk (bytes "Extensions supported:" ++ features.flatMap fun feature =>
    bytes "\r\n "
      ++ if feature = bytes "MLST" then bytes "MLST " ++ state.mdtxState.getFactList else feature)

end FtpCmdFeat

/-- `OnOpts` of a class that does not override it. -/
def FtpCmd.onOpts : Handler := answer .syntaxErrorInParams (bytes "This command has no options")

namespace FtpCmdMlst

def onOpts (param : Bytes) : Handler := do
  let names := param.splitOnP fun c => c == 59 || c == space
  modifyState fun state =>
    { state with mdtxState := names.foldl MdtxState.enable state.mdtxState.disableAll }
  let mdtxState := (← getState).mdtxState
  answer .ok ((MdtxState.facts.filter mdtxState.isEnabled).flatMap fun fact =>
    MdtxState.factName fact ++ bytes ";")

def onCmd (env : Env) (vpath : Bytes) : Handler :=
  tryConnect do
    let path ← getPath vpath .any
    require (← existsOnDisk path) .notFound
    require path.canList .accessDenied
    let data ← getMlstFacts env path
    verbose .fileActionOk (bytes "Listing " ++ vpath ++ crlf ++ data)

end FtpCmdMlst

def FtpCmdOpts.onCmd (param : Bytes) : Handler :=
  let name := (param.takeWhile isAlpha).map toUpper
  let options := (param.dropWhile isAlpha).tail
  if name = FtpCmd.mlst.getName then FtpCmdMlst.onOpts options else FtpCmd.onOpts

def FtpCmdSyst.onCmd : Handler := answer .name (bytes "UNIX Type: L8")

/-- `operator <<` of `FtpState::Type` -/
def TransferType.text : TransferType → Bytes
  | .ascii => bytes "ASCII"
  | .bin => bytes "Binary"

def FtpCmdType.onCmd (param : Bytes) : Handler := do
  let ttype : TransferType := if toUpper (param.headD 0) = 73 then .bin else .ascii
  modifyState fun state => { state with ttype }
  answer .ok (ttype.text ++ bytes " type OK")

/-- What USER and PASS share, with the code of a refusal. -/
def tryLogin (env : Env) (pwd : Bytes) (refused : FtpReplyCodes) : Handler := do
  let state ← getState
  if ← authenticateWithPasswd env state.loginName pwd then
    modifyState fun state => { state with isLoggedIn := true }
    answer .loggedIn
  else answer refused

def FtpCmdUser.onCmd (env : Env) (param : Bytes) : Handler := do
  modifyState fun state => { state with loginName := param }
  tryLogin env [] .needPasswd

def FtpCmdPass.onCmd (env : Env) (param : Bytes) : Handler := tryLogin env param .notLoggedOn

namespace FtpCmdPort

/-- `make_address_v4` of the first four groups, which takes no octet above 255 and no leading
zero. -/
def makeAddressV4 (groups : List Bytes) : Option (List Nat) :=
  let isOctet (group : Bytes) : Bool :=
    ofDigits group ≤ 255 && (group.length == 1 || group.headD 0 != 48)
  if groups.all isOctet then some (groups.map ofDigits) else none

def onCmd (param : Bytes) : Handler := do
  let groups := param.splitOn 44
  -- the two numbers of the port are cast to `unsigned char`
  let p1 := ofDigits (groups.getD 4 []) % 256
  let p2 := ofDigits (groups.getD 5 []) % 256
  match makeAddressV4 (groups.take 4) with
  | none => throw .systemError
  | some address =>
      modifyState fun state => state.setPort ⟨address, p1 * 256 + p2⟩
      answer .ok

end FtpCmdPort

/-- Makes the acceptor listen, unless there is one already. -/
def openAcceptor (env : Env) : FtpM Unit := do
  let state ← getState
  if state.pasv.isNone then listen env else return ()

def FtpCmdPasv.onCmd (env : Env) : Handler := do
  openAcceptor env
  match (← getState).pasv with
  | some ⟨true, address⟩ =>
      let numbers := address.address ++ [address.port / 256 % 256, address.port % 256]
      modifyState FtpState.setPasv
      answer .passive
        (bytes "Entering Passive Mode (" ++ [44].intercalate (numbers.map decimal) ++ bytes ")")
  -- the address of an acceptor that does not listen
  | _ => throw .systemError

/-- What RETR, STOR, STOU and APPE share: the requested path is stored, then a restart offset may be
in the way. -/
def openAndTransfer (path : Bytes) (refuse : FtpState → Bool) (refusal : Bytes)
    (operation : FileOperation) : Handler := do
  modifyState fun state => { state with requestedPath := path }
  if refuse (← getState) then answer .actionNotTaken refusal
  else
    tryConnect do
      let file ← openFile path operation
      startTransfer file
      return none

def FtpState.restNotBinary (state : FtpState) : Bool := state.rest != 0 && state.getType != .bin

def restIsBinaryOnly : Bytes := bytes "REST is only available for binary (IMAGE) type transfers"

def FtpCmdRetr.onCmd (param : Bytes) : Handler :=
  openAndTransfer param FtpState.restNotBinary restIsBinaryOnly .read

def FtpCmdStor.onCmd (param : Bytes) : Handler :=
  openAndTransfer param FtpState.restNotBinary restIsBinaryOnly .write

def FtpCmdStou.onCmd (env : Env) : Handler :=
  openAndTransfer env.uuid (·.rest != 0) (bytes "STOU can not be combined with REST") .writeNew

def FtpCmdAppe.onCmd (param : Bytes) : Handler :=
  openAndTransfer param (·.rest != 0) (bytes "APPE can not be combined with REST") .append

def FtpCmdRest.onCmd (param : Bytes) : Handler := do
  modifyState fun state => { state with rest := 0 }
  match lexicalCast param with
  | none => answer .syntaxErrorInParams
  | some restVal =>
      if restVal ≠ 0 ∧ (← getState).getType ≠ .bin then answer .actionNotTaken restIsBinaryOnly
      else
        modifyState fun state => { state with rest := restVal }
        answer .fileActionPendingInfo
          (bytes "Restarting at " ++ decimal restVal ++ bytes ". Send STOR or RETR.")

def FtpCmdSize.onCmd (param : Bytes) : Handler := do
  modifyState fun state => { state with requestedPath := param }
  if (← getState).getType ≠ .bin then
    answer .actionNotTaken
      (bytes "SIZE is only available while in binary (IMAGE) type transfer mode")
  else
    tryOrFail do
      let size ← getFileLen param
      answer .fileStatus (decimal size)

/-- The path is resolved outside the `try` block. -/
def FtpCmdMdtm.onCmd (env : Env) (param : Bytes) : Handler := do
  modifyState fun state => { state with requestedPath := param }
  let path ← getPath param .file
  tryOrFail do
    if ← existsOnDisk path then
      let time ← getRfc3659FileTime env path
      answer .fileStatus time
    else answer .actionFailed

def FtpCmdAllo.onCmd (param : Bytes) : Handler :=
  match lexicalCast param with
  | none => answer .syntaxErrorInParams
  | some allo => do
      modifyState fun state => { state with allo }
      answer .ok

def FtpCmdPwd.onCmd : Handler := do
  let cwd ← getCwd
  answer .pathnameCreated cwd

/-- The clauses that hide why a path was refused. -/
def deniedClauses : List (Exception × Bytes) :=
  [(.accessDenied, bytes "Access denied"), (.badPath, bytes "Access denied")]

def changeDirectory (path : Bytes) : Handler :=
  tryAction deniedClauses do
    setCwd path
    let cwd ← getCwd
    answer .fileActionOk (bytes "Directory changed to " ++ cwd)

def FtpCmdCwd.onCmd (param : Bytes) : Handler :=
  changeDirectory (if param.isEmpty then [slash] else param)

def FtpCmdCdup.onCmd : Handler := changeDirectory [dot, dot]

/-- What DELE, MKD, RMD and RNTO share. -/
def fileAction (clauses : List (Exception × Bytes)) (body : FtpM Unit) : Handler :=
  tryAction (deniedClauses ++ clauses) do
    body
    answer .fileActionOk

def FtpCmdDele.onCmd (param : Bytes) : Handler :=
  fileAction [(.notFound, bytes "No such file")] (deleteFile param)

def FtpCmdMkd.onCmd (param : Bytes) : Handler :=
  fileAction [(.notFound, bytes "No such file")] (createDirectory param)

def FtpCmdRmd.onCmd (param : Bytes) : Handler :=
  fileAction [(.alreadyExist, bytes "Cannot create an exitsing directory.")] (deleteDirectory param)

def FtpCmdNoop.onCmd : Handler := answer .ok

namespace FtpCmdRnfr

def checkSource (param : Bytes) : Handler := do
  let fromPath ← getPath param .any
  if !fromPath.canRename then answer .actionNotTaken (bytes "Access denied")
  else
    let found ← existsOnDisk fromPath
    if !found then answer .actionNotTaken (bytes "No such file or directory")
    else
      modifyState fun state => { state with rnfr := fromPath.vpath }
      answer .fileActionPendingInfo

def onCmd (param : Bytes) : Handler :=
  tryAction [(.badPath, bytes "Access denied")] (checkSource param)

end FtpCmdRnfr

def FtpCmdRnto.onCmd (param : Bytes) : Handler :=
  fileAction [(.alreadyExist, bytes "Cannot create an exitsing directory.")] do
    let state ← getState
    rename state.rnfr param

namespace FtpCmdHelp

/-- The keys of `cmds_`, a map: the class adds itself, and FEAT and OPTS are never added. -/
def cmds : List FtpCmd := FtpCmd.defaultCmds.filter fun cmd => cmd ≠ .feat ∧ cmd ≠ .opts

/-- The names in order, eight in a line, each six columns wide. -/
def overview : Bytes :=
  ((cmds.map FtpCmd.getName).insertionSort (· ≤ ·)).zipIdx.flatMap fun (name, col) =>
    (if col % 8 = 0 then crlf else []) ++ name ++ List.replicate (6 - name.length) space

def onCmd (param : Bytes) : Handler :=
  if param.isEmpty then verbose .help (bytes "Available commands:" ++ overview)
  else
    let command := param.map toUpper
    match cmds.find? fun cmd => cmd.getName = command with
    | none => answer .syntaxErrorInParams (bytes "Command '" ++ command ++ bytes "' not found.")
    | some cmd => answer .help (cmd.getName ++ [space] ++ cmd.getHelp)

end FtpCmdHelp

/-- What `ParseListArgs` makes of the arguments of a listing command. -/
structure ListArgs where
  vpath : Bytes := []
  format : ListFormat := .long
  listHiddenFiles : Bool := false
  deriving DecidableEq

/-- `skipping` while the spaces behind an option are skipped. -/
def parseListLoop (args : ListArgs) (skipping : Bool) : Bytes → ListArgs
  | [] => args
  | c :: rest =>
      if skipping && c == space then parseListLoop args true rest
      else if c = 45 then
        match rest with
        -- a single dash at the end
        | [] => args
        | option :: more =>
            if option = 49 then parseListLoop { args with format := .short } true more
            else if option = 108 then parseListLoop { args with format := .long } true more
            else if option = 97 then parseListLoop { args with listHiddenFiles := true } true more
            else { args with vpath := c :: rest }
      else { args with vpath := c :: rest }

namespace ParseListArgs

/-- The loop that skips spaces, from the position `p`. None if it reads behind the end. -/
def skipSpaces (param : Bytes) : Nat → Nat → Option Nat
  | 0, _ => none
  | fuel + 1, p =>
      if p = param.length then some p
      else
        match param[p]? with
        | none => none
        | some c => if c = space then skipSpaces param fuel (p + 1) else some p

/-- The loop of `ParseListArgs` with its iterator as a position: the path, the state and the format it
leaves. None if it reads behind the end, or is not through when the fuel is used up. -/
def scan (param : Bytes) : Nat → Nat → FtpState → ListFormat → Option (Bytes × FtpState × ListFormat)
  | 0, _, _, _ => none
  | fuel + 1, p, state, format =>
      if p = param.length then some ([], state, format)
      else
        -- `get_path`
        let getPath := some (param.drop p, state, format)
        match param[p]? with
        | none => none
        | some c =>
            if c = 45 then
              let pp := p + 1
              if pp = param.length then scan param fuel (p + 1) state format
              else
                let approved (state : FtpState) (format : ListFormat) :=
                  (skipSpaces param (param.length + 1) (p + 2)).bind fun p =>
                    let p := p - 1
                    scan param fuel (p + 1) state format
                match param[pp]? with
                | none => none
                | some option =>
                    if option = 49 then approved state .short
                    else if option = 108 then approved state .long
                    else if option = 97 then approved { state with listHiddenFiles := true } format
                    else getPath
            else getPath

end ParseListArgs

def parseListArgs (param : Bytes) : FtpM ListArgs := do
  let args := parseListLoop {} false param
  modifyState fun state =>
    { state with listHiddenFiles := state.listHiddenFiles || args.listHiddenFiles }
  return args

/-- What LIST, NLST and MLSD share. -/
def listAndTransfer (env : Env) (format : ListFormat) (vpath : Bytes)
    (prepare : FtpState → FtpState) : Handler :=
  tryConnect do
    let path ← getPathForListing vpath
    let buffers ← listDirectory env format path
    modifyState prepare
    startTransfer (.listing buffers false)
    return none

def FtpCmdList.onCmd (env : Env) (param : Bytes) : Handler := do
  let args ← parseListArgs param
  listAndTransfer env args.format args.vpath id

def FtpCmdNlst.onCmd (env : Env) (param : Bytes) : Handler := listAndTransfer env .short param id

def FtpCmdMlsd.onCmd (env : Env) (param : Bytes) : Handler :=
  listAndTransfer env .mlsd param fun state => { state with overrideAsBinary := true }

namespace FtpCmdStat

/-- Every line of the listing gets a leading space, and the last CRLF and space go. -/
def indented (listing : Bytes) : Bytes :=
  let text := space :: listing.flatMap fun c => if c = lf then [c, space] else [c]
  if 3 ≤ text.length then text.take (text.length - 3) else []

def list (env : Env) (param : Bytes) : Handler := do
  let args ← parseListArgs param
  tryOrFail do
    let path ← getPathForListing args.vpath
    let buffers ← listDirectory env args.format path
    verbose .directoryStatus (param ++ crlf ++ indented buffers.flatten)

def flag (b : Bool) : Bytes := if b then bytes "1" else bytes "0"

def stat (state : FtpState) : Handler :=
  answer .statusOk
    ((if state.isInTransfer then
        bytes "In transfer of file \"" ++ state.requestedPath ++ bytes "\", "
      else bytes "Not in transfer, ")
    ++ (if state.havePasvOrPost then bytes "Awaiting transfer command, " else [])
    ++ (if state.abortPending then bytes "Abort pending, " else [])
    ++ bytes "Structure=File, Type=" ++ state.getType.text
    ++ bytes ", Rest offset=" ++ decimal state.rest
    ++ bytes ", CC-TLS=" ++ flag state.ccIsEncrypted
    ++ bytes ", PROT=" ++ (if state.encryptTransfers then bytes "P" else bytes "C"))

def onCmd (env : Env) (param : Bytes) : Handler := do
  if param.isEmpty then
    let state ← getState
    stat state
  else list env param

end FtpCmdStat

def FtpCmdAuth.onCmd : Handler := do
  if (← getState).ccIsEncrypted then
    answer .rejectedForPolicyReasons (bytes "The control connection is already encrypted")
  else
    modifyState fun state =>
      { state with tasksPendingAfterReply := state.tasksPendingAfterReply ++ [.startTls] }
    answer .securityDataExchangeComplete

def FtpCmdPbsz.onCmd : Handler := answer .ok

def FtpCmdProt.onCmd (param : Bytes) : Handler := do
  modifyState fun state => { state with encryptTransfers := iequals param (bytes "p") }
  answer .ok

def FtpCmd.onCmd (env : Env) (param : Bytes) : FtpCmd → Handler
  | help => FtpCmdHelp.onCmd param
  | feat => FtpCmdFeat.onCmd
  | opts => FtpCmdOpts.onCmd param
  | quit => FtpCmdQuit.onCmd
  | syst => FtpCmdSyst.onCmd
  | type => FtpCmdType.onCmd param
  | port => FtpCmdPort.onCmd param
  | user => FtpCmdUser.onCmd env param
  | pass => FtpCmdPass.onCmd env param
  | retr => FtpCmdRetr.onCmd param
  | stor => FtpCmdStor.onCmd param
  | stou => FtpCmdStou.onCmd env
  | appe => FtpCmdAppe.onCmd param
  | rest => FtpCmdRest.onCmd param
  | size => FtpCmdSize.onCmd param
  | mdtm => FtpCmdMdtm.onCmd env param
  | allo => FtpCmdAllo.onCmd param
  | abor => FtpCmdAbor.onCmd
  | pwd => FtpCmdPwd.onCmd
  | cwd => FtpCmdCwd.onCmd param
  | cdup => FtpCmdCdup.onCmd
  | dele => FtpCmdDele.onCmd param
  | mkd => FtpCmdMkd.onCmd param
  | rmd => FtpCmdRmd.onCmd param
  | noop => FtpCmdNoop.onCmd
  | rnfr => FtpCmdRnfr.onCmd param
  | rnto => FtpCmdRnto.onCmd param
  | list => FtpCmdList.onCmd env param
  | nlst => FtpCmdNlst.onCmd env param
  | mlsd => FtpCmdMlsd.onCmd env param
  | mlst => FtpCmdMlst.onCmd env param
  | pasv => FtpCmdPasv.onCmd env
  | stat => FtpCmdStat.onCmd env param
  | auth => FtpCmdAuth.onCmd
  | pbsz => FtpCmdPbsz.onCmd
  | prot => FtpCmdProt.onCmd param

end Wfde
