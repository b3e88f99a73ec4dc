import Wfde.AsciiFile
import Wfde.AuthManager
import Wfde.Configuration
import Wfde.Entity
import Wfde.File
import Wfde.FileListing
import Wfde.FileSystem
import Wfde.Ftp.Commands
import Wfde.Ftp.Connection
import Wfde.Ftp.Control
import Wfde.Ftp.ControlWire
import Wfde.Ftp.ListFormats
import Wfde.Ftp.Protocol
import Wfde.Ftp.Server
import Wfde.Ftp.SessionData
import Wfde.Lib.Batches
import Wfde.Lib.Cursor
import Wfde.Lib.Fallible
import Wfde.Lib.Gather
import Wfde.Lib.KeyTree
import Wfde.Lib.Lines
import Wfde.Lib.Masks
import Wfde.Lib.PrefixSearch
import Wfde.Lib.Relational
import Wfde.Lib.Segments
import Wfde.Lib.Separation
import Wfde.Lib.SharedStream
import Wfde.PermissionNames
import Wfde.Permissions
import Wfde.PrepareServers
import Wfde.Proof.AsciiText
import Wfde.Proof.AsciiUploads
import Wfde.Proof.AtRest
import Wfde.Proof.Authorisation
import Wfde.Proof.BufferBounds
import Wfde.Proof.CloseAgain
import Wfde.Proof.CommandStream
import Wfde.Proof.ConfiguredRuns
import Wfde.Proof.ConfiguredServers
import Wfde.Proof.Confinement
import Wfde.Proof.DataProtection
import Wfde.Proof.Decimal
import Wfde.Proof.DirectoryListing
import Wfde.Proof.Download
import Wfde.Proof.EffectivePermissions
import Wfde.Proof.FactSelection
import Wfde.Proof.FileFootprint
import Wfde.Proof.Footprint
import Wfde.Proof.Framing
import Wfde.Proof.HandlerErrors
import Wfde.Proof.HandlerFrame
import Wfde.Proof.HiddenFiles
import Wfde.Proof.IdleTime
import Wfde.Proof.IncomingTransfers
import Wfde.Proof.LineWidths
import Wfde.Proof.ListArguments
import Wfde.Proof.Login
import Wfde.Proof.LoginReplies
import Wfde.Proof.Lookup
import Wfde.Proof.LsGrammar
import Wfde.Proof.LsLines
import Wfde.Proof.MappedFile
import Wfde.Proof.Merge
import Wfde.Proof.MlsdGrammar
import Wfde.Proof.MlsdLines
import Wfde.Proof.MlstLines
import Wfde.Proof.Normalize
import Wfde.Proof.NormalizeTwice
import Wfde.Proof.OutgoingTransfers
import Wfde.Proof.PermissionNames
import Wfde.Proof.PermissionSets
import Wfde.Proof.PlainPaths
import Wfde.Proof.PortNumbers
import Wfde.Proof.Progress
import Wfde.Proof.Reading
import Wfde.Proof.Rename
import Wfde.Proof.Replies
import Wfde.Proof.ReplyFraming
import Wfde.Proof.ReplyLines
import Wfde.Proof.ReplyWire
import Wfde.Proof.Restart
import Wfde.Proof.SameParent
import Wfde.Proof.ServedTransfers
import Wfde.Proof.ServerRuns
import Wfde.Proof.SessionFootprint
import Wfde.Proof.SessionPermissions
import Wfde.Proof.SessionRegistry
import Wfde.Proof.SharedTransfers
import Wfde.Proof.SplitJoin
import Wfde.Proof.StartedTransfers
import Wfde.Proof.StepFrame
import Wfde.Proof.SubConfiguration
import Wfde.Proof.TlsUpgrade
import Wfde.Proof.TransferFootprint
import Wfde.Proof.TransferFrame
import Wfde.Proof.TransferPhases
import Wfde.Proof.TransferSetup
import Wfde.Proof.Turns
import Wfde.Proof.Upload
import Wfde.Proof.Users
import Wfde.Proof.VirtualPaths
import Wfde.Proof.WireListings
import Wfde.Proof.WorkingDirectory
import Wfde.Proof.WriteBuffers
import Wfde.Proof.WrittenPaths
import Wfde.Session
import Wfde.SessionInput
import Wfde.SessionManager
import Wfde.SessionTimes
