import Cyanide.Core.AsyncLogger
import Cyanide.Core.Config
import Cyanide.Core.ConfigOptions
import Cyanide.Core.EventLog
import Cyanide.Core.FilesystemCache
import Cyanide.Core.InputLines
import Cyanide.Core.RecentFilesystems
import Cyanide.Core.Stats
import Cyanide.Core.TtyRecording
import Cyanide.Lib.IpAddress
import Cyanide.Lib.Records
import Cyanide.Lib.StixPattern
import Cyanide.Lib.Urls
import Cyanide.Ml.ContextAnalyzer
import Cyanide.Ml.Pipeline
import Cyanide.Ml.RuleEngine
import Cyanide.Network.Forwarding
import Cyanide.Network.Proxies
import Cyanide.Network.Pumps
import Cyanide.Network.SendLoops
import Cyanide.Output.Discord
import Cyanide.Output.Telegram
import Cyanide.Output.Worker
import Cyanide.Services.Canonical
import Cyanide.Services.Connections
import Cyanide.Services.IocReporter
import Cyanide.Services.Kinds
import Cyanide.Services.Permissions
import Cyanide.Services.Quarantine
import Cyanide.Services.QuarantineQuota
import Cyanide.Services.QuarantineSamples
import Cyanide.Services.RateLimit
import Cyanide.Services.ReportedSize
import Cyanide.Services.Reports
import Cyanide.Services.Smtp
import Cyanide.Services.Telnet
import Cyanide.Services.Transports
import Cyanide.Shell.Arguments
import Cyanide.Shell.ChainPieces
import Cyanide.Shell.Deferrals
import Cyanide.Shell.Delegates
import Cyanide.Shell.Directories
import Cyanide.Shell.Expansion
import Cyanide.Shell.Fetching
import Cyanide.Shell.HeadTail
import Cyanide.Shell.Nesting
import Cyanide.Shell.OutputSize
import Cyanide.Shell.Pairing
import Cyanide.Shell.PermStrings
import Cyanide.Shell.Prompts
import Cyanide.Shell.Quoting
import Cyanide.Shell.Raises
import Cyanide.Shell.Redirections
import Cyanide.Shell.SavedText
import Cyanide.Shell.Walks
import Cyanide.Vfs.FrameLaws
import Cyanide.Vfs.Fresh
import Cyanide.Vfs.Move
import Cyanide.Vfs.ProfileLoader
import Cyanide.Vfs.ProfileNodes
import Cyanide.Vfs.RsyncFileList
import Cyanide.Vfs.ScpChannel
import Cyanide.Vfs.ScpConfinement
import Cyanide.Vfs.ScpRoundTrip
import Cyanide.Vfs.SftpAttrs
import Cyanide.Vfs.SftpDownloads
import Cyanide.Vfs.SftpHandles
import Cyanide.Vfs.SftpLimits
import Cyanide.Vfs.SharedFile
import Cyanide.Vfs.StoreRefinement
