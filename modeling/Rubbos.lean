import Rubbos.Core.Run
import Rubbos.Core.Binary32
import Rubbos.Core.Binary64
import Rubbos.Core.Search
import Rubbos.Core.Text
import Rubbos.Core.Tokens
import Rubbos.Core.JString
import Rubbos.Core.Decimal
import Rubbos.Core.JSplit
import Rubbos.Core.CLib
import Rubbos.Core.LineLoop
import Rubbos.Core.Effect
import Rubbos.Client.TransitionTable
import Rubbos.Client.URLGenerator
import Rubbos.Client.CallHTTPServer
import Rubbos.Client.UserSession
import Rubbos.Client.RequestedPage
import Rubbos.Parsers.Fields
import Rubbos.Parsers.Clientparser
import Rubbos.Parsers.Apacheparser
import Rubbos.Parsers.CJDBCparser
import Rubbos.Parsers.Tomcatparser
import Rubbos.Parsers.TomcatParserJava
import Rubbos.Parsers.TomcatLogs
import Rubbos.Parsers.TomcatparserRows
import Rubbos.Parsers.TomcatAgreement
import Rubbos.Parsers.ClientTrace
import Rubbos.Parsers.Isolation
import Rubbos.Servlets.Pages
import Rubbos.Servlets.LoggedCalls
import Rubbos.Client.Phases
import Rubbos.Core.Monitor
import Rubbos.Servlets.ConnectionPool
import Rubbos.Core.Python
import Rubbos.Transform.FilenameUtils
import Rubbos.Transform.FileMap
import Rubbos.Parsers.WaitTime
import Rubbos.Transform.MultifileParser
import Rubbos.Transform.ProcessFiles
import Rubbos.Core.Rounding
import Rubbos.QueueLength.BO
import Rubbos.QueueLength.InvalidRows
import Rubbos.QueueLength.Totals
import Rubbos.QueueLength.Files
import Rubbos.Core.Occurrences
import Rubbos.Servlets.Html
import Rubbos.Servlets.CommentPages
import Rubbos.Client.Links
import Rubbos.Core.Interleaving
import Rubbos.Core.Table
import Rubbos.Servlets.PoolRouting
import Rubbos.Servlets.Tables
import Rubbos.Servlets.StoreModeratorLog
import Rubbos.Servlets.ModerationAccounts
import Rubbos.Servlets.Submissions
import Rubbos.Servlets.StoreComment
import Rubbos.Core.Forest
import Rubbos.Servlets.CommentFetch
import Rubbos.Servlets.CommentTree
import Rubbos.Servlets.CommentCycles
import Rubbos.Servlets.ReqListener
import Rubbos.Servlets.OlderStories
import Rubbos.Core.Urlencoded
import Rubbos.Servlets.PagingLinks
import Rubbos.QueueLength.Flow
import Rubbos.Parsers.AccessLog
import Rubbos.Servlets.StoryLinks
import Rubbos.Parsers.SeperateTomcatQueueParser
import Rubbos.Client.CategoryLinks
import Rubbos.Client.Replies
import Rubbos.Core.SqlLexer
import Rubbos.Servlets.SqlStatements
import Rubbos.Client.EndOfValue
import Rubbos.Core.Cuts
import Rubbos.QueueLength.AddMulti2
import Rubbos.Core.Scanf
import Rubbos.Parsers.WaitTimeBuckets
import Rubbos.Parsers.WaitTimeLoops
import Rubbos.Parsers.PointInTimeParser
import Rubbos.Parsers.SuffixKeys
import Rubbos.Transform.CollectlLinebreaks
import Rubbos.Client.SearchWords
import Rubbos.Client.TimeManagement
import Rubbos.Client.DisplayStats
import Rubbos.Core.Methods
import Rubbos.Servlets.RequestPaths
import Rubbos.Servlets.PathRules
import Rubbos.Servlets.ExactPaths
import Rubbos.Servlets.PairedSteps
import Rubbos.Servlets.LoggedPaths
import Rubbos.Servlets.CommentPaths
import Rubbos.Servlets.HandedBack
import Rubbos.Servlets.Instrumentation
import Rubbos.Client.ImageTags
import Rubbos.Parsers.TimeInterval
import Rubbos.Servlets.FilterChooser
import Rubbos.Client.ExactSteps
import Rubbos.Client.ReadExcelTextFile
import Rubbos.Core.LocalTime
import Rubbos.Transform.AdjustEpoch
import Rubbos.Client.OlderStories
import Rubbos.Httpd.LogFormat
import Rubbos.Httpd.LogWriter
import Rubbos.Httpd.LogRecord
import Rubbos.Core.RelyGuarantee
import Rubbos.Servlets.RegisterUser
import Rubbos.Servlets.Site
import Rubbos.Core.Glob
import Rubbos.Connector.ServletNormalize
import Rubbos.Connector.Translate
import Rubbos.Connector.MsgBuff
