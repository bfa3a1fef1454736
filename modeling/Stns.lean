import Stns.Foundation.CString
import Stns.Foundation.Memory
import Stns.Foundation.Rows
import Stns.Foundation.MachineInt
import Stns.Foundation.Cursor
import Stns.Document.Json
import Stns.Document.JsonString
import Stns.Document.JsonStringText
import Stns.Foundation.FloatText
import Stns.Document.JsonParse
import Stns.Document.JsonGrammar
import Stns.Document.JsonEncoding
import Stns.Document.JsonTable
import Stns.Document.Toml
import Stns.Document.TomlLexer
import Stns.Foundation.Outcome
import Stns.Document.TomlParse
import Stns.Document.TomlLegal
import Stns.Document.TomlRender
import Stns.Document.TomlTokens
import Stns.Document.TomlRoundTrip
import Stns.Document.LoadConfig
import Stns.Document.LoadDefined
import Stns.Document.UnloadConfig
import Stns.Foundation.DecimalText
import Stns.Document.ConfigFile
import Stns.Nss.Record
import Stns.Nss.Passwd
import Stns.Nss.Group
import Stns.Nss.Shadow
import Stns.Nss.Database
import Stns.Nss.Members
import Stns.Nss.Layout
import Stns.Nss.Lookup
import Stns.Nss.SameRecord
import Stns.Nss.LookupMalformed
import Stns.Nss.Enumeration
import Stns.Nss.EnumerationComplete
import Stns.Nss.EnumerationMalformed
import Stns.Nss.Identifiers
import Stns.Nss.Agreement
import Stns.Nss.Locking
import Stns.Foundation.Atomicity
import Stns.Nss.Session
import Stns.Nss.Rewind
import Stns.Nss.Sharing
import Stns.Nss.SingleValue
import Stns.Nss.Staleness
import Stns.Nss.IdRange
import Stns.Nss.HeaderLine
import Stns.Nss.ExactFilter
import Stns.Request.Response
import Stns.Request.Http
import Stns.Request.Accumulation
import Stns.Foundation.FileSystem
import Stns.Foundation.Percent
import Stns.Foundation.Decimal
import Stns.Foundation.Tokens
import Stns.Foundation.Lifetime
import Stns.Foundation.Stdio
import Stns.Request.Command
import Stns.Request.CommandOutput
import Stns.Request.Request
import Stns.Request.UnsafeDirectory
import Stns.Request.CacheRace
import Stns.Request.CacheFrame
import Stns.Request.Received
import Stns.Request.CacheRun
import Stns.Request.CacheSoundness
import Stns.Request.Backoff
import Stns.Request.ValidString
import Stns.Request.SizeLimit
import Stns.Request.CacheRoundTrip
import Stns.KeyWrapper
import Stns.KeyWrapper.Collection
import Stns.KeyWrapper.UserNames
import Stns.Nss.WrapperQueries
