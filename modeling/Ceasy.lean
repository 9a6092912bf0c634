import Ceasy.RouterPathExact
import Ceasy.RequestStability
import Ceasy.RequestFraming
import Ceasy.TemplateGrammar
import Ceasy.StringMapRefinement
import Ceasy.ViewTree
import Ceasy.ViewMarkup
import Ceasy.ViewLayout
import Ceasy.ViewCompiler
import Ceasy.ViewPath
import Ceasy.ViewNesting
import Ceasy.ViewLiteral
import Ceasy.SessionUpdates
import Ceasy.SessionMap
import Ceasy.ArenaRuns
import Ceasy.DatabaseRuns
import Ceasy.MigrationHistory
import Ceasy.RequestText
import Ceasy.SessionDecoder
import Ceasy.SessionRejection
import Ceasy.SessionAtomicity
import Ceasy.Csrf
import Ceasy.SessionFailure
import Ceasy.Model
import Ceasy.Naming
import Ceasy.Sql
import Ceasy.Generator
import Ceasy.GeneratedModel
import Ceasy.Router
import Ceasy.ResponseHeaders
import Ceasy.CookieRoundTrip
import Ceasy.FormData
import Ceasy.RenderMachine
import Ceasy.Ownership
import Ceasy.StringMapOwnership
import Ceasy.ArenaMarks
import Ceasy.ArenaLifetimes
import Ceasy.ByteHeap
import Ceasy.OwnedString
import Ceasy.OwnedStringStorage
import Ceasy.OwnedStringReserve
import Ceasy.OwnedStringUpdate
import Ceasy.Replacement
import Ceasy.OwnedStringReplace
import Ceasy.OwnedStringRuns
import Ceasy.PathEncoding
import Ceasy.AssetPath
import Ceasy.Config
import Ceasy.SessionConfig
import Ceasy.StringCopy
import Ceasy.GrowingArray
import Ceasy.Validation
import Ceasy.ModelLoad
import Ceasy.ModelStore
import Ceasy.ViewNames
import Ceasy.NamingLegal
import Ceasy.FileTree
import Ceasy.GeneratorFiles
import Ceasy.DirectoryScan
import Ceasy.CompilerRuns
import Ceasy.Response
import Ceasy.ResponseText
import Ceasy.Asset
import Ceasy.HandleClient
import Ceasy.Preparation
import Ceasy.BoundedDigits
import Ceasy.IntegerParse
import Ceasy.ClientReplies
import Ceasy.ViewFiles
import Ceasy.ViewLookup
import Ceasy.ViewPresence
import Ceasy.SessionOwners
import Ceasy.SessionSignIn
import Ceasy.SessionCleanup
import Ceasy.ImmediateStore
import Ceasy.DatabaseRefinement
import Ceasy.AssetServing
import Ceasy.Shelf
import Ceasy.SqlTables
import Ceasy.GeneratedMigration
import Ceasy.ModelTables
import Ceasy.TableStore
import Ceasy.ModelRecords
import Ceasy.ModelRuns
import Ceasy.ServerProcesses
import Ceasy.ArenaHeap
import Ceasy.CData
import Ceasy.GeneratedBundle
import Ceasy.GeneratedViews
import Ceasy.GeneratedAssets
import Ceasy.ProjectRoot
