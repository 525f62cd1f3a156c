import LayeredConfig.Bootstrap
import LayeredConfig.Builtin
import LayeredConfig.Command.Arguments
import LayeredConfig.Command.Flat
import LayeredConfig.Command.Options
import LayeredConfig.Command.Program
import LayeredConfig.Decimal.Layout
import LayeredConfig.Decimal.Shortest
import LayeredConfig.Decimal.Whole
import LayeredConfig.Digest.Sha256
import LayeredConfig.Environment.Basic
import LayeredConfig.Environment.Nesting
import LayeredConfig.Error
import LayeredConfig.Files.Disk
import LayeredConfig.Files.Document
import LayeredConfig.Files.Layers
import LayeredConfig.Files.Path
import LayeredConfig.Json.Numeral
import LayeredConfig.Json.Reader
import LayeredConfig.Json.Writer
import LayeredConfig.Live.Extractor
import LayeredConfig.Live.Fetch
import LayeredConfig.Live.Publish
import LayeredConfig.Live.Rehearsal.Action
import LayeredConfig.Live.Rehearsal.Parts
import LayeredConfig.Live.Run
import LayeredConfig.Live.Script
import LayeredConfig.Live.Session
import LayeredConfig.Live.Source
import LayeredConfig.Live.Stage
import LayeredConfig.Live.Timeline
import LayeredConfig.Live.World
import LayeredConfig.Main
import LayeredConfig.Mapper
import LayeredConfig.Query
import LayeredConfig.Registry
import LayeredConfig.Settings
import LayeredConfig.Shape
import LayeredConfig.Substitution.Placeholder
import LayeredConfig.Substitution.Secret
import LayeredConfig.Text.Blank
import LayeredConfig.Text.Pieces
import LayeredConfig.Text.Quoted
import LayeredConfig.Text.Unprintable
import LayeredConfig.Tree.Basic
import LayeredConfig.Tree.Merge
import LayeredConfig.Tree.Path
import LayeredConfig.Tree.Strings
import LayeredConfig.Tree.Typed
import LayeredConfig.TtlCache
import LayeredConfig.Value.Basic
import LayeredConfig.Value.Fields
import LayeredConfig.Value.Order
import LayeredConfig.Width
import LayeredConfig.Yaml.Block
import LayeredConfig.Yaml.Buffer
import LayeredConfig.Yaml.Cursor
import LayeredConfig.Yaml.Failure
import LayeredConfig.Yaml.Folding
import LayeredConfig.Yaml.Node
import LayeredConfig.Yaml.Plain
import LayeredConfig.Yaml.Quoted
import LayeredConfig.Yaml.Reader
import LayeredConfig.Yaml.Token
import LayeredConfig.Proofs.Equality
import LayeredConfig.Proofs.LastWriter
import LayeredConfig.Proofs.Live.Agenda
import LayeredConfig.Proofs.Live.Simulation
import LayeredConfig.Proofs.Live.Touch
import LayeredConfig.Proofs.Live.Ledger
import LayeredConfig.Proofs.Live.Delivery
import LayeredConfig.Proofs.Live.Settles
import LayeredConfig.Proofs.Live.Tame
import LayeredConfig.Proofs.Live.InStep
import LayeredConfig.Proofs.Live.Moves
import LayeredConfig.Proofs.Live.Derived
import LayeredConfig.Proofs.Live.Apart
import LayeredConfig.Proofs.Live.Turns
import LayeredConfig.Proofs.Live.Coalescing
import LayeredConfig.Proofs.Live.Failures
import LayeredConfig.Proofs.Live.Change
import LayeredConfig.Proofs.Live.Line
import LayeredConfig.Proofs.Live.Queue
import LayeredConfig.Proofs.Live.Overtaken
import LayeredConfig.Proofs.Live.Effects
import LayeredConfig.Proofs.Live.Marks
import LayeredConfig.Proofs.Live.Offered
import LayeredConfig.Proofs.Live.Terminal
import LayeredConfig.Proofs.Live.Undisturbed
import LayeredConfig.Proofs.Live.RealChanges
import LayeredConfig.Proofs.Live.Fetching
import LayeredConfig.Proofs.Live.PassedOver
import LayeredConfig.Proofs.Live.Rounds
import LayeredConfig.Proofs.Live.Panics
import LayeredConfig.Proofs.Live.Repairs
import LayeredConfig.Proofs.Regrouping
import LayeredConfig.Proofs.Strings
import LayeredConfig.Proofs.Recall
import LayeredConfig.Proofs.Secrets
import LayeredConfig.Proofs.Layers
import LayeredConfig.Proofs.Texts
import LayeredConfig.Proofs.Placeholders
import LayeredConfig.Proofs.Leftovers
import LayeredConfig.Proofs.SecretReferences
import LayeredConfig.Proofs.EnvironmentTree
import LayeredConfig.Proofs.Live.Ensuing
import LayeredConfig.Proofs.Live.Replaced
import LayeredConfig.Proofs.Live.OwnTurns
import LayeredConfig.Proofs.Live.GivingUp
import LayeredConfig.Proofs.Live.Course
import LayeredConfig.Proofs.Live.Silence
import LayeredConfig.Proofs.Live.Frozen
import LayeredConfig.Proofs.Live.Laws
import LayeredConfig.Proofs.Live.Plain
import LayeredConfig.Proofs.Live.Stages
import LayeredConfig.Proofs.Live.Mild
import LayeredConfig.Proofs.Live.Periodic
import LayeredConfig.Proofs.CacheHistory
import LayeredConfig.Proofs.Routes
import LayeredConfig.Proofs.Paths
import LayeredConfig.Proofs.FlatOutput
import LayeredConfig.Proofs.StringVisits
import LayeredConfig.Proofs.Resolution
import LayeredConfig.Proofs.RelaxedKeys
import LayeredConfig.Proofs.TypedReading
import LayeredConfig.Proofs.Batches
import LayeredConfig.Proofs.Fingerprints
import LayeredConfig.Proofs.Confinement
import LayeredConfig.Proofs.Documents
