import Provision.Main
import Provision.Proofs.Attempt
import Provision.Proofs.Value
import Provision.Proofs.Host.File
import Provision.Proofs.Host.Path
import Provision.Proofs.Host.Disk
import Provision.Proofs.Host.Component
import Provision.Proofs.Host.Walk
import Provision.Proofs.Host.Descent
import Provision.Proofs.Host.LastName
import Provision.Proofs.Host.Expansion
import Provision.Proofs.Number.Rounding
import Provision.Proofs.Number.Text
import Provision.Proofs.Json.Source
import Provision.Proofs.Json.Reading
import Provision.Proofs.Json.Node
import Provision.Proofs.Json.Transfer
import Provision.Proofs.Json.Sorted
import Provision.Proofs.Json.NumberText
import Provision.Proofs.Json.Pretty
import Provision.Proofs.Yaml.Plain
import Provision.Proofs.Yaml.Written
import Provision.Proofs.Yaml.Reading
import Provision.Proofs.Yaml.Value
import Provision.Proofs.Yaml.Agreement
import Provision.Proofs.Yaml.Tree
import Provision.Proofs.Yaml.Lines
import Provision.Proofs.Yaml.Inline
import Provision.Proofs.Yaml.Indents
import Provision.Proofs.Yaml.Fetch
import Provision.Proofs.Yaml.LineTokens
import Provision.Proofs.Yaml.Block
import Provision.Proofs.Yaml.Targets
import Provision.Proofs.Yaml.Twin
import Provision.Proofs.Settings.Find
import Provision.Proofs.Settings.Search
import Provision.Proofs.Settings.Defaults
import Provision.Proofs.Settings.Filling
import Provision.Proofs.Settings.Codec
import Provision.Proofs.Settings.Schema
import Provision.Proofs.Settings.LoneKey
import Provision.Proofs.Settings.RoundTrip
import Provision.Proofs.Settings.Document
import Provision.Proofs.Settings.Template
import Provision.Proofs.Settings.Layout
import Provision.Proofs.Settings.Effect
import Provision.Proofs.Settings.Law
import Provision.Proofs.Settings.Canonical
import Provision.Proofs.Settings.Insertion
import Provision.Proofs.Settings.NullNode
import Provision.Proofs.Settings.NullSource
import Provision.Proofs.Settings.Nullable
import Provision.Proofs.Settings.Transfer
import Provision.Proofs.Settings.Respelling
import Provision.Proofs.Settings.ScalarPlace
import Provision.Proofs.Settings.BareIntegers
import Provision.Proofs.Settings.Truth
import Provision.Proofs.Settings.Origin
import Provision.Proofs.Plan.Keys
import Provision.Proofs.Plan.GuestKeys
import Provision.Proofs.Plan.Copies
import Provision.Proofs.Plan.Blocks
import Provision.Proofs.Plan.Folders
import Provision.Proofs.Plan.Machine
import Provision.Proofs.Plan.Failure
import Provision.Proofs.Plan.Forwards
import Provision.Proofs.Plan.Start
import Provision.Proofs.Plan.Scripts
import Provision.Proofs.Plan.Schedules
import Provision.Proofs.Plan.ScheduleTruth
import Provision.Proofs.Plan.NullKeys
import Provision.Proofs.Plan.Spelling
import Provision.Proofs.Plan.Secrecy
import Provision.Proofs.Plan.Decode
import Provision.Proofs.Plan.Formats
import Provision.Proofs.Plan.Fallbacks
import Provision.Proofs.Plan.ParamBlock
