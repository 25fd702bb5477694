import HostPlan.Command.Deploy
import HostPlan.Command.Flag
import HostPlan.Command.Generate
import HostPlan.Command.Help
import HostPlan.Command.Line
import HostPlan.Command.Parse
import HostPlan.Command.Run
import HostPlan.Command.Talk
import HostPlan.Config.Basic
import HostPlan.Config.File
import HostPlan.Config.Key
import HostPlan.Config.Reading
import HostPlan.Credential
import HostPlan.Data.Display
import HostPlan.Data.Entries
import HostPlan.Data.Json.Printer
import HostPlan.Data.Json.Reader
import HostPlan.Data.Prune
import HostPlan.Data.Scalar
import HostPlan.Data.Value
import HostPlan.Data.Yaml.Block
import HostPlan.Data.Yaml.Cursor
import HostPlan.Data.Yaml.Fault
import HostPlan.Data.Yaml.Lexer
import HostPlan.Data.Yaml.Name
import HostPlan.Data.Yaml.Plain
import HostPlan.Data.Yaml.Printer
import HostPlan.Data.Yaml.Quoted
import HostPlan.Data.Yaml.Reader
import HostPlan.Data.Yaml.Scalar
import HostPlan.Data.Yaml.Token
import HostPlan.Data.Yaml.Tree
import HostPlan.Data.Yaml.Unquoted
import HostPlan.Declaration.Application
import HostPlan.Declaration.Assembly
import HostPlan.Declaration.Database
import HostPlan.Declaration.Port
import HostPlan.Declaration.Rule
import HostPlan.Declaration.Service
import HostPlan.Declaration.Setting
import HostPlan.Declaration.Trace
import HostPlan.Deploy.Inventory
import HostPlan.Deploy.Result
import HostPlan.Deploy.Run
import HostPlan.Dialogue
import HostPlan.File
import HostPlan.Log
import HostPlan.Main
import HostPlan.Model.Basic
import HostPlan.Model.Document
import HostPlan.Model.Finding
import HostPlan.Model.Kind
import HostPlan.Model.Link
import HostPlan.Plan.Build
import HostPlan.Plan.Environment
import HostPlan.Plan.Export
import HostPlan.Plan.Kind
import HostPlan.Plan.Operation
import HostPlan.Plan.Payload
import HostPlan.Plan.ProjectName
import HostPlan.Plan.Script
import HostPlan.Plan.Shell
import HostPlan.Plan.Target
import HostPlan.Proofs.Command.Course
import HostPlan.Proofs.Command.Gates
import HostPlan.Proofs.Command.Loading
import HostPlan.Proofs.Command.Traffic
import HostPlan.Proofs.Command.World
import HostPlan.Proofs.Config.File
import HostPlan.Proofs.Config.Reading
import HostPlan.Proofs.Data.Printed
import HostPlan.Proofs.Data.RoundTrip
import HostPlan.Proofs.Data.WellFormed
import HostPlan.Proofs.Data.Yaml.Cursor
import HostPlan.Proofs.Data.Yaml.Document
import HostPlan.Proofs.Data.Yaml.Grammar
import HostPlan.Proofs.Data.Yaml.Layout
import HostPlan.Proofs.Data.Yaml.Lexer
import HostPlan.Proofs.Data.Yaml.Quoted
import HostPlan.Proofs.Data.Yaml.Spelling
import HostPlan.Proofs.Data.Yaml.Step
import HostPlan.Proofs.Data.Yaml.Tokens
import HostPlan.Proofs.Data.Yaml.Unquoted
import HostPlan.Proofs.Data.Yaml.Values
import HostPlan.Proofs.Declaration.Accounts
import HostPlan.Proofs.Declaration.Attributes
import HostPlan.Proofs.Declaration.Breakdown
import HostPlan.Proofs.Declaration.Kept
import HostPlan.Proofs.Declaration.Variable
import HostPlan.Proofs.Deploy.Agreement
import HostPlan.Proofs.Deploy.Client
import HostPlan.Proofs.Deploy.Directory
import HostPlan.Proofs.Deploy.Existing
import HostPlan.Proofs.Deploy.Isolation
import HostPlan.Proofs.Deploy.Platform
import HostPlan.Proofs.Deploy.Repetition
import HostPlan.Proofs.Deploy.Turn
import HostPlan.Proofs.Model.Document
import HostPlan.Proofs.Model.Partition
import HostPlan.Proofs.Model.Validation
import HostPlan.Proofs.Plan.Connection
import HostPlan.Proofs.Plan.Export
import HostPlan.Proofs.Plan.Guard
import HostPlan.Proofs.Plan.HereDocument
import HostPlan.Proofs.Plan.Lossless
import HostPlan.Proofs.Plan.Mention
import HostPlan.Proofs.Plan.Remarks
import HostPlan.Proofs.Plan.Script
import HostPlan.Proofs.Plan.Sending
import HostPlan.Proofs.Remote.Status
import HostPlan.Proofs.Source.Argument
import HostPlan.Proofs.Source.ArgumentRow
import HostPlan.Proofs.Source.Balance
import HostPlan.Proofs.Source.Code
import HostPlan.Proofs.Source.Composition
import HostPlan.Proofs.Source.Enclosure
import HostPlan.Proofs.Source.Ending
import HostPlan.Proofs.Source.Extraction
import HostPlan.Proofs.Source.Fidelity
import HostPlan.Proofs.Source.Idempotence
import HostPlan.Proofs.Source.Layout
import HostPlan.Proofs.Source.Literal
import HostPlan.Proofs.Source.Locality
import HostPlan.Proofs.Source.Mask
import HostPlan.Proofs.Source.Misleading
import HostPlan.Proofs.Source.Nesting
import HostPlan.Proofs.Source.Normal
import HostPlan.Proofs.Source.Outline
import HostPlan.Proofs.Source.Place
import HostPlan.Proofs.Source.Reading
import HostPlan.Proofs.Source.Root
import HostPlan.Proofs.Source.RoundTrip
import HostPlan.Proofs.Source.Search
import HostPlan.Proofs.Source.Segment
import HostPlan.Proofs.Source.Separation
import HostPlan.Proofs.Source.Sequence
import HostPlan.Proofs.Source.Spacing
import HostPlan.Proofs.Source.Statement
import HostPlan.Proofs.Source.Truncation
import HostPlan.Proofs.Text.Lines
import HostPlan.Proofs.Text.Replace
import HostPlan.Proofs.Text.Trim
import HostPlan.Remote.Body
import HostPlan.Remote.Call
import HostPlan.Remote.Request
import HostPlan.Remote.Response
import HostPlan.Remote.Status
import HostPlan.Remote.Url
import HostPlan.Report
import HostPlan.Source.Argument
import HostPlan.Source.Bracket
import HostPlan.Source.Call
import HostPlan.Source.Chain
import HostPlan.Source.Lambda
import HostPlan.Source.Literal
import HostPlan.Source.Normal
import HostPlan.Terminal.Line
import HostPlan.Terminal.Markup
import HostPlan.Terminal.Table
import HostPlan.Terminal.Width
import HostPlan.Text.Blank
import HostPlan.Text.DecimalDigit
import HostPlan.Text.File
import HostPlan.Text.Lower
import HostPlan.Text.Numeral
import HostPlan.Text.Path
import HostPlan.Text.Printable
import HostPlan.Text.Range
import HostPlan.Text.Search
import HostPlan.Text.Utf8
import HostPlan.Text.Word
