import Golden.Text.Lines
import Golden.Text.Blank
import Golden.Text.Numeral
import Golden.Text.Utf8
import Golden.Text.Quoted
import Golden.Duration
import Golden.Directive
import Golden.Outcome
import Golden.Verdict
import Golden.Path
import Golden.Environment
import Golden.Subject.Script
import Golden.Fault
import Golden.Tree
import Golden.Template
import Golden.Variables
import Golden.Settings
import Golden.Yaml.Mark
import Golden.Yaml.Token
import Golden.Yaml.Scalar
import Golden.Yaml.Lexer
import Golden.Yaml.Node
import Golden.Settings.Field
import Golden.Settings.Yaml
import Golden.Toml.Quoted
import Golden.Toml.Moment
import Golden.Toml.Document
import Golden.Settings.Toml
import Golden.Behaviour
import Golden.World
import Golden.TestCase
import Golden.Settings.File
import Golden.Launch
import Golden.Execution
import Golden.CommandLine
import Golden.Report
import Golden.Session
import Golden.Program
import Golden.Proofs.Matching
import Golden.Proofs.Reading
import Golden.Proofs.Blame
import Golden.Proofs.Pipeline
import Golden.Proofs.PassingRun
import Golden.Proofs.Decoding
import Golden.Proofs.OwnText
import Golden.Proofs.Decimal
import Golden.Proofs.Lines
import Golden.Proofs.Provenance
import Golden.Proofs.Rendering
import Golden.Proofs.Concatenation
import Golden.Proofs.Naming
import Golden.Proofs.Resolution
import Golden.Proofs.Capture
import Golden.Proofs.Limit
import Golden.Proofs.Refusal
import Golden.Proofs.Spelling
import Golden.Proofs.Walk
import Golden.Proofs.Neighbour
import Golden.Proofs.LineByLine
import Golden.Proofs.Dependence
import Golden.Proofs.LineEnds
import Golden.Proofs.Inheritance
import Golden.Proofs.Bystanders
import Golden.Proofs.Present
import Golden.Proofs.Earliest
import Golden.Proofs.Weakening
import Golden.Proofs.Handover
import Golden.Proofs.Separation
import Golden.Proofs.Redundancy
import Golden.Proofs.Grammar
import Golden.Proofs.Payload
import Golden.Proofs.Character
import Golden.Proofs.Chunks
import Golden.Proofs.Strictness
import Golden.Proofs.Wording
import Golden.Proofs.Succession
import Golden.Proofs.Amount
import Golden.Proofs.Quotation
import Golden.Proofs.Absolute
import Golden.Proofs.Foresight
import Golden.Proofs.BadSettings
import Golden.Proofs.Layers
import Golden.Proofs.Layout
import Golden.Proofs.Indentation
import Golden.Proofs.Nesting
import Golden.Proofs.Assignment
import Golden.Proofs.Formats
