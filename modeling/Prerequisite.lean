import Prerequisite.Audit.Event
import Prerequisite.Audit.Sink
import Prerequisite.Catalog
import Prerequisite.Condition.Basic
import Prerequisite.Condition.Error
import Prerequisite.Condition.Query
import Prerequisite.Condition.Restore
import Prerequisite.Condition.Stored
import Prerequisite.FileTree
import Prerequisite.Formula.Basic
import Prerequisite.Formula.Error
import Prerequisite.Formula.Evaluation
import Prerequisite.Formula.Parser
import Prerequisite.Formula.Printer
import Prerequisite.Formula.Serial
import Prerequisite.Formula.Token
import Prerequisite.Host
import Prerequisite.Host.Error
import Prerequisite.Host.Records
import Prerequisite.Identifier
import Prerequisite.Json.Basic
import Prerequisite.Json.Binary64
import Prerequisite.Json.Reader
import Prerequisite.Json.Writer
import Prerequisite.Path
import Prerequisite.Proofs.Audit.Log
import Prerequisite.Proofs.Catalog
import Prerequisite.Proofs.Condition.Decision
import Prerequisite.Proofs.Condition.Decoding
import Prerequisite.Proofs.Condition.Describing
import Prerequisite.Proofs.Condition.Display
import Prerequisite.Proofs.Condition.History
import Prerequisite.Proofs.Condition.Outcome
import Prerequisite.Proofs.Condition.Progress
import Prerequisite.Proofs.Condition.Reload
import Prerequisite.Proofs.Condition.Restore
import Prerequisite.Proofs.Condition.Succession
import Prerequisite.Proofs.FileTree
import Prerequisite.Proofs.Formula.Account
import Prerequisite.Proofs.Formula.Asking
import Prerequisite.Proofs.Formula.Depth
import Prerequisite.Proofs.Formula.Ends
import Prerequisite.Proofs.Formula.Evaluation
import Prerequisite.Proofs.Formula.Faults
import Prerequisite.Proofs.Formula.Grammar
import Prerequisite.Proofs.Formula.Kinds
import Prerequisite.Proofs.Formula.Limits
import Prerequisite.Proofs.Formula.Meaning
import Prerequisite.Proofs.Formula.Normal
import Prerequisite.Proofs.Formula.Polarity
import Prerequisite.Proofs.Formula.Reading
import Prerequisite.Proofs.Formula.Rearranging
import Prerequisite.Proofs.Formula.Renaming
import Prerequisite.Proofs.Formula.Resolving
import Prerequisite.Proofs.Formula.Scan
import Prerequisite.Proofs.Formula.Shortcut
import Prerequisite.Proofs.Formula.Spans
import Prerequisite.Proofs.Formula.Steps
import Prerequisite.Proofs.Formula.Stored
import Prerequisite.Proofs.Formula.Tokenizing
import Prerequisite.Proofs.Formula.Tree
import Prerequisite.Proofs.Formula.Walk
import Prerequisite.Proofs.Formula.Writing
import Prerequisite.Proofs.Host
import Prerequisite.Proofs.Identifier
import Prerequisite.Proofs.Json.Reading
import Prerequisite.Proofs.Json.Writing
import Prerequisite.Proofs.Remap
import Prerequisite.Proofs.Rendering.Colours
import Prerequisite.Proofs.Rendering.Decoding
import Prerequisite.Proofs.Rendering.Failure
import Prerequisite.Proofs.Rendering.Questions
import Prerequisite.Proofs.Rendering.Run
import Prerequisite.Proofs.Respelling
import Prerequisite.Proofs.Rewording
import Prerequisite.Proofs.Settings
import Prerequisite.Proofs.Template
import Prerequisite.Proofs.Text.Bytes
import Prerequisite.Proofs.Text.Markup
import Prerequisite.Proofs.Text.Replace
import Prerequisite.Proofs.Text.Splitting
import Prerequisite.Proofs.Text.Trimming
import Prerequisite.Remap
import Prerequisite.Rendering
import Prerequisite.Scope
import Prerequisite.Session
import Prerequisite.Settings.Basic
import Prerequisite.Settings.Decoding
import Prerequisite.Settings.Loading
import Prerequisite.Text.Blank
import Prerequisite.Text.Decimal
import Prerequisite.Text.Hex
import Prerequisite.Text.Markup
import Prerequisite.Text.Push
import Prerequisite.Text.Reading
import Prerequisite.Text.Replace
import Prerequisite.Text.Size
import Prerequisite.Text.Table
import Prerequisite.Text.Template
import Prerequisite.Toml.Basic
import Prerequisite.Toml.Blank
import Prerequisite.Toml.DateTime
import Prerequisite.Toml.Document
import Prerequisite.Toml.Key
import Prerequisite.Toml.Quoted
import Prerequisite.Toml.Scalar
import Prerequisite.Toml.Table
import Prerequisite.Toml.Value
