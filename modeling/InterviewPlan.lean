import InterviewPlan.Command.Line
import InterviewPlan.Command.Run
import InterviewPlan.Command.Settings
import InterviewPlan.Document.Analysis
import InterviewPlan.Document.BlockType
import InterviewPlan.Document.Issue
import InterviewPlan.Document.Segment
import InterviewPlan.Files.Tree
import InterviewPlan.Fixture.Catalogue
import InterviewPlan.Fixture.Frontmatter
import InterviewPlan.Fixture.Report
import InterviewPlan.Fixture.Verdict
import InterviewPlan.Json.Numeral
import InterviewPlan.Json.Reader
import InterviewPlan.Json.Skip
import InterviewPlan.Json.Value
import InterviewPlan.Json.Writer
import InterviewPlan.Main
import InterviewPlan.Number.Binary
import InterviewPlan.Number.Decimal
import InterviewPlan.Number.Layout
import InterviewPlan.Plan.Codec
import InterviewPlan.Plan.Flag
import InterviewPlan.Plan.Step
import InterviewPlan.Script.Block
import InterviewPlan.Script.Detect
import InterviewPlan.Script.Emit
import InterviewPlan.Script.Extract
import InterviewPlan.Script.Literal
import InterviewPlan.Script.Pattern
import InterviewPlan.Script.Statement
import InterviewPlan.Session
import InterviewPlan.Text.Basic
import InterviewPlan.Text.Blank
import InterviewPlan.Text.Lines
import InterviewPlan.Text.Scan
import InterviewPlan.Toml.Reader
import InterviewPlan.Toml.Value
import InterviewPlan.Yaml.Block
import InterviewPlan.Yaml.Flow
import InterviewPlan.Yaml.Node
import InterviewPlan.Yaml.Reader
import InterviewPlan.Yaml.Scalar
import InterviewPlan.Yaml.Source
import InterviewPlan.Yaml.Tag
import InterviewPlan.Yaml.Token
import InterviewPlan.Yaml.Value
import InterviewPlan.Proofs.Text.Lines
import InterviewPlan.Proofs.Number.Integral
import InterviewPlan.Proofs.Number.Numeral
import InterviewPlan.Proofs.Document.Blocks
import InterviewPlan.Proofs.Document.Partition
import InterviewPlan.Proofs.Document.Concatenation
import InterviewPlan.Proofs.Document.OrderCode
import InterviewPlan.Proofs.Document.RoundTrip
import InterviewPlan.Proofs.Script.Image
import InterviewPlan.Proofs.Script.CleanLines
import InterviewPlan.Proofs.Script.Quoted
import InterviewPlan.Proofs.Plan.Codec
import InterviewPlan.Proofs.Plan.Words
import InterviewPlan.Proofs.Script.Normalization
import InterviewPlan.Proofs.Script.LineEndings
import InterviewPlan.Proofs.Script.Locality
import InterviewPlan.Proofs.Script.Names
import InterviewPlan.Proofs.Script.Comments
import InterviewPlan.Proofs.Script.StructuralLines
import InterviewPlan.Proofs.Script.GuardFlag
import InterviewPlan.Proofs.Script.Indentation
import InterviewPlan.Proofs.Script.Delimitation
import InterviewPlan.Proofs.Script.NestedBlock
import InterviewPlan.Proofs.Script.Detection
import InterviewPlan.Proofs.Script.Recognition
import InterviewPlan.Proofs.Fixture.Frontmatter
import InterviewPlan.Proofs.Fixture.Selection
