import CodeAudit.Web.Page
import CodeAudit.Main
import CodeAudit.Proofs.Index.Loss
import CodeAudit.Proofs.Analysis.Isolation
import CodeAudit.Proofs.Score.Weights
import CodeAudit.Proofs.Report.Hotspot
import CodeAudit.Proofs.Dependency.Imports
import CodeAudit.Proofs.Analysis.Export
import CodeAudit.Proofs.Agent
import CodeAudit.Proofs.Detect.Documentation
import CodeAudit.Proofs.Dependency.Order
import CodeAudit.Proofs.Command.Scope
import CodeAudit.Proofs.Index.Location
import CodeAudit.Proofs.Question.Artifacts
import CodeAudit.Proofs.Detect.Security
import CodeAudit.Proofs.Detect.Pairs
import CodeAudit.Proofs.Score.Duplication
import CodeAudit.Proofs.Dependency.Degree
import CodeAudit.Proofs.Index.Content
import CodeAudit.Proofs.Source.Declarations
import CodeAudit.Proofs.Index.Batches
import CodeAudit.Proofs.Index.Braces
import CodeAudit.Proofs.Index.Comment
import CodeAudit.Proofs.Index.Nearest
import CodeAudit.Proofs.Command.Tune
import CodeAudit.Proofs.Dependency.Normal
import CodeAudit.Proofs.Checkout.Place
import CodeAudit.Proofs.Report.Categories
import CodeAudit.Proofs.Question.Limit
import CodeAudit.Proofs.Checkout.Unique
import CodeAudit.Proofs.Detect.Repeats
import CodeAudit.Proofs.Detect.Loaders
import CodeAudit.Proofs.Score.Monotone
import CodeAudit.Proofs.Analysis.Nesting
import CodeAudit.Proofs.Detect.Edit
