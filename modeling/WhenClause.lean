import WhenClause.Text.Blank
import WhenClause.Text.Hex
import WhenClause.Text.Quoted
import WhenClause.Text.Occurrence
import WhenClause.Dictionary
import WhenClause.Number.Basic
import WhenClause.Number.Decimal
import WhenClause.Number.Shortest
import WhenClause.Number.Arithmetic
import WhenClause.Json.Basic
import WhenClause.Json.Written
import WhenClause.Text.Invisible
import WhenClause.Text.CaseTable
import WhenClause.Text.LetterCase
import WhenClause.Text.Shown
import WhenClause.Expression.Basic
import WhenClause.Token.Basic
import WhenClause.Fault
import WhenClause.Token.Lexer
import WhenClause.Expression.Parser
import WhenClause.Error
import WhenClause.Expression.Source
import WhenClause.Expression.Json
import WhenClause.Number.Reading
import WhenClause.Json.Reader
import WhenClause.Value.Basic
import WhenClause.Value.Text
import WhenClause.Value.Json
import WhenClause.Value.Member
import WhenClause.Evaluation.Host
import WhenClause.Evaluation.Eval
import WhenClause.Evaluation.Memo
import WhenClause.Registry
import WhenClause.Condition.Basic
import WhenClause.Condition.Reading
import WhenClause.Condition.Check
import WhenClause.Predicate
import WhenClause.Yaml.Cursor
import WhenClause.Yaml.Scalar
import WhenClause.Yaml.Tag
import WhenClause.Yaml.Token
import WhenClause.Yaml.Node
import WhenClause.Environment.Config
import WhenClause.Environment.Builder
import WhenClause.Machine.FilePath
import WhenClause.Machine.Basic
import WhenClause.CommandLine.Arguments
import WhenClause.CommandLine.Run
import WhenClause.Main
import WhenClause.Proofs.Number.Rounding
import WhenClause.Proofs.Number.Written
import WhenClause.Proofs.Text.Quoted
import WhenClause.Proofs.Value.Sameness
import WhenClause.Proofs.Evaluation.CallKey
import WhenClause.Proofs.Evaluation.Equations
import WhenClause.Proofs.Evaluation.Relation
import WhenClause.Proofs.Evaluation.Remembering
import WhenClause.Proofs.Evaluation.Session
import WhenClause.Proofs.Evaluation.AtMostOnce
import WhenClause.Proofs.Dictionary
import WhenClause.Proofs.Value.Quote
import WhenClause.Proofs.Condition.Translation
import WhenClause.Proofs.Condition.Agreement
import WhenClause.Proofs.Condition.Equivalence
import WhenClause.Proofs.Expression.Grammar
import WhenClause.Proofs.Expression.Readings
import WhenClause.Proofs.Expression.Soundness
import WhenClause.Proofs.Expression.Completeness
import WhenClause.Proofs.Token.Concatenation
import WhenClause.Proofs.Token.Words
import WhenClause.Proofs.Expression.Placement
import WhenClause.Proofs.Expression.Embedding
import WhenClause.Proofs.Evaluation.Steps
import WhenClause.Proofs.Expression.Nodes
import WhenClause.Proofs.Expression.WellFormed
import WhenClause.Proofs.Evaluation.Simulation
import WhenClause.Proofs.Evaluation.Running
import WhenClause.Proofs.Evaluation.Structural
import WhenClause.Proofs.Value.Indiscernible
import WhenClause.Proofs.Value.Members
import WhenClause.Proofs.Evaluation.Transparency
import WhenClause.Proofs.Condition.Simulation
import WhenClause.Proofs.Evaluation.FailStop
import WhenClause.Proofs.Evaluation.SourceOrder
import WhenClause.Proofs.Evaluation.DebugLog
import WhenClause.Proofs.Evaluation.ReservedNames
import WhenClause.Proofs.Token.Literals
import WhenClause.Proofs.Value.Rereading
import WhenClause.Proofs.Text.ByteOrder
import WhenClause.Proofs.Environment.Composition
import WhenClause.Proofs.Evaluation.Negation
import WhenClause.Proofs.Evaluation.Regrouping
import WhenClause.Proofs.Expression.Alike
import WhenClause.Proofs.Token.Numerals
import WhenClause.Proofs.Token.Respacing
import WhenClause.Proofs.Expression.Respacing
import WhenClause.Proofs.Safety.Checked
import WhenClause.Proofs.Safety.Messages
import WhenClause.Proofs.Safety.Lexing
import WhenClause.Proofs.Safety.Machine
import WhenClause.Proofs.Safety.Parsing
import WhenClause.Proofs.CommandLine.Verdicts
import WhenClause.Proofs.Evaluation.Reevaluation
import WhenClause.Proofs.Expression.Keywords
import WhenClause.Proofs.Json.Strings
import WhenClause.Proofs.Token.Strings
import WhenClause.Proofs.Token.JsonStrings
import WhenClause.Proofs.Token.Classes
import WhenClause.Proofs.Token.Exactness
import WhenClause.Proofs.Text.Pieces
import WhenClause.Proofs.Expression.Diagnostics
import WhenClause.Proofs.Json.Scalars
import WhenClause.Proofs.Condition.Arguments
import WhenClause.Proofs.Condition.Denotation
import WhenClause.Proofs.Value.Equality
import WhenClause.Proofs.Value.Order
import WhenClause.Proofs.Value.Coercion
import WhenClause.Proofs.Value.Conversion
import WhenClause.Proofs.Text.Occurrence
import WhenClause.Proofs.Value.Search
import WhenClause.Proofs.CommandLine.Variables
import WhenClause.Proofs.Number.JsonText
import WhenClause.Proofs.Json.Readability
import WhenClause.Proofs.Expression.Serialization
import WhenClause.Proofs.Expression.Fields
import WhenClause.Proofs.Evaluation.Fields
import WhenClause.Proofs.Expression.ArgumentLists
import WhenClause.Proofs.Safety.Progress
