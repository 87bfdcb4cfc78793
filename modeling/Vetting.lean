import Vetting.Binary64.Basic
import Vetting.Binary64.Decimal
import Vetting.Calendar.Day
import Vetting.Calendar.Moment
import Vetting.Calendar.Reading
import Vetting.Calendar.Timestamp
import Vetting.Catalog
import Vetting.Catalog.Bundled
import Vetting.Coercion
import Vetting.Command.Basic
import Vetting.Command.Run
import Vetting.Command.Words
import Vetting.Criterion.Basic
import Vetting.Criterion.Loading
import Vetting.Document.Layout
import Vetting.Document.Mark
import Vetting.Document.Moment
import Vetting.Document.Numeral
import Vetting.Document.Property
import Vetting.Document.Reading
import Vetting.Document.Resolution
import Vetting.Document.Scalar
import Vetting.Document.Tag
import Vetting.Document.Token
import Vetting.Document.Tree
import Vetting.Error
import Vetting.Expression.Cache
import Vetting.Expression.Evaluation
import Vetting.Expression.Lexer
import Vetting.Expression.Limit
import Vetting.Expression.Operation
import Vetting.Expression.Parser
import Vetting.Expression.Problem
import Vetting.Expression.Source
import Vetting.Expression.Token
import Vetting.Fault
import Vetting.Files
import Vetting.Function.Argument
import Vetting.Function.Behaviour
import Vetting.Function.Builtin
import Vetting.Function.Collection
import Vetting.Function.Dated
import Vetting.Function.Inspection
import Vetting.Function.Numeric
import Vetting.Function.Registry
import Vetting.Function.Script
import Vetting.Function.Tables
import Vetting.Function.Textual
import Vetting.Log
import Vetting.Main
import Vetting.Number
import Vetting.Proofs.Advance
import Vetting.Proofs.Binary64.Decimal
import Vetting.Proofs.Binary64.Gap
import Vetting.Proofs.Binary64.Half
import Vetting.Proofs.Binary64.Layout
import Vetting.Proofs.Binary64.Nearest
import Vetting.Proofs.Binary64.Notation
import Vetting.Proofs.Binary64.Rounding
import Vetting.Proofs.Calendar.Range
import Vetting.Proofs.Coercion
import Vetting.Proofs.Coercion.Kind
import Vetting.Proofs.Coercion.NumberText
import Vetting.Proofs.Coercion.Repetition
import Vetting.Proofs.Coercion.WellFormed
import Vetting.Proofs.Criterion.Failure
import Vetting.Proofs.Criterion.Loading
import Vetting.Proofs.Cursor.Lexing
import Vetting.Proofs.Cursor.Parsing
import Vetting.Proofs.Cursor.Step
import Vetting.Proofs.Evaluation.Confinement
import Vetting.Proofs.Evaluation.Fault
import Vetting.Proofs.Evaluation.FreeNames
import Vetting.Proofs.Evaluation.Integer
import Vetting.Proofs.Evaluation.Machine
import Vetting.Proofs.Evaluation.Oversized
import Vetting.Proofs.Evaluation.Position
import Vetting.Proofs.Evaluation.Quantifier
import Vetting.Proofs.Evaluation.Renaming
import Vetting.Proofs.Evaluation.Trace
import Vetting.Proofs.Evaluation.Translation
import Vetting.Proofs.Evaluation.Variadic
import Vetting.Proofs.Expression.Caching
import Vetting.Proofs.Expression.Continuation
import Vetting.Proofs.Expression.Derived
import Vetting.Proofs.Expression.Failure
import Vetting.Proofs.Expression.Layout
import Vetting.Proofs.Expression.Literal
import Vetting.Proofs.Expression.Numeral
import Vetting.Proofs.Expression.Parsed
import Vetting.Proofs.Expression.Placed
import Vetting.Proofs.Expression.Position
import Vetting.Proofs.Expression.Renaming
import Vetting.Proofs.Expression.Spelling
import Vetting.Proofs.Expression.Subtree
import Vetting.Proofs.Function.Category
import Vetting.Proofs.Function.Composition
import Vetting.Proofs.Function.Conduct
import Vetting.Proofs.Function.Distance
import Vetting.Proofs.Function.Distinct
import Vetting.Proofs.Function.Echo
import Vetting.Proofs.Function.Family
import Vetting.Proofs.Function.Ground
import Vetting.Proofs.Function.Passing
import Vetting.Proofs.Function.Quantifier
import Vetting.Proofs.Function.Registry
import Vetting.Proofs.Function.Rounding
import Vetting.Proofs.Function.Tables
import Vetting.Proofs.Function.Uniform
import Vetting.Proofs.Grammar.Acceptance
import Vetting.Proofs.Grammar.Completeness
import Vetting.Proofs.Grammar.Derivation
import Vetting.Proofs.Grammar.Placement
import Vetting.Proofs.Grammar.Reading
import Vetting.Proofs.Grammar.Soundness
import Vetting.Proofs.Grammar.Substitution
import Vetting.Proofs.Grammar.Unambiguity
import Vetting.Proofs.Log
import Vetting.Proofs.Outcome
import Vetting.Proofs.Purity
import Vetting.Proofs.Resolver.Agreement
import Vetting.Proofs.Resolver.Definition
import Vetting.Proofs.Resolver.Environment
import Vetting.Proofs.Resolver.Equation
import Vetting.Proofs.Resolver.Group
import Vetting.Proofs.Resolver.Independence
import Vetting.Proofs.Resolver.Query
import Vetting.Proofs.Resolver.Raising
import Vetting.Proofs.Resolver.Registration
import Vetting.Proofs.Resolver.Repetition
import Vetting.Proofs.Resolver.Resolution
import Vetting.Proofs.Resolver.Setup
import Vetting.Proofs.Resolver.Sight
import Vetting.Proofs.Result
import Vetting.Proofs.Rule.Acceptance
import Vetting.Proofs.Rule.Fault
import Vetting.Proofs.Rule.Normal
import Vetting.Proofs.Rule.Repetition
import Vetting.Proofs.Rule.Verdict
import Vetting.Proofs.Session
import Vetting.Proofs.Settings.Merging
import Vetting.Proofs.Settings.Reloading
import Vetting.Proofs.Template.Equation
import Vetting.Proofs.Template.Filling
import Vetting.Proofs.Template.Marking
import Vetting.Proofs.Template.Message
import Vetting.Proofs.Template.Splitting
import Vetting.Proofs.Text.Digits
import Vetting.Proofs.Value.DistinctKeys
import Vetting.Proofs.Value.Equality
import Vetting.Proofs.Value.Fields
import Vetting.Proofs.Value.Forgetting
import Vetting.Proofs.Value.Key
import Vetting.Proofs.Value.Literal
import Vetting.Proofs.Value.Normal
import Vetting.Proofs.Value.Order
import Vetting.Proofs.Value.Shape
import Vetting.Proofs.Value.Writing
import Vetting.Resolver.Basic
import Vetting.Resolver.Equation
import Vetting.Resolver.Query
import Vetting.Resolver.Resolution
import Vetting.Resolver.Setup
import Vetting.Resolver.Use
import Vetting.Rule.Basic
import Vetting.Rule.Check
import Vetting.Rule.Reading
import Vetting.Session
import Vetting.Settings
import Vetting.Template
import Vetting.Text.Base64
import Vetting.Text.Basic
import Vetting.Text.Blank
import Vetting.Text.Case
import Vetting.Text.CaseTable
import Vetting.Text.Letter
import Vetting.Text.Numeral
import Vetting.Text.Printable
import Vetting.Text.Quoted
import Vetting.Text.Range
import Vetting.Text.Utf8
import Vetting.Validation
import Vetting.Value.Basic
import Vetting.Value.Display
import Vetting.Value.Equality
import Vetting.Value.Foreign
import Vetting.Value.JsonForm
import Vetting.Value.Key
import Vetting.Value.Literal
import Vetting.Value.Mapping
import Vetting.Value.Order
