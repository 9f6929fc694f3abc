import ResourceApi.Ascending
import ResourceApi.Calendar
import ResourceApi.Client.Collection
import ResourceApi.Client.Compose
import ResourceApi.Client.Exchange
import ResourceApi.Client.Failure
import ResourceApi.Client.Operation
import ResourceApi.Client.Path
import ResourceApi.Client.Settings
import ResourceApi.Column
import ResourceApi.Command.Arguments
import ResourceApi.Command.Context
import ResourceApi.Command.Error
import ResourceApi.Command.Files
import ResourceApi.Command.Generator
import ResourceApi.Command.Invocation
import ResourceApi.Command.Run
import ResourceApi.Command.World
import ResourceApi.Criteria.Basic
import ResourceApi.Criteria.Operator
import ResourceApi.Criteria.Scalar
import ResourceApi.Decimal.Binary64
import ResourceApi.Decimal.Layout
import ResourceApi.Decimal.Reading
import ResourceApi.Decimal.Shortest
import ResourceApi.Facade.Client
import ResourceApi.Facade.Method
import ResourceApi.Facade.Source
import ResourceApi.Facade.Standard
import ResourceApi.Filter.Clause
import ResourceApi.Filter.Compile
import ResourceApi.Filter.Literal
import ResourceApi.Http.Endpoint
import ResourceApi.Http.Network
import ResourceApi.Http.Token
import ResourceApi.Json.Basic
import ResourceApi.Json.Printer
import ResourceApi.Json.Reader
import ResourceApi.Json.Record
import ResourceApi.Json.Source
import ResourceApi.Main
import ResourceApi.Manifest.Basic
import ResourceApi.Manifest.Name
import ResourceApi.Manifest.Rules
import ResourceApi.Options.Basic
import ResourceApi.Options.Query
import ResourceApi.Options.Sort
import ResourceApi.Ordered
import ResourceApi.Page.Basic
import ResourceApi.Page.Envelope
import ResourceApi.Proofs.Client.Addresses
import ResourceApi.Proofs.Client.Answers
import ResourceApi.Proofs.Client.Conjunction
import ResourceApi.Proofs.Client.Enclosing
import ResourceApi.Proofs.Client.Ending
import ResourceApi.Proofs.Client.Grouping
import ResourceApi.Proofs.Client.PageCap
import ResourceApi.Proofs.Client.Paging
import ResourceApi.Proofs.Client.PagingRule
import ResourceApi.Proofs.Client.Path
import ResourceApi.Proofs.Client.PathReading
import ResourceApi.Proofs.Client.Values
import ResourceApi.Proofs.Column.Capitals
import ResourceApi.Proofs.Column.Regrouping
import ResourceApi.Proofs.Column.Spelling
import ResourceApi.Proofs.Column.Words
import ResourceApi.Proofs.Command.Connection
import ResourceApi.Proofs.Command.Consistency
import ResourceApi.Proofs.Command.ContextFile
import ResourceApi.Proofs.Command.DryRun
import ResourceApi.Proofs.Command.Frame
import ResourceApi.Proofs.Command.Generation
import ResourceApi.Proofs.Command.Records
import ResourceApi.Proofs.Command.Replay
import ResourceApi.Proofs.Command.Store
import ResourceApi.Proofs.Criteria.Arrangement
import ResourceApi.Proofs.Criteria.Demand
import ResourceApi.Proofs.Criteria.Edits
import ResourceApi.Proofs.Criteria.Members
import ResourceApi.Proofs.Decimal.Nearest
import ResourceApi.Proofs.Decimal.Positional
import ResourceApi.Proofs.Decimal.Ratio
import ResourceApi.Proofs.Decimal.ReadBack
import ResourceApi.Proofs.Decimal.Rounding
import ResourceApi.Proofs.Decimal.Shortest
import ResourceApi.Proofs.Decimal.Stepwise
import ResourceApi.Proofs.Facade.Filling
import ResourceApi.Proofs.Facade.Identifiers
import ResourceApi.Proofs.Facade.Imports
import ResourceApi.Proofs.Facade.Keywords
import ResourceApi.Proofs.Facade.Methods
import ResourceApi.Proofs.Facade.Modules
import ResourceApi.Proofs.Facade.Template
import ResourceApi.Proofs.Facade.Tokens
import ResourceApi.Proofs.Facade.TypeNames
import ResourceApi.Proofs.Facade.UsedTypes
import ResourceApi.Proofs.Facade.WellFormed
import ResourceApi.Proofs.Filter.Balance
import ResourceApi.Proofs.Filter.Clause
import ResourceApi.Proofs.Filter.Column
import ResourceApi.Proofs.Filter.Comparator
import ResourceApi.Proofs.Filter.Conformance
import ResourceApi.Proofs.Filter.Expression
import ResourceApi.Proofs.Filter.Grammar
import ResourceApi.Proofs.Filter.Integers
import ResourceApi.Proofs.Filter.Joining
import ResourceApi.Proofs.Filter.Lexer
import ResourceApi.Proofs.Filter.Meaning
import ResourceApi.Proofs.Filter.Origin
import ResourceApi.Proofs.Filter.Quoting
import ResourceApi.Proofs.Filter.Reader
import ResourceApi.Proofs.Http.Acceptance
import ResourceApi.Proofs.Http.Attempt
import ResourceApi.Proofs.Http.Joining
import ResourceApi.Proofs.Json.Doubles
import ResourceApi.Proofs.Json.Grammar
import ResourceApi.Proofs.Json.Numbers
import ResourceApi.Proofs.Json.Printing
import ResourceApi.Proofs.Json.Reading
import ResourceApi.Proofs.Json.Strings
import ResourceApi.Proofs.Manifest.Characters
import ResourceApi.Proofs.Manifest.Name
import ResourceApi.Proofs.Manifest.Rules
import ResourceApi.Proofs.Manifest.TypeReading
import ResourceApi.Proofs.Manifest.TypeText
import ResourceApi.Proofs.Options.Members
import ResourceApi.Proofs.Options.Query
import ResourceApi.Proofs.Options.SortFields
import ResourceApi.Proofs.Options.SortForms
import ResourceApi.Proofs.Options.SortText
import ResourceApi.Proofs.Ordered
import ResourceApi.Proofs.Page.Printing
import ResourceApi.Proofs.Text.Lossy
import ResourceApi.Proofs.Text.Percent
import ResourceApi.Proofs.Text.PercentForm
import ResourceApi.Proofs.Text.Trim
import ResourceApi.Proofs.Text.Utf8
import ResourceApi.Proofs.Toml.Document
import ResourceApi.Proofs.Toml.Quoted
import ResourceApi.Proofs.Toml.Tables
import ResourceApi.Proofs.Url.Authority
import ResourceApi.Proofs.Url.Following
import ResourceApi.Proofs.Url.Plain
import ResourceApi.Text.Blank
import ResourceApi.Text.Digit
import ResourceApi.Text.Invisible
import ResourceApi.Text.Letter
import ResourceApi.Text.Percent
import ResourceApi.Text.Quoted
import ResourceApi.Text.Run
import ResourceApi.Text.Utf8
import ResourceApi.Toml.Basic
import ResourceApi.Toml.Lexeme
import ResourceApi.Toml.Printer
import ResourceApi.Toml.Reader
import ResourceApi.Toml.Record
import ResourceApi.Url.Basic
import ResourceApi.Url.Escape
import ResourceApi.Url.Host
import ResourceApi.Url.Reader
