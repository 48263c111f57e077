import RecordQuery.Backend
import RecordQuery.Cache
import RecordQuery.CommandLine.Arguments
import RecordQuery.CommandLine.Report
import RecordQuery.Condition.Basic
import RecordQuery.Condition.Bind
import RecordQuery.Condition.Text
import RecordQuery.Draft
import RecordQuery.Engine
import RecordQuery.Error
import RecordQuery.Json.Basic
import RecordQuery.Json.Numeral
import RecordQuery.Json.Printer
import RecordQuery.Json.Reader
import RecordQuery.Limits
import RecordQuery.Main
import RecordQuery.Named
import RecordQuery.Naming
import RecordQuery.Number.Decimal
import RecordQuery.Number.Digit
import RecordQuery.Number.Double
import RecordQuery.Number.Integer
import RecordQuery.Number.Shortest
import RecordQuery.Params
import RecordQuery.Prepared
import RecordQuery.Proofs.Cache.Recency
import RecordQuery.Proofs.Cache.Requests
import RecordQuery.Proofs.CommandLine.Bindings
import RecordQuery.Proofs.CommandLine.WriteBack
import RecordQuery.Proofs.Condition.Joining
import RecordQuery.Proofs.Condition.Meaning
import RecordQuery.Proofs.Condition.Nesting
import RecordQuery.Proofs.Condition.Normal
import RecordQuery.Proofs.Condition.Resolve
import RecordQuery.Proofs.Condition.WellFormed
import RecordQuery.Proofs.Condition.Writing
import RecordQuery.Proofs.Cursor.Basic
import RecordQuery.Proofs.Cursor.Clause
import RecordQuery.Proofs.Cursor.Kinds
import RecordQuery.Proofs.Cursor.Literal
import RecordQuery.Proofs.Cursor.Statement
import RecordQuery.Proofs.Draft.Calls
import RecordQuery.Proofs.Draft.Judged
import RecordQuery.Proofs.Draft.Outline
import RecordQuery.Proofs.Draft.Reading
import RecordQuery.Proofs.Draft.Standing
import RecordQuery.Proofs.Draft.Turn
import RecordQuery.Proofs.Engine.Session
import RecordQuery.Proofs.Grammar.Clause
import RecordQuery.Proofs.Grammar.Literal
import RecordQuery.Proofs.Grammar.Record
import RecordQuery.Proofs.Grammar.Settled
import RecordQuery.Proofs.Grammar.Spelling
import RecordQuery.Proofs.Grammar.Statement
import RecordQuery.Proofs.Grammar.Whole
import RecordQuery.Proofs.Json.Held
import RecordQuery.Proofs.Json.Rising
import RecordQuery.Proofs.Limits.Demand
import RecordQuery.Proofs.Limits.Needed
import RecordQuery.Proofs.Number.Layout
import RecordQuery.Proofs.Number.Monotone
import RecordQuery.Proofs.Number.Parts
import RecordQuery.Proofs.Number.Rounding
import RecordQuery.Proofs.Number.Scaling
import RecordQuery.Proofs.Number.Whole
import RecordQuery.Proofs.Offset.Report
import RecordQuery.Proofs.Offset.Scanner
import RecordQuery.Proofs.Offset.Slice
import RecordQuery.Proofs.Order.Preorder
import RecordQuery.Proofs.Outcome.Collected
import RecordQuery.Proofs.Params.Declared
import RecordQuery.Proofs.Params.Literal
import RecordQuery.Proofs.Params.Logged
import RecordQuery.Proofs.Params.Prepared
import RecordQuery.Proofs.Params.Subst
import RecordQuery.Proofs.Pattern.Splitting
import RecordQuery.Proofs.Statement.Amounts
import RecordQuery.Proofs.Statement.Arrangement
import RecordQuery.Proofs.Statement.Assigned
import RecordQuery.Proofs.Statement.Counts
import RecordQuery.Proofs.Statement.Forms
import RecordQuery.Proofs.Statement.Head
import RecordQuery.Proofs.Statement.Legible
import RecordQuery.Proofs.Statement.Nesting
import RecordQuery.Proofs.Statement.ReadBack
import RecordQuery.Proofs.Statement.Recording
import RecordQuery.Proofs.Statement.Renaming
import RecordQuery.Proofs.Statement.Resolve
import RecordQuery.Proofs.Statement.Ttl
import RecordQuery.Proofs.Statement.Writing
import RecordQuery.Proofs.Store.Asking
import RecordQuery.Proofs.Store.Bulk
import RecordQuery.Proofs.Store.Deleting
import RecordQuery.Proofs.Store.Expansion
import RecordQuery.Proofs.Store.Filed
import RecordQuery.Proofs.Store.Kept
import RecordQuery.Proofs.Store.Loading
import RecordQuery.Proofs.Store.Met
import RecordQuery.Proofs.Store.Reached
import RecordQuery.Proofs.Store.Reloading
import RecordQuery.Proofs.Store.Remaining
import RecordQuery.Proofs.Store.Selecting
import RecordQuery.Proofs.Store.Sorting
import RecordQuery.Proofs.Store.Step
import RecordQuery.Proofs.Store.Updating
import RecordQuery.Proofs.Token.Character
import RecordQuery.Proofs.Token.Following
import RecordQuery.Proofs.Token.Numeral
import RecordQuery.Proofs.Token.Quoted
import RecordQuery.Proofs.Token.Spacing
import RecordQuery.Proofs.Token.Spelled
import RecordQuery.Proofs.Token.Taken
import RecordQuery.Proofs.Token.Writes
import RecordQuery.Proofs.Value.Conversion
import RecordQuery.Proofs.Value.Data
import RecordQuery.Proofs.Value.Filed
import RecordQuery.Proofs.Value.Order
import RecordQuery.Proofs.Value.Parts
import RecordQuery.Proofs.Value.ReadBack
import RecordQuery.Proofs.Value.Reordered
import RecordQuery.Proofs.Value.Writing
import RecordQuery.Query
import RecordQuery.Read
import RecordQuery.Record
import RecordQuery.Settings.Basic
import RecordQuery.Settings.File
import RecordQuery.Settings.Numeral
import RecordQuery.Settings.Text
import RecordQuery.Statement.Basic
import RecordQuery.Statement.Tagged
import RecordQuery.Statement.Text
import RecordQuery.Store.Basic
import RecordQuery.Store.Change
import RecordQuery.Store.Match
import RecordQuery.Store.Rows
import RecordQuery.Text.Blank
import RecordQuery.Text.Hidden
import RecordQuery.Text.Letter
import RecordQuery.Text.Numeral
import RecordQuery.Text.Quoted
import RecordQuery.Text.Ranges
import RecordQuery.Token.Basic
import RecordQuery.Token.Scan
import RecordQuery.Ttl
import RecordQuery.Value.Basic
import RecordQuery.Value.Convert
import RecordQuery.Value.Json
import RecordQuery.Value.Order
import RecordQuery.Value.Text
import RecordQuery.Verb
import RecordQuery.Written.Clause
import RecordQuery.Written.Expect
import RecordQuery.Written.Literal
import RecordQuery.Written.Statement
