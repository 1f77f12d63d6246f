import ResponsiveCss.Color.Call
import ResponsiveCss.Color.Theme
import ResponsiveCss.Config
import ResponsiveCss.Config.Setting
import ResponsiveCss.Declaration
import ResponsiveCss.Engine
import ResponsiveCss.Failure
import ResponsiveCss.Handler
import ResponsiveCss.Handler.Cached
import ResponsiveCss.Handler.Property
import ResponsiveCss.Handler.Stock
import ResponsiveCss.Issue
import ResponsiveCss.Job
import ResponsiveCss.Memo
import ResponsiveCss.Mode
import ResponsiveCss.Node
import ResponsiveCss.Node.Build
import ResponsiveCss.Node.Css
import ResponsiveCss.Number.Binary64
import ResponsiveCss.Number.Grid
import ResponsiveCss.Number.Layout
import ResponsiveCss.Number.Numeral
import ResponsiveCss.Number.Rounding
import ResponsiveCss.Number.Shortest
import ResponsiveCss.OrderedMap
import ResponsiveCss.ParsedStyle
import ResponsiveCss.Proofs.Bracket
import ResponsiveCss.Proofs.Calc.Emission
import ResponsiveCss.Proofs.Calc.Placement
import ResponsiveCss.Proofs.Calc.Products
import ResponsiveCss.Proofs.Color.Channels
import ResponsiveCss.Proofs.Color.LetterCase
import ResponsiveCss.Proofs.Color.Mixing
import ResponsiveCss.Proofs.Color.Opacity
import ResponsiveCss.Proofs.Color.Spelling
import ResponsiveCss.Proofs.Handler.Declared
import ResponsiveCss.Proofs.Handler.Empty
import ResponsiveCss.Proofs.Handler.Leaves
import ResponsiveCss.Proofs.Handler.Memory
import ResponsiveCss.Proofs.Handler.Response
import ResponsiveCss.Proofs.Json.Injective
import ResponsiveCss.Proofs.Json.Key
import ResponsiveCss.Proofs.Json.Number
import ResponsiveCss.Proofs.Layer.Strict
import ResponsiveCss.Proofs.Layer.Value
import ResponsiveCss.Proofs.Layer.Writing
import ResponsiveCss.Proofs.Memo.Accounting
import ResponsiveCss.Proofs.Memo.Lookup
import ResponsiveCss.Proofs.Memo.Recency
import ResponsiveCss.Proofs.Mode.Difference
import ResponsiveCss.Proofs.Nesting.Counts
import ResponsiveCss.Proofs.Nesting.Output
import ResponsiveCss.Proofs.Node.Completion
import ResponsiveCss.Proofs.Node.Depth
import ResponsiveCss.Proofs.Node.Kinds
import ResponsiveCss.Proofs.Node.Origin
import ResponsiveCss.Proofs.Node.Prune
import ResponsiveCss.Proofs.Node.Reading
import ResponsiveCss.Proofs.Node.Twin
import ResponsiveCss.Proofs.Number.Decimal
import ResponsiveCss.Proofs.Number.Nearest
import ResponsiveCss.Proofs.Number.Percent
import ResponsiveCss.Proofs.Plain.ColorCall
import ResponsiveCss.Proofs.Plain.Grammar
import ResponsiveCss.Proofs.Plain.Lex
import ResponsiveCss.Proofs.Plain.PassThrough
import ResponsiveCss.Proofs.Plain.Read
import ResponsiveCss.Proofs.Plain.Understood
import ResponsiveCss.Proofs.Plain.Write
import ResponsiveCss.Proofs.Property
import ResponsiveCss.Proofs.Rendering.ByZone
import ResponsiveCss.Proofs.Rendering.Compose
import ResponsiveCss.Proofs.Rendering.Empty
import ResponsiveCss.Proofs.Rendering.Failing
import ResponsiveCss.Proofs.Rendering.Generic
import ResponsiveCss.Proofs.Rendering.Omission
import ResponsiveCss.Proofs.Rendering.OwnMemory
import ResponsiveCss.Proofs.Rendering.Placed
import ResponsiveCss.Proofs.Rendering.Projection
import ResponsiveCss.Proofs.Rendering.Schedule
import ResponsiveCss.Proofs.Session.Distinct
import ResponsiveCss.Proofs.Session.Lineup
import ResponsiveCss.Proofs.Session.Reached
import ResponsiveCss.Proofs.Session.Recall
import ResponsiveCss.Proofs.Session.Reference
import ResponsiveCss.Proofs.Session.Rendering
import ResponsiveCss.Proofs.Session.Resolve
import ResponsiveCss.Proofs.Session.Roster
import ResponsiveCss.Proofs.Session.Transparency
import ResponsiveCss.Proofs.Session.Uses
import ResponsiveCss.Proofs.Text.Compact
import ResponsiveCss.Proofs.Text.Hollow
import ResponsiveCss.Proofs.Text.Layer
import ResponsiveCss.Proofs.Text.Letter
import ResponsiveCss.Proofs.Text.Opening
import ResponsiveCss.Proofs.Text.Outside
import ResponsiveCss.Proofs.Text.Respaced
import ResponsiveCss.Proofs.Text.Stops
import ResponsiveCss.Proofs.Text.Swapped
import ResponsiveCss.Proofs.Text.Utf8
import ResponsiveCss.Proofs.Token.Bytes
import ResponsiveCss.Proofs.Token.Copied
import ResponsiveCss.Proofs.Token.Extension
import ResponsiveCss.Proofs.Token.Kind
import ResponsiveCss.Proofs.Token.LetterCase
import ResponsiveCss.Proofs.Token.Reader
import ResponsiveCss.Proofs.Token.Recased
import ResponsiveCss.Proofs.Token.Respaced
import ResponsiveCss.Proofs.Token.Shape
import ResponsiveCss.Proofs.Token.Spelling
import ResponsiveCss.Proofs.Token.Tiling
import ResponsiveCss.Proofs.Unit
import ResponsiveCss.Proofs.Value.Finite
import ResponsiveCss.Proofs.Value.ForwardFill
import ResponsiveCss.Proofs.Writing.Assembly
import ResponsiveCss.Proofs.Writing.Discipline
import ResponsiveCss.Proofs.Writing.Order
import ResponsiveCss.Proofs.Writing.Roles
import ResponsiveCss.Proofs.Writing.Twin
import ResponsiveCss.Proofs.Zone.Partition
import ResponsiveCss.Proofs.Zone.Query
import ResponsiveCss.Property
import ResponsiveCss.Registry
import ResponsiveCss.Renderer
import ResponsiveCss.Session
import ResponsiveCss.Sheet
import ResponsiveCss.StyleParser
import ResponsiveCss.Text.Character
import ResponsiveCss.Text.Split
import ResponsiveCss.Text.Trim
import ResponsiveCss.Token
import ResponsiveCss.Token.Scan
import ResponsiveCss.Unit
import ResponsiveCss.Value
import ResponsiveCss.Value.Json
import ResponsiveCss.Value.PerZone
import ResponsiveCss.Workshop
import ResponsiveCss.Yaml.Cursor
import ResponsiveCss.Yaml.Document
import ResponsiveCss.Yaml.Outline
import ResponsiveCss.Yaml.Scalar
import ResponsiveCss.Zone
