import TaggedOutline.Binary64
import TaggedOutline.Body
import TaggedOutline.Diagnostic
import TaggedOutline.Document.Json.Lexeme
import TaggedOutline.Document.Json.Printer
import TaggedOutline.Document.Json.Reader
import TaggedOutline.Document.Shape
import TaggedOutline.Document.Toml.Moment
import TaggedOutline.Document.Toml.Number
import TaggedOutline.Document.Toml.Quoted
import TaggedOutline.Document.Toml.Reader
import TaggedOutline.Document.Toml.Table
import TaggedOutline.Document.Value
import TaggedOutline.Document.Yaml.Character
import TaggedOutline.Document.Yaml.Node
import TaggedOutline.Document.Yaml.Place
import TaggedOutline.Document.Yaml.Printer
import TaggedOutline.Document.Yaml.Reader
import TaggedOutline.Document.Yaml.Scalar
import TaggedOutline.Document.Yaml.Token
import TaggedOutline.Document.Yaml.Token.Stream
import TaggedOutline.Grammar
import TaggedOutline.Grammar.Recognize
import TaggedOutline.Grammar.Sublanguage
import TaggedOutline.Grammar.Tree
import TaggedOutline.Handler
import TaggedOutline.Handler.Grammars
import TaggedOutline.Handler.Script
import TaggedOutline.Header
import TaggedOutline.Header.Comment
import TaggedOutline.Header.Quoted
import TaggedOutline.Layout
import TaggedOutline.Lexer
import TaggedOutline.Lexer.Pieces
import TaggedOutline.Locator
import TaggedOutline.Matcher
import TaggedOutline.Params
import TaggedOutline.Pattern
import TaggedOutline.Pattern.Ends
import TaggedOutline.Pattern.Reader
import TaggedOutline.Proofs.Cut
import TaggedOutline.Proofs.Rows
import TaggedOutline.Settings
import TaggedOutline.Settings.Document
import TaggedOutline.Settings.Layers
import TaggedOutline.Settings.Path
import TaggedOutline.Sketch
import TaggedOutline.Sketch.Document
import TaggedOutline.Spec
import TaggedOutline.Spec.Document
import TaggedOutline.Spec.Written
import TaggedOutline.Text
import TaggedOutline.Text.Blank
import TaggedOutline.Text.Classes
import TaggedOutline.Text.Lines
import TaggedOutline.Text.Number
import TaggedOutline.Text.Ranges
import TaggedOutline.Text.Shown
import TaggedOutline.Text.Unseen
import TaggedOutline.Token
import TaggedOutline.Token.Stream
import TaggedOutline.Tree
import TaggedOutline.Tree.Build
import TaggedOutline.Tree.Check
import TaggedOutline.Tree.Dispatch
import TaggedOutline.Tree.Node
import TaggedOutline.Tree.Overview
import TaggedOutline.Tree.Search
import TaggedOutline.Tree.Subtree
import TaggedOutline.Tree.Written
import TaggedOutline.Proofs.Outline
import TaggedOutline.Proofs.Build
import TaggedOutline.Proofs.Brackets
import TaggedOutline.Proofs.Structured
import TaggedOutline.Proofs.Content
import TaggedOutline.Proofs.Indentation
import TaggedOutline.Proofs.Thinning
import TaggedOutline.Proofs.Patterns
import TaggedOutline.Proofs.Readings
import TaggedOutline.Proofs.Header.Lexemes
import TaggedOutline.Proofs.Header.Grammar
import TaggedOutline.Proofs.Header.Spelling
import TaggedOutline.Proofs.Header.Lexed
import TaggedOutline.Proofs.Header.Bracket
import TaggedOutline.Proofs.Header.Canonical
import TaggedOutline.Proofs.Written
import TaggedOutline.Proofs.RoundTrip
import TaggedOutline.Proofs.Depth
import TaggedOutline.Proofs.Header.Opening
import TaggedOutline.Proofs.Header.Syntax
import TaggedOutline.Proofs.Account
import TaggedOutline.Proofs.Grammar.Termination
import TaggedOutline.Proofs.Grammar.Tokens
import TaggedOutline.Proofs.Grammar.LeftRecursion
import TaggedOutline.Proofs.Grammar.Descent
import TaggedOutline.Proofs.Grammar.Sessions
import TaggedOutline.Proofs.Tiling
import TaggedOutline.Proofs.Arena
import TaggedOutline.Proofs.Places
import TaggedOutline.Proofs.Census
import TaggedOutline.Proofs.Progress
import TaggedOutline.Proofs.Hooks
import TaggedOutline.Proofs.Memory
import TaggedOutline.Proofs.Opened
import TaggedOutline.Proofs.Stages
import TaggedOutline.Proofs.Local
import TaggedOutline.Proofs.Ranks
import TaggedOutline.Proofs.Dispatch
import TaggedOutline.Proofs.Bare
import TaggedOutline.Proofs.Grown
import TaggedOutline.Proofs.Ends
import TaggedOutline.Proofs.Failures
import TaggedOutline.Proofs.Exports
import TaggedOutline.Proofs.Macros
import TaggedOutline.Proofs.Reimport
import TaggedOutline.Proofs.Locator.Grammar
import TaggedOutline.Proofs.Locator.Spelling
import TaggedOutline.Proofs.Locator.Syntax
import TaggedOutline.Proofs.Locator.Lexemes
import TaggedOutline.Proofs.Locator.Positions
import TaggedOutline.Proofs.Document.Lexemes
import TaggedOutline.Proofs.Document.Reader
import TaggedOutline.Proofs.Document.Descriptions
import TaggedOutline.Proofs.Normal
import TaggedOutline.Proofs.Blocks
import TaggedOutline.Proofs.Shifted
import TaggedOutline.Proofs.Headings
import TaggedOutline.Proofs.Isolated
import TaggedOutline.Proofs.Linked
import TaggedOutline.Proofs.Locator.Search
import TaggedOutline.Proofs.Discreet
import TaggedOutline.Proofs.Stretched
import TaggedOutline.Proofs.Locator.Insertions
import TaggedOutline.Proofs.Deeper
import TaggedOutline.Proofs.Changes
import TaggedOutline.Proofs.Free
import TaggedOutline.Proofs.Mirrored
import TaggedOutline.Proofs.Inserted
import TaggedOutline.Proofs.Grammar.Lists
import TaggedOutline.Proofs.Header.Entries
import TaggedOutline.Proofs.Quoted
import TaggedOutline.Proofs.Overview
import TaggedOutline.Proofs.Layout
import TaggedOutline.Proofs.Header.Comment
import TaggedOutline.Proofs.Preorder
import TaggedOutline.Proofs.Grammar.Named
import TaggedOutline.Proofs.Header.Tag
import TaggedOutline.Proofs.Slices
import TaggedOutline.Proofs.Locator.Ranges
