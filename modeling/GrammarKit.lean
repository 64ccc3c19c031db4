import GrammarKit.Code.Bound
import GrammarKit.Code.Expression
import GrammarKit.Code.File
import GrammarKit.Code.Item
import GrammarKit.Code.Lexer
import GrammarKit.Code.Pattern
import GrammarKit.Code.Phrase
import GrammarKit.Code.Reader
import GrammarKit.Code.Statement
import GrammarKit.Code.Token
import GrammarKit.Code.Type
import GrammarKit.Code.TypePath
import GrammarKit.Compiler
import GrammarKit.Config
import GrammarKit.Digest
import GrammarKit.Generation
import GrammarKit.Grammar.Generator
import GrammarKit.Json
import GrammarKit.Json.Reader
import GrammarKit.Json.Record
import GrammarKit.Json.Writer
import GrammarKit.Model
import GrammarKit.Model.Document
import GrammarKit.Model.FirstSymbols
import GrammarKit.Model.Graph
import GrammarKit.Model.Nullable
import GrammarKit.Model.Reachability
import GrammarKit.Model.Validation
import GrammarKit.Naming.Casing
import GrammarKit.Naming.Names
import GrammarKit.Naming.Resolution
import GrammarKit.Notation.Failure
import GrammarKit.Notation.Lexeme
import GrammarKit.Notation.Reader
import GrammarKit.Parser.Cache
import GrammarKit.Parser.Value
import GrammarKit.Peg.Attempts
import GrammarKit.Peg.Builtin
import GrammarKit.Peg.Checks
import GrammarKit.Peg.Definition
import GrammarKit.Peg.Expr
import GrammarKit.Peg.Lexeme
import GrammarKit.Peg.Machine
import GrammarKit.Peg.Plan
import GrammarKit.Peg.Progress
import GrammarKit.Peg.Reader
import GrammarKit.Peg.Report
import GrammarKit.Proofs.Code.Identifier
import GrammarKit.Proofs.Code.Surroundings
import GrammarKit.Proofs.Grammar.StartRule
import GrammarKit.Proofs.Grammar.Text
import GrammarKit.Proofs.Model.Nullable
import GrammarKit.Proofs.Model.FirstSymbols
import GrammarKit.Proofs.Model.Reachability
import GrammarKit.Proofs.Model.Expansion
import GrammarKit.Proofs.Model.Valid
import GrammarKit.Proofs.Parser.Acceptance
import GrammarKit.Proofs.Parser.Cache
import GrammarKit.Proofs.Parser.Checks
import GrammarKit.Proofs.Parser.Halting
import GrammarKit.Proofs.Parser.Printing
import GrammarKit.Proofs.Parser.Reading
import GrammarKit.Proofs.Parser.Routines
import GrammarKit.Proofs.Parser.Termination
import GrammarKit.Proofs.Parser.Values
import GrammarKit.Proofs.Peg.Definitions
import GrammarKit.Proofs.Peg.Depth
import GrammarKit.Proofs.Peg.Expressions
import GrammarKit.Proofs.Peg.Gaps
import GrammarKit.Proofs.Peg.Halting
import GrammarKit.Proofs.Peg.Places
import GrammarKit.Proofs.Peg.Plain
import GrammarKit.Proofs.Peg.Planning
import GrammarKit.Proofs.Peg.Progress
import GrammarKit.Proofs.Peg.Readers
import GrammarKit.Proofs.Peg.Remainder
import GrammarKit.Proofs.Peg.Terminals
import GrammarKit.Proofs.Peg.Trivia
import GrammarKit.Proofs.Peg.Words
import GrammarKit.Proofs.Peg.Literals
import GrammarKit.Proofs.Regex.Lexical
import GrammarKit.Proofs.Regex.Normal
import GrammarKit.Proofs.Regex.Progress
import GrammarKit.Proofs.Text.Ascii
import GrammarKit.Regex.Basic
import GrammarKit.Regex.ClassReader
import GrammarKit.Regex.Elaboration
import GrammarKit.Regex.Escape
import GrammarKit.Regex.Intervals
import GrammarKit.Regex.Lowering
import GrammarKit.Regex.Property
import GrammarKit.Regex.Reader
import GrammarKit.Regex.Syntax
import GrammarKit.Schema.Generator
import GrammarKit.Schema.Items
import GrammarKit.Schema.Plan
import GrammarKit.Stringifier.Generator
import GrammarKit.Stringifier.Items
import GrammarKit.Stringify
import GrammarKit.Table
import GrammarKit.Text.Category
import GrammarKit.Text.CharSet
import GrammarKit.Text.Classes
import GrammarKit.Text.CodePoints
import GrammarKit.Text.Edition
import GrammarKit.Text.LetterCase
import GrammarKit.Text.Lines
import GrammarKit.Text.Position
import GrammarKit.Text.Property
import GrammarKit.Text.Script
import GrammarKit.Text.Segmentation
import GrammarKit.Text.Utf8
import GrammarKit.Proofs.Regex.Classes
import GrammarKit.Parser.Threads
import GrammarKit.Proofs.Parser.Threads
import GrammarKit.Proofs.Parser.EmptyText
import GrammarKit.Proofs.Json.Writing
import GrammarKit.Proofs.Model.Document
import GrammarKit.Proofs.Naming.Casing
import GrammarKit.Proofs.Naming.Resolution
import GrammarKit.Proofs.Naming.Plain
import GrammarKit.Proofs.Schema.Lookup
import GrammarKit.Proofs.Stringifier.Writers
import GrammarKit.Proofs.Schema.Alignment
import GrammarKit.Proofs.Code.TypeName
import GrammarKit.Proofs.Schema.Conversions
import GrammarKit.Proofs.Grammar.Reading
import GrammarKit.Proofs.Grammar.FreeText
import GrammarKit.Notation.Writer
import GrammarKit.Proofs.Notation.Layout
import GrammarKit.Proofs.Notation.Reading
import GrammarKit.Proofs.Regex.Matching
import GrammarKit.Proofs.Peg.Passes
import GrammarKit.Proofs.Regex.FirstBytes
import GrammarKit.Proofs.Regex.Spans
import GrammarKit.Proofs.Regex.Exact
import GrammarKit.Proofs.Parser.Tokens
import GrammarKit.Proofs.Peg.Yields
import GrammarKit.Proofs.Schema.Suffix
import GrammarKit.Proofs.Regex.Sound
import GrammarKit.Proofs.Parser.Patterns
import GrammarKit.Proofs.Naming.Affixes
import GrammarKit.Proofs.Compiler.Breakage
import GrammarKit.Proofs.Parser.Answers
import GrammarKit.Proofs.Compiler.Pipeline
import GrammarKit.Proofs.Naming.Collisions
import GrammarKit.Proofs.Stringify.Offences
import GrammarKit.Proofs.Notation.Source
import GrammarKit.Proofs.Code.Layout
import GrammarKit.Proofs.Schema.Layout
import GrammarKit.Proofs.Stringifier.Layout
import GrammarKit.Proofs.Naming.Separation
import GrammarKit.Proofs.Regex.ByteWords
import GrammarKit.Proofs.Regex.Starts
import GrammarKit.Proofs.Text.Position
import GrammarKit.Proofs.Notation.Stops
import GrammarKit.Regex.Choices
import GrammarKit.Proofs.Parser.Choices
import GrammarKit.Proofs.Peg.Recursion
import GrammarKit.Proofs.Peg.Blanks
import GrammarKit.Proofs.Parser.Passing
import GrammarKit.Proofs.Parser.LeftRecursion
import GrammarKit.Proofs.Compiler.Warnings
import GrammarKit.Proofs.Parser.Respacing
import GrammarKit.Proofs.Parser.RoundTrip
