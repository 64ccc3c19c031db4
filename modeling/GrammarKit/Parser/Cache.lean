import GrammarKit.Digest
import GrammarKit.Parser.Value
import GrammarKit.Peg.Checks

/-!
# Parsers and their cache

A grammar text is compiled once and kept under its digest. A text that is compiled already gives
the parser at hand, with the start rule and shapes that it was compiled with.

* `GrammarSource`: what is compiled.
* `CompiledParser`, `CompiledParser.parse`: a parser and what it makes of a text.
* `ParserCache`, `ParserCache.compile`, `ParserCache.parseWith`: the cache.
-/

namespace GrammarKit

open Peg

/-- A grammar text with its start rule and the shapes of its rules. -/
structure GrammarSource where
  text : String
  startRule : String
  shapes : List (String × Shape)
deriving Repr, DecidableEq

/-- What of a generated grammar is compiled. -/
def Grammar.source (g : Grammar) : GrammarSource :=
  ⟨g.text, g.startRule, g.rules.map fun r => (r.name, r.shape)⟩

/-- **A compiled parser.** -/
structure CompiledParser where
  /-- Tells parsers apart that were compiled at different times. -/
  serial : Nat
  key : Digest
  startRule : String
  routines : List Routine
  shapes : Table Shape
deriving DecidableEq

/-- What becomes of a text. -/
inductive ParseResult where
  | value (j : Json)
  | error (e : ParseError)
  /-- No answer: the start rule is not defined, or the grammar runs without end. -/
  | stuck
deriving BEq

namespace CompiledParser

/-- What a parser makes of a text. -/
def parse (p : CompiledParser) (text : String) : ParseResult :=
  let input := text.toList
  match Peg.parseWith p.routines p.startRule input with
  | .matched trees _ =>
    match valueOfParse p.shapes input trees with
    | .ok j => .value j
    | .error e => .error e
  | .failed _ a => .error (.before input a.left a.expectation)
  | .stuck => .stuck

/-- A short description. -/
def describe (p : CompiledParser) : String :=
  "CompiledParser \x7b start_rule: " ++ Code.debugText p.startRule ++ ", rules: " ++
    toString p.shapes.size ++ ", .. \x7d"

end CompiledParser

/-- Why a grammar gives no parser. -/
inductive CompileError where
  | refused (messages : List String)
  /-- A part of the grammar has no meaning at all. -/
  | senseless
deriving Repr, DecidableEq

/-- The report of reasons. -/
def compileMessage (messages : List String) : String :=
  "grammar failed to compile: " ++ "; ".intercalate messages

/-- The parser of a grammar, by itself. -/
def GrammarSource.compile (g : GrammarSource) (serial : Nat) :
    Except CompileError CompiledParser :=
  match compileGrammar g.text with
  | .ok rules => .ok {
      serial
      key := .ofText g.text
      startRule := g.startRule
      routines := planGrammar rules
      shapes := .ofList g.shapes }
  | .error (.refused reports) => .error (.refused reports)
  | .error .senseless => .error .senseless

/-- **A cache of parsers**, a table by the digests of texts. -/
structure ParserCache where
  entries : List (Digest × CompiledParser) := []
  /-- The number of parsers compiled so far. -/
  compiled : Nat := 0
deriving Inhabited

namespace ParserCache

/-- The parser under a digest. -/
def find? (cache : ParserCache) (key : Digest) : Option CompiledParser := cache.entries.lookup key

/-- Whether a text is compiled already. -/
def isCached (cache : ParserCache) (text : String) : Bool := (cache.find? (.ofText text)).isSome

/-- The number of parsers. -/
def size (cache : ParserCache) : Nat := cache.entries.length

/-- The cache without its parsers. -/
def clear (cache : ParserCache) : ParserCache := { cache with entries := [] }

/-- The parser under a digest and the cache that has it there: the one that stands there already, or
else `p`. -/
def insert (cache : ParserCache) (key : Digest) (p : CompiledParser) :
    CompiledParser × ParserCache :=
  match cache.find? key with
  | some first => (first, cache)
  | none => (p, { cache with entries := cache.entries ++ [(key, p)] })

/-- The parser of a grammar and the cache that holds it. A grammar that is refused leaves the
cache as it was. -/
def compile (cache : ParserCache) (g : GrammarSource) :
    Except CompileError (CompiledParser × ParserCache) :=
  match cache.find? (.ofText g.text) with
  | some p => .ok (p, cache)
  | none => do
    let p ← g.compile cache.compiled
    return ParserCache.insert { cache with compiled := cache.compiled + 1 } (.ofText g.text) p

/-- What the parser of a grammar makes of a text. -/
def parseWith (cache : ParserCache) (g : GrammarSource) (text : String) :
    Except CompileError (ParseResult × ParserCache) := do
  let (p, cache) ← cache.compile g
  return (p.parse text, cache)

end ParserCache

end GrammarKit
