import GrammarKit.Parser.Cache

/-!
# A cache that threads share

Threads compile grammars in small steps, which mix in any order: a thread looks a text up, builds a
parser for itself if there is none, and puts it into the cache unless another thread was faster.
Looking up, putting in and clearing are each one step of the cache; building and parsing leave it
alone.

* `Stage`, `SharedCache`: where each thread stands, what it was given, and the cache.
* `ThreadEvent`, `SharedCache.Step`: the steps, and what is seen of them.
* `SharedCache.Run`: any number of steps of any threads.
-/

namespace GrammarKit

/-- Where a thread stands on its way to a parser. -/
inductive Stage where
  /-- Between two requests. -/
  | idle
  /-- The cache has no parser for the grammar. -/
  | missed (g : GrammarSource)
  /-- There is a parser for the grammar, but the cache does not know of it. -/
  | built (g : GrammarSource) (p : CompiledParser)

/-- **A cache that the threads of `ι` share**, new at the start. -/
structure SharedCache (ι : Type) where
  cache : ParserCache := {}
  stage : ι → Stage := fun _ => .idle
  /-- The parsers that a thread was given. -/
  handed : ι → List CompiledParser := fun _ => []

/-- What is seen of a step. -/
inductive ThreadEvent where
  /-- A text was looked up and not found. -/
  | missed (g : GrammarSource)
  | built (g : GrammarSource) (p : CompiledParser)
  /-- A grammar was compiled without success. -/
  | refused (g : GrammarSource) (e : CompileError)
  /-- A grammar was compiled with success. -/
  | given (g : GrammarSource) (p : CompiledParser)
  | parsed (p : CompiledParser) (text : String) (r : ParseResult)
  | cleared

namespace SharedCache

variable {ι : Type} [DecidableEq ι]

/-- The same with thread `t` at another stage. -/
def enter (s : SharedCache ι) (t : ι) (stage : Stage) : SharedCache ι :=
  { s with stage := fun u => if u = t then stage else s.stage u }

/-- The same with thread `t` given a parser, and between two requests again. -/
def give (s : SharedCache ι) (t : ι) (p : CompiledParser) : SharedCache ι :=
  { s.enter t .idle with handed := fun u => if u = t then s.handed u ++ [p] else s.handed u }

/-- The same with another cache. -/
def withCache (s : SharedCache ι) (cache : ParserCache) : SharedCache ι := { s with cache }

/-- **A step of thread `t`.** -/
inductive Step : SharedCache ι → ι → ThreadEvent → SharedCache ι → Prop
  | hit {s t g p} : s.stage t = .idle → s.cache.find? (.ofText g.text) = some p →
    Step s t (.given g p) (s.give t p)
  | miss {s t g} : s.stage t = .idle → s.cache.find? (.ofText g.text) = none →
    Step s t (.missed g) (s.enter t (.missed g))
  | build {s t g p} : s.stage t = .missed g → g.compile s.cache.compiled = .ok p →
    Step s t (.built g p)
      ((s.withCache { s.cache with compiled := s.cache.compiled + 1 }).enter t (.built g p))
  | refuse {s t g e} : s.stage t = .missed g → g.compile s.cache.compiled = .error e →
    Step s t (.refused g e) (s.enter t .idle)
  | insert {s t g p q cache} : s.stage t = .built g p →
    s.cache.insert (.ofText g.text) p = (q, cache) →
    Step s t (.given g q) ((s.withCache cache).give t q)
  | parse {s t p} (text : String) : s.stage t = .idle → p ∈ s.handed t →
    Step s t (.parsed p text (p.parse text)) s
  | clear {s t} : s.stage t = .idle → Step s t .cleared (s.withCache s.cache.clear)

/-- **Steps of any threads**, one after the other, with what is seen of them. -/
inductive Run (start : SharedCache ι) : List (ι × ThreadEvent) → SharedCache ι → Prop
  | refl : Run start [] start
  | step {es s t e s'} : Run start es s → Step s t e s' → Run start (es ++ [(t, e)]) s'

end SharedCache

end GrammarKit
