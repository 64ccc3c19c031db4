import Mathlib.Data.List.Find
import GrammarKit.Parser.Cache
import GrammarKit.Proofs.Parser.Acceptance

/-!
# What a cache of parsers answers

A cache keeps the parser of the first grammar that was compiled with a text. What it answers for
a grammar is therefore what a new cache answers for that first one.

* `CacheRequest`, `ParserCache.after`: what is asked of a cache, and the cache after requests.
* `compiledSince`: the grammars asked for since the cache was last cleared.
* `ParserCache.Keeps`: a cache holds the parsers of the first grammars with their texts.
* **`parseWith_after`**: the answer after any requests.
* `parseWith_after_ne`: grammars with one text can have different values.
-/

namespace GrammarKit

open Peg

/-! ## Requests -/

/-- What is asked of a cache. -/
inductive CacheRequest where
  | compile (g : GrammarSource)
  | parseWith (g : GrammarSource) (text : String)
  | isCached (text : String)
  | clear

/-- The cache that a computation leaves; one that fails leaves the cache it found. -/
def ParserCache.left {α : Type} (cache : ParserCache) (r : Except CompileError (α × ParserCache)) :
    ParserCache :=
  match r with
  | .ok (_, cache) => cache
  | .error _ => cache

/-- The cache after a request. -/
def ParserCache.next (cache : ParserCache) : CacheRequest → ParserCache
  | .compile g => cache.left (cache.compile g)
  | .parseWith g text => cache.left (cache.parseWith g text)
  | .isCached _ => cache
  | .clear => cache.clear

/-- The cache after requests, one after the other. -/
def ParserCache.after (cache : ParserCache) (rs : List CacheRequest) : ParserCache :=
  rs.foldl ParserCache.next cache

/-- The grammars to compile so far, and with one more request. -/
def CacheRequest.addTo (gs : List GrammarSource) : CacheRequest → List GrammarSource
  | .compile g | .parseWith g _ => gs ++ [g]
  | .isCached _ => gs
  | .clear => []

/-- The grammars that requests compile, since the last request to clear. -/
def compiledSince (rs : List CacheRequest) : List GrammarSource := rs.foldl CacheRequest.addTo []

/-- The answer alone, without the cache. -/
def answerOf {α : Type} (r : Except CompileError (α × ParserCache)) : Except CompileError α :=
  r.map Prod.fst

/-! ## One grammar -/

namespace GrammarSource

/-- Whether a grammar has a parser. -/
def compiles (g : GrammarSource) : Bool := (compileGrammar g.text).isOk

theorem compiles_congr {g g' : GrammarSource} (h : g.text = g'.text) :
    g.compiles = g'.compiles := by
  rw [compiles, compiles, h]

theorem compiles_of_compile {g : GrammarSource} {serial : Nat} {p : CompiledParser}
    (h : g.compile serial = .ok p) : g.compiles = true := by
  rw [compiles]
  unfold compile at h
  split at h
  · simp_all [Except.isOk, Except.toBool]
  all_goals cases h

theorem key_of_compile {g : GrammarSource} {serial : Nat} {p : CompiledParser}
    (h : g.compile serial = .ok p) : p.key = .ofText g.text := by
  unfold compile at h
  split at h
  · cases h
    rfl
  all_goals cases h

theorem not_compiles_of_compile {g : GrammarSource} {serial : Nat} {e : CompileError}
    (h : g.compile serial = .error e) : g.compiles = false := by
  rw [compiles]
  unfold compile at h
  split at h
  · cases h
  all_goals simp_all [Except.isOk, Except.toBool]

/-- The serial number of a parser does not show in what it makes of a text. -/
theorem map_parse_compile (g : GrammarSource) (serial : Nat) (text : String) :
    (g.compile serial).map (·.parse text) = (g.compile 0).map (·.parse text) := by
  unfold compile
  cases compileGrammar g.text with
  | ok rules => rfl
  | error e => cases e <;> rfl

/-- A grammar that is refused is refused for its text. -/
theorem compile_congr_of_not_compiles {g g' : GrammarSource} (h : g.text = g'.text)
    (hg : g.compiles = false) (serial : Nat) : g.compile serial = g'.compile serial := by
  rw [compiles] at hg
  unfold compile
  rw [← h]
  cases hrules : compileGrammar g.text with
  | ok rules => simp [hrules, Except.isOk, Except.toBool] at hg
  | error e => cases e <;> rfl

end GrammarSource

namespace ParserCache

variable {cache : ParserCache} {g : GrammarSource} (text : String)

theorem answerOf_parseWith_of_find?_eq_some {p : CompiledParser}
    (h : cache.find? (.ofText g.text) = some p) :
    answerOf (cache.parseWith g text) = .ok (p.parse text) := by
  simp [answerOf, parseWith, compile, h, bind, Except.bind, pure, Except.pure, Except.map]

theorem answerOf_parseWith_of_find?_eq_none (h : cache.find? (.ofText g.text) = none) :
    answerOf (cache.parseWith g text) = (g.compile 0).map (·.parse text) := by
  rw [← g.map_parse_compile cache.compiled]
  cases hp : g.compile cache.compiled with
  | error e => simp [answerOf, parseWith, compile, h, hp, bind, Except.bind, Except.map]
  | ok p =>
    have hkey : find? ⟨cache.entries, cache.compiled + 1⟩ (.ofText g.text) = none := h
    simp [answerOf, parseWith, compile, h, hp, insert, hkey, bind, Except.bind, pure, Except.pure,
      Except.map]

/-- What a new cache answers. -/
theorem answerOf_parseWith_new :
    answerOf (({} : ParserCache).parseWith g text) = (g.compile 0).map (·.parse text) :=
  answerOf_parseWith_of_find?_eq_none text rfl

/-! ## What a cache holds -/

/-- Whether a grammar is compiled under a digest. -/
def isFor (key : Digest) (g : GrammarSource) : Bool :=
  decide (Digest.ofText g.text = key) && g.compiles

/-- A cache holds a parser for a digest if one of the grammars has one, and it is the parser of
the first of them. -/
def Keeps (cache : ParserCache) (gs : List GrammarSource) : Prop :=
  ∀ key, match gs.find? (isFor key) with
    | none => cache.find? key = none
    | some first => ∃ serial p, first.compile serial = .ok p ∧ cache.find? key = some p

theorem keeps_empty (compiled : Nat) : ParserCache.Keeps ⟨[], compiled⟩ [] := fun _ => rfl

/-- Where no other text has the digest of a grammar, its digest finds the grammars of its text. -/
theorem find?_isFor {gs : List GrammarSource}
    (hdigest : ∀ g' ∈ gs, Digest.ofText g'.text = Digest.ofText g.text → g'.text = g.text) :
    gs.find? (isFor (.ofText g.text)) =
      if g.compiles then gs.find? (·.text = g.text) else none := by
  have hfor (g' : GrammarSource) (hg' : g' ∈ gs) :
      isFor (.ofText g.text) g' = (decide (g'.text = g.text) && g.compiles) := by
    by_cases htext : g'.text = g.text
    · simp [isFor, htext, GrammarSource.compiles_congr htext]
    · have hother : Digest.ofText g'.text ≠ Digest.ofText g.text :=
        fun hd => htext (hdigest g' hg' hd)
      simp [isFor, htext, hother]
  rw [List.find?_congr hfor]
  cases g.compiles <;> simp

namespace Keeps

variable {gs : List GrammarSource}

/-- A grammar that adds no parser: one of the same text has it, or there is none. -/
theorem skip (h : cache.Keeps gs) {g : GrammarSource}
    (hg : g.compiles = true → (cache.find? (.ofText g.text)).isSome = true) :
    cache.Keeps (gs ++ [g]) := by
  intro key
  have hk := h key
  rw [List.find?_append]
  cases hfirst : gs.find? (isFor key) with
  | some first => simpa [hfirst] using hk
  | none =>
    have hnone : cache.find? key = none := by simpa [hfirst] using hk
    have hother : isFor key g = false := by
      rw [isFor, Bool.and_eq_false_iff, decide_eq_false_iff_not]
      by_contra! hboth
      obtain ⟨rfl, hcompiles⟩ := hboth
      simp [hnone, hcompiles] at hg
    simpa [hother] using hnone

/-- The parser of a new text. -/
theorem add (h : cache.Keeps gs) {g : GrammarSource} {p : CompiledParser} {serial : Nat}
    (hnone : cache.find? (.ofText g.text) = none) (hp : g.compile serial = .ok p)
    (compiled : Nat) :
    ParserCache.Keeps ⟨cache.entries ++ [(.ofText g.text, p)], compiled⟩ (gs ++ [g]) := by
  intro key
  have hk := h key
  rw [find?] at hk hnone
  rw [find?, List.lookup_append, List.find?_append]
  by_cases hg : Digest.ofText g.text = key
  · subst hg
    have hfirst : gs.find? (isFor (.ofText g.text)) = none := by
      cases hgs : gs.find? (isFor (.ofText g.text)) with
      | none => rfl
      | some first => simp [hgs, hnone] at hk
    have hfor : isFor (.ofText g.text) g = true := by
      simp [isFor, GrammarSource.compiles_of_compile hp]
    simp only [hfirst, hnone, Option.none_or, List.find?_cons, hfor, List.lookup_cons,
      beq_self_eq_true]
    exact ⟨serial, p, hp, rfl⟩
  · have hfor : isFor key g = false := by simp [isFor, hg]
    have hother : (key == Digest.ofText g.text) = false := beq_false_of_ne (Ne.symm hg)
    simp only [List.find?_cons, hfor, List.lookup_cons, hother, List.find?_nil, List.lookup_nil,
      Option.or_none]
    exact hk

/-- **What one more grammar does to a cache.** -/
theorem compile (h : cache.Keeps gs) (g : GrammarSource) :
    (cache.left (cache.compile g)).Keeps (gs ++ [g]) := by
  rw [ParserCache.compile]
  cases hfind : cache.find? (.ofText g.text) with
  | some p => exact h.skip fun _ => by simp [hfind]
  | none =>
    cases hcompile : g.compile cache.compiled with
    | error e => exact h.skip fun hc => by simp [GrammarSource.not_compiles_of_compile hcompile] at hc
    | ok p =>
      have hkey : ParserCache.find? ⟨cache.entries, cache.compiled + 1⟩ (.ofText g.text) = none :=
        hfind
      simp only [bind, Except.bind, pure, Except.pure, left, insert, hkey]
      exact h.add hfind hcompile _

/-- **What one request does to a cache.** -/
theorem next (h : cache.Keeps gs) (r : CacheRequest) : (cache.next r).Keeps (r.addTo gs) := by
  cases r with
  | compile g => exact h.compile g
  | parseWith g text =>
    have hleft : cache.left (cache.parseWith g text) = cache.left (cache.compile g) := by
      rw [parseWith]
      cases cache.compile g <;> rfl
    rw [ParserCache.next, hleft]
    exact h.compile g
  | isCached text => exact h
  | clear => exact keeps_empty _

/-- What requests do to a cache. -/
theorem after (h : cache.Keeps gs) (rs : List CacheRequest) :
    (cache.after rs).Keeps (rs.foldl CacheRequest.addTo gs) := by
  induction rs generalizing cache gs with
  | nil => exact h
  | cons r rs ih => exact ih (h.next r)

/-- What a cache answers for a grammar whose digest no other text has. -/
theorem answerOf_parseWith (h : cache.Keeps gs) (g : GrammarSource) (text : String)
    (hdigest : ∀ g' ∈ gs, Digest.ofText g'.text = Digest.ofText g.text → g'.text = g.text) :
    answerOf (cache.parseWith g text) =
      answerOf (({} : ParserCache).parseWith ((gs.find? (·.text = g.text)).getD g) text) := by
  have hfirst : gs.find? (isFor (.ofText g.text)) =
      if g.compiles then gs.find? (·.text = g.text) else none :=
    find?_isFor hdigest
  have htext : ((gs.find? (·.text = g.text)).getD g).text = g.text := by
    cases hgs : gs.find? (·.text = g.text) with
    | none => rfl
    | some first => simpa using List.find?_some hgs
  have hk := h (.ofText g.text)
  rw [hfirst] at hk
  rw [answerOf_parseWith_new]
  cases hcompiles : g.compiles with
  | false =>
    have hnone : cache.find? (.ofText g.text) = none := by simpa [hcompiles] using hk
    rw [answerOf_parseWith_of_find?_eq_none text hnone,
      GrammarSource.compile_congr_of_not_compiles htext.symm hcompiles]
  | true =>
    rw [hcompiles, if_pos rfl] at hk
    cases hgs : gs.find? (·.text = g.text) with
    | none =>
      rw [hgs] at hk
      exact answerOf_parseWith_of_find?_eq_none text hk
    | some first =>
      rw [hgs] at hk
      obtain ⟨serial, p, hp, hcached⟩ := hk
      rw [answerOf_parseWith_of_find?_eq_some text hcached, Option.getD_some,
        ← first.map_parse_compile serial, hp]
      rfl

end Keeps

/-- **What a cache answers after any requests**: what a new cache answers for the first grammar
with this text that was to be compiled since the cache was cleared. -/
theorem parseWith_after (rs : List CacheRequest) (g : GrammarSource) (text : String)
    (hdigest : ∀ g' ∈ compiledSince rs,
      Digest.ofText g'.text = Digest.ofText g.text → g'.text = g.text) :
    answerOf ((({} : ParserCache).after rs).parseWith g text) =
      answerOf (({} : ParserCache).parseWith
        (((compiledSince rs).find? (·.text = g.text)).getD g) text) :=
  ((keeps_empty 0).after rs).answerOf_parseWith g text hdigest

end ParserCache

/-! ## Grammars with one text -/

/-- A word under a property of a given name. -/
def Model.single (property : String) : Model :=
  ((new "Single" "Line").insert "Word" (.token (.literal "x"))).insert "Line"
    (.deduction [⟨"Word", some property⟩])

/-- A grammar without comments does not show the names of properties. -/
def GrammarConfig.bare : GrammarConfig := { includeComments := false }

theorem Model.isAccepted_single {property : String}
    (h : property = "first" ∨ property = "second") : (single property).IsAccepted .bare := by
  rcases h with rfl | rfl <;> exact {
    valid := by decide +kernel
    name := by decide
    version := by decide
    names := by decide +kernel
    apart := by decide +kernel
    patterns := by decide +kernel
    readable := by decide +kernel
    rules := by decide +kernel }

/-- What is made of a text that is just the word. -/
def Model.singleValue (property : String) : Json :=
  .object [("type", .string "Line"),
    (property, .object [("type", .string "Word"), ("value", .string "x")])]

/-- Two models have grammars with one text; a new cache tells them apart. -/
theorem Model.exists_single_grammars : ∃ one two,
    generateGrammar (single "first") .bare = .done one [] ∧
    generateGrammar (single "second") .bare = .done two [] ∧
    one.source.text = two.source.text ∧
    answerOf (({} : ParserCache).parseWith one.source "x") =
      .ok (.value (singleValue "first")) ∧
    answerOf (({} : ParserCache).parseWith two.source "x") =
      .ok (.value (singleValue "second")) := by
  have hone := isAccepted_single (Or.inl rfl)
  have htwo := isAccepted_single (Or.inr rfl)
  obtain ⟨one, hgone, hpone⟩ := hone.exists_compiled 0
  obtain ⟨two, hgtwo, hptwo⟩ := htwo.exists_compiled 0
  obtain ⟨_, hgone', hsone⟩ := hone.exists_grammar
  obtain ⟨_, hgtwo', hstwo⟩ := htwo.exists_grammar
  cases hgone.symm.trans hgone'
  cases hgtwo.symm.trans hgtwo'
  have hwarnone : leftRecursionWarnings (single "first").leftRecursive = [] := by decide +kernel
  have hwarntwo : leftRecursionWarnings (single "second").leftRecursive = [] := by decide +kernel
  refine ⟨one, two, hwarnone ▸ hgone, hwarntwo ▸ hgtwo, ?_, ?_, ?_⟩
  · rw [hsone, hstwo]
    decide +kernel
  · rw [ParserCache.answerOf_parseWith_new, hpone]
    rfl
  · rw [ParserCache.answerOf_parseWith_new, hptwo]
    rfl

/-- After the one of them, the other gets the answer of the one. -/
theorem ParserCache.parseWith_after_single : ∃ one two,
    generateGrammar (.single "first") .bare = .done one [] ∧
    generateGrammar (.single "second") .bare = .done two [] ∧
    (∀ g ∈ compiledSince [.parseWith one.source "x"],
      Digest.ofText g.text = Digest.ofText two.source.text → g.text = two.source.text) ∧
    answerOf ((({} : ParserCache).after [.parseWith one.source "x"]).parseWith two.source "x") =
      answerOf (({} : ParserCache).parseWith one.source "x") := by
  obtain ⟨one, two, hone, htwo, htext, -, -⟩ := Model.exists_single_grammars
  have hdigest : ∀ g ∈ compiledSince [.parseWith one.source "x"],
      Digest.ofText g.text = Digest.ofText two.source.text → g.text = two.source.text := by
    rintro g hg -
    obtain rfl := List.mem_singleton.1 hg
    exact htext
  refine ⟨one, two, hone, htwo, hdigest, ?_⟩
  have h := parseWith_after [.parseWith one.source "x"] two.source "x" hdigest
  simpa [compiledSince, CacheRequest.addTo, htext] using h

/-- **A cache that has been used can answer what a new one does not.** -/
theorem ParserCache.parseWith_after_ne : ∃ one two,
    generateGrammar (.single "first") .bare = .done one [] ∧
    generateGrammar (.single "second") .bare = .done two [] ∧
    answerOf ((({} : ParserCache).after [.parseWith one.source "x"]).parseWith two.source "x") =
      .ok (.value (Model.singleValue "first")) ∧
    answerOf (({} : ParserCache).parseWith two.source "x") =
      .ok (.value (Model.singleValue "second")) := by
  obtain ⟨one, two, hone, htwo, htext, hvone, hvtwo⟩ := Model.exists_single_grammars
  refine ⟨one, two, hone, htwo, ?_, hvtwo⟩
  rw [← hvone, ((keeps_empty 0).after _).answerOf_parseWith]
  · simp [CacheRequest.addTo, htext]
  · rintro g hg -
    obtain rfl := List.mem_singleton.1 hg
    exact htext

end GrammarKit
