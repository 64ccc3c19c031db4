import Mathlib.Data.Finset.Card
import Mathlib.Data.Finset.Image
import GrammarKit.Parser.Threads
import GrammarKit.Proofs.Parser.Cache

/-!
# Threads that share a cache

Whatever the order of their steps, threads get along with one parser per text: the one that came
first stays until the cache is cleared, and a parser that was given stays what it is.

* `ParserCache.insert_cases`: the two ways of putting a parser into a cache.
* `SharedCache.IsSound`: entries stand under the digests of accepted texts, each digest once.
* `Step.find?_eq_some`, `Step.of_isHarmless`: what single steps leave alone.
* `SharedCache.Accounts`: the entries are the parsers that were given.
* `SharedCache.run_compile`: one thread by itself compiles as the cache does.
* **`SharedCache.run_isSafe`**: what holds after any steps of any threads.
-/

namespace GrammarKit

/-! ## Putting a parser into a cache -/

namespace ParserCache

variable {cache cache' : ParserCache} {p q : CompiledParser} {key : Digest}

theorem mem_entries (h : cache.find? key = some p) : (key, p) ∈ cache.entries := by
  obtain ⟨front, back, hentries, -⟩ := List.lookup_eq_some_iff.1 h
  rw [hentries]
  exact List.mem_append_right _ List.mem_cons_self

/-- **Putting a parser into a cache**: there is one under the digest, or it comes last. -/
theorem insert_cases (h : cache.insert key p = (q, cache')) :
    cache.find? key = some q ∧ cache' = cache ∨
      cache.find? key = none ∧ q = p ∧
        cache' = { cache with entries := cache.entries ++ [(key, p)] } := by
  rw [insert] at h
  split at h
  · rename_i hfind
    cases h
    exact .inl ⟨hfind, rfl⟩
  · rename_i hfind
    cases h
    exact .inr ⟨hfind, rfl, rfl⟩

theorem find?_insert_self (h : cache.insert key p = (q, cache')) : cache'.find? key = some q := by
  obtain ⟨hfind, rfl⟩ | ⟨hfind, rfl, rfl⟩ := insert_cases h
  · exact hfind
  · rw [find?] at hfind ⊢
    rw [List.lookup_append, hfind]
    simp

theorem find?_insert (h : cache.insert key p = (q, cache')) {other : Digest} {r : CompiledParser}
    (hr : cache.find? other = some r) : cache'.find? other = some r := by
  obtain ⟨-, rfl⟩ | ⟨-, -, rfl⟩ := insert_cases h
  · exact hr
  · rw [find?] at hr ⊢
    rw [List.lookup_append, hr]
    rfl

theorem compiled_insert (h : cache.insert key p = (q, cache')) : cache'.compiled = cache.compiled := by
  obtain ⟨-, rfl⟩ | ⟨-, -, rfl⟩ := insert_cases h <;> rfl

end ParserCache

theorem GrammarSource.serial_of_compile {g : GrammarSource} {serial : Nat} {p : CompiledParser}
    (h : g.compile serial = .ok p) : p.serial = serial := by
  unfold compile at h
  split at h
  · cases h
    rfl
  all_goals cases h

/-! ## What is seen -/

namespace ThreadEvent

/-- The text that was compiled with success. -/
def text? : ThreadEvent → Option String
  | given g _ => some g.text
  | _ => none

/-- The parser that was built. -/
def builtParser? : ThreadEvent → Option CompiledParser
  | built _ p => some p
  | _ => none

/-- Whether nothing came of a step: a text was not found, a grammar was refused, or a parser was
used. -/
def isHarmless : ThreadEvent → Bool
  | missed _ | refused .. | parsed .. => true
  | built .. | given .. | cleared => false

end ThreadEvent

/-- The texts that were compiled with success. -/
def compiledTexts {ι : Type} (es : List (ι × ThreadEvent)) : List String :=
  es.filterMap (·.2.text?)

/-- The parsers that were built. -/
def builtParsers {ι : Type} (es : List (ι × ThreadEvent)) : List CompiledParser :=
  es.filterMap (·.2.builtParser?)

theorem mem_compiledTexts {ι : Type} {es : List (ι × ThreadEvent)} {text : String} :
    text ∈ compiledTexts es ↔ ∃ t g p, (t, .given g p) ∈ es ∧ g.text = text := by
  constructor
  · intro h
    obtain ⟨⟨t, e⟩, he, htext⟩ := List.mem_filterMap.1 h
    cases e with
    | given g p => exact ⟨t, g, p, he, Option.some.inj htext⟩
    | missed | built | refused | parsed | cleared => cases htext
  · rintro ⟨t, g, p, he, rfl⟩
    exact List.mem_filterMap.2 ⟨_, he, rfl⟩

namespace SharedCache

variable {ι : Type} [DecidableEq ι] {s s' start : SharedCache ι} {t : ι} {e : ThreadEvent}
  {es : List (ι × ThreadEvent)}

@[simp] theorem cache_enter (stage : Stage) : (s.enter t stage).cache = s.cache := rfl

@[simp] theorem cache_give (p : CompiledParser) : (s.give t p).cache = s.cache := rfl

omit [DecidableEq ι] in
@[simp] theorem cache_withCache (cache : ParserCache) : (s.withCache cache).cache = cache := rfl

/-! ## Single steps -/

/-- Entries of a cache stand under the digests of accepted texts, each digest once, and so will
those that are built. -/
structure IsSound (s : SharedCache ι) : Prop where
  entries : ∀ e ∈ s.cache.entries, ∃ g serial, GrammarSource.compile g serial = .ok e.2 ∧
    e.1 = .ofText g.text
  nodup : (s.cache.entries.map Prod.fst).Nodup
  built : ∀ {t g p}, s.stage t = .built g p → ∃ serial, g.compile serial = .ok p

namespace IsSound

omit [DecidableEq ι] in
theorem new : ({} : SharedCache ι).IsSound where
  entries := List.forall_mem_nil _
  nodup := List.nodup_nil
  built h := by cases h

/-- Another stage of a thread. -/
theorem enter (h : s.IsSound) {stage : Stage}
    (hstage : ∀ {g p}, stage = .built g p → ∃ serial, g.compile serial = .ok p) :
    (s.enter t stage).IsSound where
  entries := h.entries
  nodup := h.nodup
  built {u g p} hu := by
    simp only [SharedCache.enter] at hu
    split at hu
    · exact hstage hu
    · exact h.built hu

theorem give (h : s.IsSound) (p : CompiledParser) : (s.give t p).IsSound :=
  have hidle : (s.enter t .idle).IsSound := h.enter fun hstage => by cases hstage
  ⟨hidle.entries, hidle.nodup, hidle.built⟩

omit [DecidableEq ι] in
/-- A parser that was built is put into the cache. -/
theorem insert (h : s.IsSound) {g : GrammarSource} {p q : CompiledParser} {cache : ParserCache}
    (hstage : s.stage t = .built g p) (hinsert : s.cache.insert (.ofText g.text) p = (q, cache)) :
    (s.withCache cache).IsSound := by
  obtain ⟨-, rfl⟩ | ⟨hnone, -, rfl⟩ := ParserCache.insert_cases hinsert
  · exact h
  · refine ⟨?_, ?_, h.built⟩
    · obtain ⟨serial, hcompile⟩ := h.built hstage
      exact List.forall_mem_append.2
        ⟨h.entries, List.forall_mem_singleton.2 ⟨g, serial, hcompile, rfl⟩⟩
    · have hfresh : ∀ e ∈ s.cache.entries, e.1 ≠ .ofText g.text := fun e he hkey => by
        simpa [hkey] using List.lookup_eq_none_iff.1 hnone e he
      simpa [List.nodup_append, h.nodup] using fun key r hr => hfresh (key, r) hr

end IsSound

namespace Step

/-- **A step keeps a cache sound.** -/
theorem isSound (h : Step s t e s') (hs : s.IsSound) : s'.IsSound := by
  cases h with
  | hit hstage hp => exact hs.give _
  | miss hstage hnone => exact hs.enter fun hstage => by cases hstage
  | build hstage hp =>
    have hcount : (s.withCache { s.cache with compiled := s.cache.compiled + 1 }).IsSound :=
      ⟨hs.entries, hs.nodup, hs.built⟩
    refine hcount.enter fun hbuilt => ?_
    cases hbuilt
    exact ⟨_, hp⟩
  | refuse hstage he => exact hs.enter fun hstage => by cases hstage
  | insert hstage hinsert => exact (hs.insert hstage hinsert).give _
  | parse text hstage hp => exact hs
  | clear hstage => exact ⟨List.forall_mem_nil _, List.nodup_nil, hs.built⟩

/-- **No step replaces an entry**, and only clearing removes one. -/
theorem find?_eq_some (h : Step s t e s') (he : e ≠ .cleared) {key : Digest} {p : CompiledParser}
    (hp : s.cache.find? key = some p) : s'.cache.find? key = some p := by
  cases h with
  | hit | miss | build | refuse | parse => exact hp
  | insert hstage hinsert => exact ParserCache.find?_insert hinsert hp
  | clear => exact absurd rfl he

/-- **A step of which nothing comes** changes only where its thread stands. -/
theorem of_isHarmless (h : Step s t e s') (he : e.isHarmless = true) :
    s'.cache = s.cache ∧ s'.handed = s.handed ∧ ∀ u, u ≠ t → s'.stage u = s.stage u := by
  cases h with
  | miss | refuse => exact ⟨rfl, rfl, fun u hu => if_neg hu⟩
  | parse => exact ⟨rfl, rfl, fun _ _ => rfl⟩
  | hit | build | insert | clear => cases he

/-- A step takes no parser from a thread. -/
theorem mem_handed (h : Step s t e s') {u : ι} {p : CompiledParser} (hp : p ∈ s.handed u) :
    p ∈ s'.handed u := by
  have hgive (r : CompiledParser) : p ∈ (s.give t r).handed u := by
    simp only [give]
    split
    · exact List.mem_append_left _ hp
    · exact hp
  cases h with
  | hit | insert => exact hgive _
  | miss | build | refuse | parse | clear => exact hp

/-- A thread holds what it was given. -/
theorem mem_handed_given {g : GrammarSource} {p : CompiledParser} (h : Step s t (.given g p) s') :
    p ∈ s'.handed t := by
  have hgive (s : SharedCache ι) : p ∈ (s.give t p).handed t := by
    simp [give]
  cases h with
  | hit => exact hgive s
  | insert => exact hgive _

/-- What a thread was given is in the cache, under the digest of its text. -/
theorem find?_given {g : GrammarSource} {p : CompiledParser} (h : Step s t (.given g p) s') :
    s'.cache.find? (.ofText g.text) = some p := by
  cases h with
  | hit hstage hp => exact hp
  | insert hstage hinsert => exact ParserCache.find?_insert_self hinsert

end Step

/-! ## Entries and what was given -/

/-- **The entries of a cache are the parsers that were given**, under the digests of their texts. -/
structure Accounts (es : List (ι × ThreadEvent)) (s : SharedCache ι) : Prop where
  given : ∀ {t g p}, (t, .given g p) ∈ es → s.cache.find? (.ofText g.text) = some p
  entries : ∀ entry ∈ s.cache.entries, ∃ text ∈ compiledTexts es, entry.1 = .ofText text

theorem Accounts.step (h : Accounts es s) (hstep : Step s t e s')
    (he : e ≠ .cleared) : Accounts (es ++ [(t, e)]) s' where
  given {u g p} hmem := by
    rcases List.mem_append.1 hmem with hmem | hmem
    · exact hstep.find?_eq_some he (h.given hmem)
    · cases List.mem_singleton.1 hmem
      exact hstep.find?_given
  entries := by
    have hold : ∀ entry ∈ s.cache.entries, ∃ text ∈ compiledTexts (es ++ [(t, e)]),
        entry.1 = .ofText text := by
      intro entry hentry
      obtain ⟨text, htext, hkey⟩ := h.entries entry hentry
      refine ⟨text, ?_, hkey⟩
      rw [compiledTexts, List.filterMap_append]
      exact List.mem_append_left _ htext
    cases hstep with
    | hit | miss | build | refuse | parse => exact hold
    | @insert g _ q _ hstage hinsert =>
      obtain ⟨-, rfl⟩ | ⟨-, -, rfl⟩ := ParserCache.insert_cases hinsert
      · exact hold
      · exact List.forall_mem_append.2 ⟨hold, List.forall_mem_singleton.2
          ⟨g.text, mem_compiledTexts.2 ⟨t, g, q, by simp, rfl⟩, rfl⟩⟩
    | clear => exact absurd rfl he

omit [DecidableEq ι] in
/-- Entries are counted by texts, where no two texts have one digest. -/
theorem Accounts.size_eq (h : Accounts es s) (hs : s.IsSound)
    (hdigest : Set.InjOn Digest.ofText {text | text ∈ compiledTexts es}) :
    s.cache.size = (compiledTexts es).toFinset.card := by
  have hkeys : (s.cache.entries.map Prod.fst).toFinset =
      (compiledTexts es).toFinset.image Digest.ofText := by
    ext key
    simp only [List.mem_toFinset, Finset.mem_image, List.mem_map]
    constructor
    · rintro ⟨entry, hentry, rfl⟩
      obtain ⟨text, htext, hkey⟩ := h.entries entry hentry
      exact ⟨text, htext, hkey.symm⟩
    · rintro ⟨text, htext, rfl⟩
      obtain ⟨t, g, p, hmem, rfl⟩ := mem_compiledTexts.1 htext
      exact ⟨_, ParserCache.mem_entries (h.given hmem), rfl⟩
  calc s.cache.size
      = (s.cache.entries.map Prod.fst).length := by rw [List.length_map]; rfl
    _ = (s.cache.entries.map Prod.fst).toFinset.card :=
        (List.toFinset_card_of_nodup hs.nodup).symm
    _ = (compiledTexts es).toFinset.card := by
        rw [hkeys, Finset.card_image_of_injOn]
        simpa using hdigest

/-! ## Runs -/

namespace Run

theorem isSound (h : Run start es s) (hstart : start.IsSound) : s.IsSound := by
  induction h with
  | refl => exact hstart
  | step _ hstep ih => exact hstep.isSound ih

/-- Where nothing is cleared, entries stay. -/
theorem find?_eq_some (h : Run start es s) (hes : ∀ x ∈ es, x.2 ≠ .cleared) {key : Digest}
    {p : CompiledParser} (hp : start.cache.find? key = some p) : s.cache.find? key = some p := by
  induction h with
  | refl => exact hp
  | step _ hstep ih =>
    obtain ⟨hes, he⟩ := List.forall_mem_append.1 hes
    exact hstep.find?_eq_some (he _ List.mem_cons_self) (ih hes)

theorem accounts (h : Run {} es s) (hes : ∀ x ∈ es, x.2 ≠ .cleared) : Accounts es s := by
  induction h with
  | refl => exact ⟨fun hmem => (List.not_mem_nil hmem).elim, List.forall_mem_nil _⟩
  | step _ hstep ih =>
    obtain ⟨hes, he⟩ := List.forall_mem_append.1 hes
    exact (ih hes).step hstep (he _ List.mem_cons_self)

/-- A thread holds all that it was given, whatever is cleared. -/
theorem mem_handed (h : Run start es s) {t : ι} {g : GrammarSource} {p : CompiledParser}
    (hmem : (t, .given g p) ∈ es) : p ∈ s.handed t := by
  induction h with
  | refl => cases hmem
  | step _ hstep ih =>
    rcases List.mem_append.1 hmem with hmem | hmem
    · exact hstep.mem_handed (ih hmem)
    · cases List.mem_singleton.1 hmem
      exact hstep.mem_handed_given

/-- What is made of a text depends on the parser alone. -/
theorem parsed_eq (h : Run start es s) {t : ι} {p : CompiledParser} {text : String}
    {r : ParseResult} (hmem : (t, .parsed p text r) ∈ es) : r = p.parse text := by
  induction h with
  | refl => cases hmem
  | step _ hstep ih =>
    rcases List.mem_append.1 hmem with hmem | hmem
    · exact ih hmem
    · cases List.mem_singleton.1 hmem
      cases hstep
      rfl

/-- Every parser that is built has a serial number of its own. -/
theorem serials (h : Run {} es s) :
    ((builtParsers es).map CompiledParser.serial).Nodup ∧
      ∀ p ∈ builtParsers es, p.serial < s.cache.compiled := by
  induction h with
  | refl => exact ⟨List.nodup_nil, List.forall_mem_nil _⟩
  | @step es s t e s' _ hstep ih =>
    obtain ⟨hnodup, hless⟩ := ih
    have happend : builtParsers (es ++ [(t, e)]) = builtParsers es ++ e.builtParser?.toList := by
      cases e <;> simp [builtParsers, ThreadEvent.builtParser?]
    rw [happend]
    cases hstep with
    | hit | miss | refuse | parse | clear => simpa [ThreadEvent.builtParser?] using ⟨hnodup, hless⟩
    | insert hstage hinsert =>
      have hcompiled := ParserCache.compiled_insert hinsert
      simpa [ThreadEvent.builtParser?, hcompiled] using ⟨hnodup, hless⟩
    | @build _ p _ hp =>
      have hserial : p.serial = s.cache.compiled := GrammarSource.serial_of_compile hp
      have hfresh : ∀ q ∈ builtParsers es, q.serial ≠ p.serial := fun q hq =>
        hserial ▸ (hless q hq).ne
      constructor
      · simpa [ThreadEvent.builtParser?, List.nodup_append, hnodup] using hfresh
      · refine List.forall_mem_append.2 ⟨fun q hq => Nat.lt_succ_of_lt (hless q hq), ?_⟩
        exact List.forall_mem_singleton.2 (hserial ▸ Nat.lt_succ_self _)

end Run

/-! ## One thread -/

/-- **A thread by itself compiles as the cache does.** -/
theorem run_compile (hidle : s.stage t = .idle) (g : GrammarSource) :
    ∃ es s', Run s es s' ∧ match s.cache.compile g with
      | .ok (p, cache) => s'.cache = cache ∧ (t, .given g p) ∈ es
      | .error e => s'.cache = s.cache ∧ (t, .refused g e) ∈ es := by
  cases hfind : s.cache.find? (.ofText g.text) with
  | some p =>
    refine ⟨_, _, .step .refl (.hit hidle hfind), ?_⟩
    simp [ParserCache.compile, hfind]
  | none =>
    have hmissed : Run s [(t, .missed g)] (s.enter t (.missed g)) := .step .refl (.miss hidle hfind)
    have hstage : (s.enter t (.missed g)).stage t = .missed g := if_pos rfl
    cases hcompile : g.compile s.cache.compiled with
    | error e =>
      refine ⟨_, _, .step hmissed (.refuse hstage hcompile), ?_⟩
      simp [ParserCache.compile, hfind, hcompile, bind, Except.bind]
    | ok p =>
      have hbuilt := Run.step hmissed (.build hstage hcompile)
      refine ⟨_, _, .step hbuilt (.insert (if_pos rfl) rfl), ?_⟩
      have hcache : s.cache.compile g =
          .ok (ParserCache.insert { s.cache with compiled := s.cache.compiled + 1 }
            (.ofText g.text) p) := by
        rw [ParserCache.compile, hfind]
        simp only [hcompile]
        rfl
      rw [hcache]
      exact ⟨rfl, by simp⟩

/-! ## Safety -/

/-- **What holds after any steps of any threads**: every entry is the parser of an accepted text,
under its digest; entries are not replaced; what fails changes nothing; until the cache is cleared
each text has one parser, and the cache as many entries as there are texts; and parsers that were
given stay what they are, whatever is cleared. -/
theorem run_isSafe (h : Run {} es s) :
    (∀ key p, s.cache.find? key = some p → p.key = key ∧ ∃ text rules, key = .ofText text ∧
      Peg.compileGrammar text = .ok rules ∧ p.routines = Peg.planGrammar rules) ∧
    (∀ more s', Run s more s' → (∀ x ∈ more, x.2 ≠ .cleared) →
      ∀ key p, s.cache.find? key = some p → s'.cache.find? key = some p) ∧
    (∀ t e s', Step s t e s' → e.isHarmless = true →
      s'.cache = s.cache ∧ s'.handed = s.handed ∧ ∀ u, u ≠ t → s'.stage u = s.stage u) ∧
    ((∀ x ∈ es, x.2 ≠ .cleared) →
      (∀ t g p t' g' p', (t, .given g p) ∈ es → (t', .given g' p') ∈ es → g.text = g'.text →
        p = p') ∧
      (Set.InjOn Digest.ofText {text | text ∈ compiledTexts es} →
        s.cache.size = (compiledTexts es).toFinset.card)) ∧
    ((builtParsers es).map CompiledParser.serial).Nodup ∧
    (∀ t g p, (t, .given g p) ∈ es → p ∈ s.handed t) ∧
    ∀ t p text r, (t, .parsed p text r) ∈ es → r = p.parse text := by
  have hsound := h.isSound .new
  refine ⟨fun key p hp => ?_, fun more s' hmore hes key p hp => hmore.find?_eq_some hes hp,
    fun t e s' hstep he => hstep.of_isHarmless he, fun hes => ⟨?_, (h.accounts hes).size_eq hsound⟩,
    h.serials.1, fun t g p hmem => h.mem_handed hmem, fun t p text r hmem => h.parsed_eq hmem⟩
  · obtain ⟨g, serial, hcompile, rfl⟩ := hsound.entries _ (ParserCache.mem_entries hp)
    obtain ⟨rules, hrules, -, hroutines, -⟩ := compile_eq_ok hcompile
    exact ⟨GrammarSource.key_of_compile hcompile, g.text, rules, rfl, hrules, hroutines⟩
  · intro t g p t' g' p' hmem hmem' htext
    have hp := (h.accounts hes).given hmem
    rw [htext, (h.accounts hes).given hmem'] at hp
    exact (Option.some.inj hp).symm

/-- Two threads that both find no parser for a text end up with the same one. -/
theorem run_isSafe_pairs : ∃ (s : SharedCache Bool) (g : GrammarSource)
    (mine yours first second : CompiledParser),
    Run {} [(true, .missed g), (false, .missed g), (true, .built g mine), (false, .built g yours),
      (false, .given g first), (true, .given g second)] s ∧
    first = second ∧ s.cache.size = 1 ∧ mine.serial ≠ yours.serial := by
  obtain ⟨g, hg, hmine⟩ := Model.isAccepted_pairs.exists_compiled 0
  obtain ⟨g', hg', hyours⟩ := Model.isAccepted_pairs.exists_compiled 1
  cases hg.symm.trans hg'
  have hmissed : Run ({} : SharedCache Bool) [(true, .missed g.source), (false, .missed g.source)] _ :=
    .step (.step .refl (.miss rfl rfl)) (.miss rfl rfl)
  have hbuilt := Run.step (Run.step hmissed (.build (t := true) rfl hmine))
    (.build (t := false) rfl hyours)
  have hgiven := Run.step (Run.step hbuilt (.insert (t := false) rfl Prod.mk.eta.symm))
    (.insert (t := true) rfl Prod.mk.eta.symm)
  obtain ⟨-, -, -, huncleared, hserials, -⟩ := run_isSafe hgiven
  obtain ⟨hsame, hsize⟩ := huncleared (by simp)
  refine ⟨_, g.source, _, _, _, _, hgiven, ?_, ?_, ?_⟩
  · exact hsame false g.source _ true g.source _ (by simp) (by simp) rfl
  · rw [hsize]
    all_goals simp [compiledTexts, ThreadEvent.text?]
  · simpa [builtParsers, ThreadEvent.builtParser?] using hserials

end SharedCache

end GrammarKit
