import GrammarKit.Regex.Matching
import GrammarKit.Regex.Lowering

/-!
# Choices that are settled at once

A choice in a grammar keeps to the first branch that matches. A repetition is refused if the byte
that could go on with it may start what follows; for a choice, nothing of that kind is asked. The
expressions here are those in which it could be asked, and would be granted.

* `Regex.settles`: a branch after which no later one is needed.
* `Regex.decidesChoices`: expressions in which every branch settles its choice.
-/

namespace GrammarKit.Regex

/-- Whether a text that starts with the first literal cannot start with the second one, or only if a
byte comes behind that, which is not among those that may follow. -/
def literalSettles (follow : ByteSet) : List UInt8 → List UInt8 → Bool
  | a :: as, b :: bs => a != b || literalSettles follow as bs
  | a :: _, [] => !follow.has a.toNat
  | [], _ => false

/-- **Whether a branch settles a choice** against a later branch, where bytes of `follow` may come
behind the choice: two literals are told apart by all of their bytes, other branches by the first. -/
def settles (follow : ByteSet) : Regex → Regex → Bool
  | .literal as, .literal bs => literalSettles follow as bs
  | r, q => !r.nullable && !(firstBytes r).intersects (followBefore q follow)

mutual

/-- **Expressions in which choices are settled at once**, or in which it does not matter, since
nothing follows. -/
def decidesChoices (follow : ByteSet) : Regex → Bool
  | .alternation branches => decidesBranches follow branches
  | .concat parts => decidesSeq follow parts
  | .repetition body _ _ _ => decidesChoices ((firstBytes body).union follow) body
  | .capture _ body => decidesChoices follow body
  | .empty | .literal _ | .charClass _ | .look _ => true

/-- The choices in the parts of a sequence are settled at once. -/
def decidesSeq (follow : ByteSet) : List Regex → Bool
  | [] => true
  | r :: rs => decidesChoices (followBeforeAll rs follow) r && decidesSeq follow rs

/-- Each branch settles the choice against those behind it. -/
def decidesBranches (follow : ByteSet) : List Regex → Bool
  | [] => true
  | r :: rs =>
    (decide (follow = .empty) || rs.all (settles follow r)) && decidesChoices follow r &&
      decidesBranches follow rs

end

end GrammarKit.Regex
