import GrammarKit.Code.Statement

/-!
# Paths of types

A type from outside is given by a path such as `crate::ast::Number` or `Vec<u8>`. It is read and
written again by its tokens.

* `phraseUpTo`: any phrase, nested at most so deep.
* `typePath?`, `typeTokens`: the tokens of a path.
-/

namespace GrammarKit.Code

open Reader

/-- **A phrase** that nests at most `n` deep. -/
def phraseUpTo : Nat → Phrase → Reader Reading
  | 0, _ => failure
  | n + 1, phrase =>
    let inner := phraseUpTo n
    match phrase with
    | .type sum => typeOf inner sum
    | .arguments => plainly (arguments inner)
    | .pattern alternatives => patternOf inner alternatives
    | .expression fields => expressionOf inner fields
    | .operand fields => operandOf inner fields
    | .line => lineExpression inner
    | .block attributed => plainly (blockOf inner attributed)
    | .item => plainly (itemOf inner)
    | .importTree => plainly (importTreeOf inner)

/-- **The tokens of a path.** -/
def typePath? (text : String) : Option (List Token) := do
  (tokensOf (path (phraseUpTo (text.length + 1)) .type)).whole? (← lex? text)

/-- The tokens of a type's name, which is a path. -/
def typeTokens (name : String) : List Token := (typePath? name).getD [.unit name]

end GrammarKit.Code
