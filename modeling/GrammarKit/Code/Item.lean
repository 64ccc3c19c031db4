import GrammarKit.Code.Expression

/-!
# Items

* `visibility`, `signature`: how items start.
* `importTree`: what an import names.
* `functionItem`, `structureItem`, `enumeration`, `implementation`, …: kinds of items.
* `startsWithItem`, `itemOf`: any item.
-/

namespace GrammarKit.Code.Reader

/-- An identifier, or an underscore in its place. -/
def identOrBlank : Reader (List Token) := do
  if startsWithWord ["_"] (← get) then anyWord else ident

/-- Who may use an item. -/
def visibility : Reader (List Token) :=
  let isPlace (xs : List Lexeme) : Bool := match xs with
    | .group .paren [.word w] :: _ => ["crate", "self", "super"].contains w
    | .group .paren body :: _ => startsWithWord ["in"] body
    | _ => false
  let place : Reader (List Token) := do
    if startsWithWord ["in"] (← get) then inOrder [anyWord, plainPath] else anyWord
  whenever (startsWithWord ["pub"])
    (inOrder [word "pub", whenever isPlace (inGroup .paren place)])

/-- The lexemes behind who may use an item. -/
def behindVisibility (xs : List Lexeme) : List Lexeme :=
  match visibility.run xs with
  | some (_, rest) => rest
  | none => xs

/-- The lexemes behind those of the words that come first, in order. -/
def behindWords : List String → List Lexeme → List Lexeme
  | [], xs => xs
  | w :: ws, xs => behindWords ws (if startsWithWord [w] xs then xs.drop 1 else xs)

/-- Whether a function starts here. -/
def startsWithSignature (xs : List Lexeme) : Bool :=
  let rest := behindWords ["const", "async", "unsafe"] xs
  let rest := match convention.run rest with
    | some (_, rest) => rest
    | none => rest
  startsWithWord ["fn"] rest && !startsWithGroup .paren (rest.drop 1)

section Inner

variable (inner : Phrase → Reader Reading)

/-- A type that may be a sum of bounds. -/
def anyType : Reader (List Token) := tokensOf (inner (.type true))

/-! ## Functions -/

/-- The object of a method, which is its first parameter. -/
def receiver : Reader (List Token) := do
  if startsWith "&" (← get) then
    inOrder [sign "&", whenever startsWithLifetime lifetime, wordIfAny "mut", word "self"]
  else
    inOrder [wordIfAny "mut", word "self",
      whenever (startsWith ":") (inOrder [sign ":", anyType inner])]

/-- A parameter of a function. A type without a pattern belongs to one that is not used. -/
def functionParameter : Reader (List Token) := do
  if startsWithIdent (← get) && startsWith "<" ((← get).drop 1) then
    return [.unit "_", .unit ":"] ++ (← anyType inner)
  else
    inOrder [tokensOf (inner (.pattern false)), sign ":", firstOf [
      (startsWith "...", sign "..."), (fun _ => true, anyType inner)]]

/-- The parameters of a function, at most `n`. -/
def functionParametersUpTo (isFirst : Bool) : Nat → Reader (List Token)
  | 0 => failure
  | n + 1 => do
    if (← get).isEmpty then return []
    let attrs ← attributes inner
    if startsWith "..." (← get) then
      return attrs ++ (← inOrder [sign "...", whenever (!·.isEmpty) (sign ",")])
    let xs ← get
    let isReceiver := match (receiver inner).run xs with
      | some _ => true
      | none => false
    if isReceiver && !isFirst then failure
    let parameter ← if isReceiver then receiver inner else functionParameter inner
    if (← get).isEmpty then return attrs ++ parameter
    let comma ← sign ","
    return attrs ++ parameter ++ comma ++ (← functionParametersUpTo false n)

/-- **A function up to its body.** -/
def signature : Reader (List Token) :=
  let parameterList : Reader (List Token) := do
    functionParametersUpTo inner true ((← get).length + 1)
  inOrder [wordIfAny "const", wordIfAny "async", wordIfAny "unsafe", convention, word "fn", ident,
    parameters inner, inGroup .paren parameterList, returned inner true, whereClause inner]

/-- A function. Without a body it stays as it was written. -/
def functionItem : Reader (List Token) := do
  let before ← get
  let head ← inOrder [visibility, signature inner]
  if startsWith ";" (← get) then
    set before
    asWritten (inOrder [visibility, signature inner, sign ";"])
  else return head ++ (← attributedBlock inner)

/-! ## Imports -/

/-- What an import names: a path, a new name, all of a module, or a list. -/
def importTreeOf : Reader (List Token) :=
  let isStep (xs : List Lexeme) :=
    startsWithIdent xs || startsWithWord ["self", "super", "crate", "try"] xs
  firstOf [
    (isStep, inOrder [anyWord, firstOf [
      (startsWith "::", inOrder [sign "::", tokensOf (inner .importTree)]),
      (startsWithWord ["as"], inOrder [anyWord, identOrBlank]),
      (fun _ => true, pure [])]]),
    (startsWith "*", sign "*"),
    (startsWithGroup .brace, inGroup .brace (items (tokensOf (inner .importTree))))]

/-- An import. -/
def importItem : Reader (List Token) :=
  inOrder [visibility, word "use", signIfAny "::", tokensOf (inner .importTree), sign ";"]

/-! ## Types with fields -/

/-- A field with a name. -/
def namedField : Reader (List Token) :=
  inOrder [attributes inner, visibility, identOrBlank, sign ":", anyType inner]

/-- Fields with names. -/
def namedFields : Reader (List Token) := inGroup .brace (items (namedField inner))

/-- Fields without names. -/
def numberedFields : Reader (List Token) :=
  inGroup .paren (items (inOrder [attributes inner, visibility, anyType inner]))

/-- A structure. -/
def structureItem : Reader (List Token) := do
  let head ← inOrder [visibility, word "struct", ident, parameters inner, whereClause inner]
  let hasConditions := head.any fun
    | .unit s => s == "where"
    | .group .. => false
  let body ← firstOf [
    (fun xs => !hasConditions && startsWithGroup .paren xs,
      inOrder [numberedFields inner, whereClause inner, sign ";"]),
    (startsWithGroup .brace, namedFields inner),
    (fun _ => true, sign ";")]
  return head ++ body

/-- A variant of an enumeration. Who may use it is left out. -/
def variant : Reader (List Token) := do
  let attrs ← attributes inner
  let _ ← visibility
  return attrs ++ (← inOrder [ident, firstOf [
    (startsWithGroup .brace, namedFields inner),
    (startsWithGroup .paren, numberedFields inner),
    (fun _ => true, pure [])],
    whenever (startsWith "=") (inOrder [sign "=", anyExpression inner])])

/-- An enumeration. -/
def enumeration : Reader (List Token) :=
  inOrder [visibility, word "enum", ident, parameters inner, whereClause inner,
    inGroup .brace (items (variant inner))]

/-- A union. -/
def unionItem : Reader (List Token) :=
  inOrder [visibility, word "union", ident, parameters inner, whereClause inner,
    namedFields inner]

/-! ## Constants and names of types -/

/-- A value behind a sign of equality, if any. -/
def initial : Reader (List Token) :=
  whenever (startsWith "=") (inOrder [sign "=", anyExpression inner])

/-- A constant. -/
def constantItem : Reader (List Token) :=
  inOrder [visibility, word "const", identOrBlank, parameters inner, sign ":", anyType inner,
    initial inner, whereClause inner, sign ";"]

/-- A variable that lives as long as the program. -/
def staticItem : Reader (List Token) := do
  let head ← inOrder [visibility, word "static", wordIfAny "mut", ident]
  let type ← if startsWith "=" (← get) then pure [] else inOrder [sign ":", anyType inner]
  return head ++ type ++ (← inOrder [initial inner, sign ";"])

/-- A name of a type, with its bounds or its meaning. -/
def typeItem : Reader (List Token) :=
  let isEnd (xs : List Lexeme) := startsWith "=" xs || startsWith ";" xs ||
    startsWithWord ["where"] xs
  inOrder [visibility, word "type", ident, parameters inner,
    whenever (startsWith ":") (inOrder [sign ":", sumUntil isEnd (anyBound inner)]),
    whereClause inner, whenever (startsWith "=") (inOrder [sign "=", anyType inner]),
    whereClause inner, sign ";"]

/-! ## Modules, traits and implementations -/

/-- An invocation of a macro as an item, which may define a name. -/
def invocationItem : Reader (List Token) := do
  let head ← inOrder [plainPath, sign "!",
    whenever (fun xs => startsWithIdent xs || startsWithWord ["try"] xs) anyWord]
  let isBlock := startsWithGroup .brace (← get)
  return head ++ (← inOrder [anyGroup, if isBlock then pure [] else sign ";"])

/-- A module. -/
def moduleItem : Reader (List Token) := do
  let head ← inOrder [visibility, wordIfAny "unsafe", word "mod"]
  let name ← if startsWithWord ["try"] (← get) then anyWord else ident
  return head ++ name ++ (← firstOf [
    (startsWith ";", sign ";"),
    (fun _ => true, inGroup .brace (inOrder [innerAttributes inner,
      many (!·.isEmpty) (tokensOf (inner .item))]))])

/-- An item of a trait, of an implementation or of a foreign module. -/
def associatedItem : Reader (List Token) := do
  let attrs ← attributes inner
  let isDefault (xs : List Lexeme) :=
    startsWithWord ["default"] xs && !startsWith "!" (xs.drop 1)
  let head ← inOrder [visibility, whenever isDefault anyWord]
  let function : Reader (List Token) := do
    let start ← signature inner
    return start ++ (← if startsWith ";" (← get) then sign ";" else attributedBlock inner)
  return attrs ++ head ++ (← firstOf [
    (fun xs => startsWithWord ["fn"] xs || startsWithSignature xs, function),
    (startsWithWord ["const"], constantItem inner),
    (startsWithWord ["static"], staticItem inner),
    (startsWithWord ["type"], typeItem inner),
    (fun xs => head.isEmpty && (startsWithPathWord xs || startsWith "::" xs), invocationItem)])

/-- The items of a trait, of an implementation or of a foreign module. -/
def associatedItems : Reader (List Token) :=
  inGroup .brace (inOrder [innerAttributes inner, many (!·.isEmpty) (associatedItem inner)])

/-- A trait, or a name for several bounds. -/
def traitItem : Reader (List Token) :=
  let isEnd (xs : List Lexeme) := startsWithWord ["where"] xs || startsWithGroup .brace xs ||
    startsWith ";" xs
  let those := sumUntil isEnd (anyBound inner)
  inOrder [visibility, wordIfAny "unsafe", wordIfAny "auto", word "trait", ident,
    parameters inner, firstOf [
      (startsWith "=", inOrder [sign "=", those, whereClause inner, sign ";"]),
      (fun _ => true, inOrder [whenever (startsWith ":") (inOrder [sign ":", those]),
        whereClause inner, associatedItems inner])]]

/-- Whether generic parameters start here, and no qualified path. -/
def startsWithParameters (xs : List Lexeme) : Bool :=
  let rest := xs.drop 2
  let isName := startsWithLifetime (xs.drop 1) || startsWithIdent (xs.drop 1)
  startsWith "<" xs && (startsWith ">" (xs.drop 1) || startsWith "#" (xs.drop 1) ||
    isName && (startsWithColon rest || startsWith "," rest || startsWith ">" rest ||
      startsWith "=" rest) ||
    startsWithWord ["const"] (xs.drop 1))

/-- An implementation of a trait, or of what belongs to a type. -/
def implementation : Reader (List Token) := do
  let head ← inOrder [visibility, wordIfAny "default", wordIfAny "unsafe", word "impl",
    whenever startsWithParameters (parameters inner)]
  let mark ← whenever (fun xs => startsWith "!" xs && !startsWithGroup .brace (xs.drop 1))
    (sign "!")
  let type ← anyType inner
  let object ← whenever (startsWithWord ["for"]) (inOrder [anyWord, anyType inner])
  if !mark.isEmpty && object.isEmpty then failure
  return head ++ mark ++ type ++ object ++
    (← inOrder [whereClause inner, associatedItems inner])

/-- A library from outside. -/
def libraryItem : Reader (List Token) :=
  let name : Reader (List Token) := do
    if startsWithWord ["self"] (← get) then anyWord else ident
  inOrder [visibility, word "extern", word "crate", name,
    whenever (startsWithWord ["as"]) (inOrder [anyWord, identOrBlank]), sign ";"]

/-- Items from outside. -/
def foreignItem : Reader (List Token) :=
  inOrder [wordIfAny "unsafe", convention, associatedItems inner]

/-- A macro with parameters, which stays as it was written. -/
def declaredRules : Reader (List Token) :=
  asWritten (inOrder [visibility, word "macro", ident,
    whenever (startsWithGroup .paren) anyGroup, inGroup .brace rest])

/-! ## Any item -/

/-- **An item.** -/
def itemOf : Reader (List Token) := do
  let attrs ← attributes inner
  let behind (test : List Lexeme → Bool) (xs : List Lexeme) := test (behindVisibility xs)
  let second (ws : List String) (xs : List Lexeme) := startsWithWord ws (xs.drop 1)
  return attrs ++ (← firstOf [
    (behind fun xs => startsWithWord ["fn"] xs || startsWithSignature xs, functionItem inner),
    (behind fun xs => startsWithWord ["extern"] xs && second ["crate"] xs, libraryItem),
    (behind (startsWithWord ["extern"]), foreignItem inner),
    (behind (startsWithWord ["use"]), importItem inner),
    (behind (startsWithWord ["static"]), staticItem inner),
    (behind (startsWithWord ["const"]), constantItem inner),
    (behind fun xs => startsWithWord ["unsafe"] xs && second ["trait", "auto"] xs,
      traitItem inner),
    (behind fun xs => startsWithWord ["unsafe"] xs && second ["impl"] xs, implementation inner),
    (behind fun xs => startsWithWord ["unsafe"] xs && second ["extern"] xs, foreignItem inner),
    (behind fun xs => startsWithWord ["mod"] xs || startsWithWord ["unsafe"] xs,
      moduleItem inner),
    (behind (startsWithWord ["type"]), typeItem inner),
    (behind (startsWithWord ["struct"]), structureItem inner),
    (behind (startsWithWord ["enum"]), enumeration inner),
    (behind fun xs => startsWithWord ["union"] xs && startsWithIdent (xs.drop 1),
      unionItem inner),
    (behind fun xs => startsWithWord ["trait"] xs ||
      startsWithWord ["auto"] xs && second ["trait"] xs, traitItem inner),
    (behind fun xs => startsWithWord ["impl"] xs ||
      startsWithWord ["default"] xs && !startsWith "!" (xs.drop 1), implementation inner),
    (behind (startsWithWord ["macro"]), declaredRules),
    (fun xs => startsWithPathWord xs || startsWith "::" xs, invocationItem)])

/-- Whether an item starts here that starts with a word for it. -/
def startsWithItem (xs : List Lexeme) : Bool :=
  let second := xs.drop 1
  let third := xs.drop 2
  startsWithWord ["pub", "extern", "use", "fn", "mod", "type", "struct", "enum", "trait", "impl",
    "macro"] xs ||
  startsWithWord ["crate"] xs && !startsWith "::" second ||
  startsWithWord ["static"] xs && (startsWithWord ["mut"] second || startsWithIdent second) ||
  startsWithWord ["const"] xs && !(startsWithGroup .brace second ||
    startsWithWord ["static", "move"] second || startsWith "|" second ||
    startsWithWord ["async"] second && !startsWithWord ["unsafe", "extern", "fn"] third) ||
  startsWithWord ["unsafe"] xs && !startsWithGroup .brace second ||
  startsWithWord ["async"] xs && startsWithWord ["unsafe", "extern", "fn"] second ||
  startsWithWord ["union"] xs && startsWithIdent second ||
  startsWithWord ["auto"] xs && startsWithWord ["trait"] second ||
  startsWithWord ["default"] xs && startsWithWord ["unsafe", "impl"] second

end Inner

end GrammarKit.Code.Reader
