import GrammarKit.Json

/-!
# Writing structured values

* `Json.render`: the text of a value, without blanks.
-/

namespace GrammarKit.Json

/-- A character inside a string: quotes, backslashes and control characters are escaped. -/
def renderChar (c : Char) : String :=
  if c = '"' then "\\\"" else if c = '\\' then "\\\\"
  else if c = '\n' then "\\n" else if c = '\r' then "\\r" else if c = '\t' then "\\t"
  else if c.toNat < 0x20 then
    "\\u00" ++ (if c.toNat < 0x10 then "0" else "") ++ String.ofList (Nat.toDigits 16 c.toNat)
  else c.toString

/-- A quoted string. -/
def renderText (s : String) : String :=
  s.toList.foldl (fun acc c => acc ++ renderChar c) "\"" ++ "\""

/-- A number as it was written. -/
def renderNumber : Number → String
  | .whole n => if n < 0 then "-" ++ toString n.natAbs else toString n.natAbs
  | .decimal text => text

mutual

/-- The text of a value. -/
def render : Json → String
  | null => "null"
  | bool true => "true"
  | bool false => "false"
  | number n => renderNumber n
  | string s => renderText s
  | array items => "[" ++ ",".intercalate (renderItems items) ++ "]"
  | object members => "\x7b" ++ ",".intercalate (renderMembers members) ++ "\x7d"

/-- The texts of the items. -/
def renderItems : List Json → List String
  | [] => []
  | j :: items => render j :: renderItems items

/-- The texts of the members. -/
def renderMembers : List (String × Json) → List String
  | [] => []
  | (key, j) :: members => (renderText key ++ ":" ++ render j) :: renderMembers members

end

end GrammarKit.Json
