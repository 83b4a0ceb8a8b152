import AdminPanel.Json.Token

/-! # JSON values

Objects keep their members as they are written, in order and with repetitions, and numbers keep
their literal: what a reader makes of them is for the reader to say.

A text is read when its tokens are those of one value and nothing else. The parser counts down the
tokens it may still use; the count starts above their number, so it never decides. -/

namespace AdminPanel

inductive Json where
  | null
  | bool (value : Bool)
  | number (literal : String)
  | string (value : String)
  | array (elements : List Json)
  | object (members : List (String × Json))
deriving Repr, BEq

namespace Json

/-! ## Reading -/

mutual

/-- The value that a list of tokens starts with, and the tokens behind it. -/
def readValue? : Nat → List Token → Option (Json × List Token)
  | 0, _ => none
  | _ + 1, .null :: rest => some (.null, rest)
  | _ + 1, .bool value :: rest => some (.bool value, rest)
  | _ + 1, .number literal :: rest => some (.number literal, rest)
  | _ + 1, .string value :: rest => some (.string value, rest)
  | _ + 1, .openBracket :: .closeBracket :: rest => some (.array [], rest)
  | fuel + 1, .openBracket :: rest =>
    (readElements? fuel rest).map fun read => (.array read.1, read.2)
  | _ + 1, .openBrace :: .closeBrace :: rest => some (.object [], rest)
  | fuel + 1, .openBrace :: rest =>
    (readMembers? fuel rest).map fun read => (.object read.1, read.2)
  | _ + 1, _ => none

/-- Elements, at least one, up to the closing bracket. -/
def readElements? : Nat → List Token → Option (List Json × List Token)
  | 0, _ => none
  | fuel + 1, tokens =>
    match readValue? fuel tokens with
    | some (value, .closeBracket :: rest) => some ([value], rest)
    | some (value, .comma :: rest) =>
      (readElements? fuel rest).map fun read => (value :: read.1, read.2)
    | _ => none

/-- Members, at least one, up to the closing brace. -/
def readMembers? : Nat → List Token → Option (List (String × Json) × List Token)
  | 0, _ => none
  | fuel + 1, .string name :: .colon :: tokens =>
    match readValue? fuel tokens with
    | some (value, .closeBrace :: rest) => some ([(name, value)], rest)
    | some (value, .comma :: rest) =>
      (readMembers? fuel rest).map fun read => ((name, value) :: read.1, read.2)
    | _ => none
  | _ + 1, _ => none

end

def ofTokens? (tokens : List Token) : Option Json :=
  match readValue? (2 * tokens.length + 1) tokens with
  | some (value, []) => some value
  | _ => none

def ofText? (text : String) : Option Json := (tokens? text.toList).bind ofTokens?

def string? : Json → Option String
  | .string value => some value
  | _ => none

end Json

end AdminPanel
