import AdminPanel.Json.Numeral
import AdminPanel.Json.Quoted

/-! # JSON tokens

The tokens of a strict JSON text. Space, tab, line feed and carriage return separate tokens and mean
nothing; no other character does. Only here does the spelling of a text count: two texts with the
same tokens have the same value. -/

namespace AdminPanel.Json

/-- A word, a number, a string, or a mark of punctuation. -/
inductive Token where
  | null
  | bool (value : Bool)
  | number (literal : String)
  | string (value : String)
  | openBracket
  | closeBracket
  | openBrace
  | closeBrace
  | comma
  | colon
deriving DecidableEq, Repr

/-- A character between tokens. -/
def isSpace (c : Char) : Bool := c == ' ' || c == '\t' || c == '\n' || c == '\r'

/-- The first token of a text that starts with one, and what follows it. -/
def readToken? : List Char → Option (Token × List Char)
  | '[' :: rest => some (.openBracket, rest)
  | ']' :: rest => some (.closeBracket, rest)
  | '{' :: rest => some (.openBrace, rest)
  | '}' :: rest => some (.closeBrace, rest)
  | ',' :: rest => some (.comma, rest)
  | ':' :: rest => some (.colon, rest)
  | 'n' :: 'u' :: 'l' :: 'l' :: rest => some (.null, rest)
  | 't' :: 'r' :: 'u' :: 'e' :: rest => some (.bool true, rest)
  | 'f' :: 'a' :: 'l' :: 's' :: 'e' :: rest => some (.bool false, rest)
  | '"' :: rest => (readString? rest).map fun read => (.string (String.ofList read.1), read.2)
  | cs => (readNumber? cs).map fun read => (.number (String.ofList read.1), read.2)

theorem readToken?_length {cs rest : List Char} {token : Token}
    (h : readToken? cs = some (token, rest)) : rest.length < cs.length := by
  unfold readToken? at h
  split at h
  case h_10 =>
    obtain ⟨⟨_, _⟩, hr, he⟩ := Option.map_eq_some_iff.mp h
    simp only [Prod.mk.injEq] at he
    have := readString?_length hr
    rw [← he.2]
    simp only [List.length_cons]
    omega
  case h_11 =>
    obtain ⟨⟨_, _⟩, hr, he⟩ := Option.map_eq_some_iff.mp h
    simp only [Prod.mk.injEq] at he
    have := readNumber?_length hr
    rw [← he.2]; exact this
  all_goals
    simp only [Option.some.injEq, Prod.mk.injEq] at h
    simp [← h.2] <;> omega

/-- The tokens of a text; `none` when a token is malformed. -/
def tokens? (cs : List Char) : Option (List Token) :=
  match cs with
  | [] => some []
  | c :: rest =>
    if isSpace c then tokens? rest
    else match _h : readToken? (c :: rest) with
      | none => none
      | some (token, more) => (tokens? more).map (token :: ·)
termination_by cs.length
decreasing_by
  · simp
  · exact readToken?_length _h

end AdminPanel.Json
