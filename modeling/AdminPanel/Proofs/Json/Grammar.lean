import AdminPanel.Json.Parser
import AdminPanel.Json.Token

/-! # The grammar of strict JSON

What it is for a text to *write* a value, said without a reader. A value has one list of tokens,
its brackets, commas and colons included; a token has one or more spellings; and a text writes a
value when it spells the tokens of the value one after another, with any white space around them.
Nothing else may stand in the text: no byte order mark, no comment, no comma too many. -/
namespace AdminPanel.Json

/-! ## The tokens of a value -/

mutual

def tokens : Json → List Token
  | .null => [.null]
  | .bool value => [.bool value]
  | .number literal => [.number literal]
  | .string value => [.string value]
  | .array elements => .openBracket :: (elementTokens elements ++ [.closeBracket])
  | .object members => .openBrace :: (memberTokens members ++ [.closeBrace])

def elementTokens : List Json → List Token
  | [] => []
  | [value] => tokens value
  | value :: next :: values => tokens value ++ .comma :: elementTokens (next :: values)

def memberTokens : List (String × Json) → List Token
  | [] => []
  | [(name, value)] => .string name :: .colon :: tokens value
  | (name, value) :: next :: members =>
    .string name :: .colon :: (tokens value ++ .comma :: memberTokens (next :: members))

end

/-! ## Spellings of strings -/

/-- Four hexadecimal digits, in either letter case, and the code unit they write. -/
inductive UnitSpelling : List Char → Nat → Prop
  | digits {a b c d : Char} {x y z w : Nat} (ha : Text.hexDigit? a = some x)
      (hb : Text.hexDigit? b = some y) (hc : Text.hexDigit? c = some z)
      (hd : Text.hexDigit? d = some w) :
      UnitSpelling [a, b, c, d] (4096 * x + 256 * y + 16 * z + w)

/-- The characters that have a short escape, each behind the letter that names it. -/
def shortEscapes : List (Char × Char) :=
  [('"', '"'), ('\\', '\\'), ('/', '/'), ('b', '\x08'), ('f', '\x0c'), ('n', '\n'), ('r', '\r'),
    ('t', '\t')]

/-- The spellings of a character within a string: raw unless it is the quote, the backslash or a
control character; by a short escape; by its code unit; or by its two surrogates. -/
inductive CharSpelling : Char → List Char → Prop
  | raw {c : Char} (hq : c ≠ '"') (hb : c ≠ '\\') (hc : 0x20 ≤ c.toNat) : CharSpelling c [c]
  | short {c name : Char} (h : (name, c) ∈ shortEscapes) : CharSpelling c ['\\', name]
  | unit {c : Char} {digits : List Char} (h : UnitSpelling digits c.toNat) :
      CharSpelling c ('\\' :: 'u' :: digits)
  | pair {c : Char} {highDigits lowDigits : List Char} {high low : Nat}
      (hh : UnitSpelling highDigits high) (hl : UnitSpelling lowDigits low)
      (h1 : 0xD800 ≤ high) (h2 : high ≤ 0xDBFF) (h3 : 0xDC00 ≤ low) (h4 : low ≤ 0xDFFF)
      (hc : c.toNat = 0x10000 + 1024 * (high - 0xD800) + (low - 0xDC00)) :
      CharSpelling c ('\\' :: 'u' :: (highDigits ++ '\\' :: 'u' :: lowDigits))

inductive BodySpelling : List Char → List Char → Prop
  | nil : BodySpelling [] []
  | cons {c : Char} {cs first rest : List Char} (h : CharSpelling c first)
      (hr : BodySpelling cs rest) : BodySpelling (c :: cs) (first ++ rest)

/-! ## Numbers -/

def IsDigits (cs : List Char) : Prop := cs ≠ [] ∧ ∀ c ∈ cs, c.isDigit = true

/-- The digits before the point, without a leading zero. -/
inductive IsInteger : List Char → Prop
  | zero : IsInteger ['0']
  | digits {c : Char} {cs : List Char} (hc : c ≠ '0') (h : IsDigits (c :: cs)) :
      IsInteger (c :: cs)

inductive IsFraction : List Char → Prop
  | none : IsFraction []
  | digits {cs : List Char} (h : IsDigits cs) : IsFraction ('.' :: cs)

inductive IsExponent : List Char → Prop
  | none : IsExponent []
  | digits {e : Char} {sign cs : List Char} (he : e = 'e' ∨ e = 'E')
      (hs : sign = [] ∨ sign = ['+'] ∨ sign = ['-']) (h : IsDigits cs) :
      IsExponent (e :: (sign ++ cs))

inductive IsMagnitude : List Char → Prop
  | parts {integer fraction exponent : List Char} (hi : IsInteger integer)
      (hf : IsFraction fraction) (he : IsExponent exponent) :
      IsMagnitude (integer ++ fraction ++ exponent)

inductive IsNumber : List Char → Prop
  | plain {cs : List Char} (h : IsMagnitude cs) : IsNumber cs
  | negative {cs : List Char} (h : IsMagnitude cs) : IsNumber ('-' :: cs)

/-! ## Spellings of tokens and texts -/

inductive TokenSpelling : Token → List Char → Prop
  | nullWord : TokenSpelling .null ['n', 'u', 'l', 'l']
  | trueWord : TokenSpelling (.bool true) ['t', 'r', 'u', 'e']
  | falseWord : TokenSpelling (.bool false) ['f', 'a', 'l', 's', 'e']
  | number {cs : List Char} (h : IsNumber cs) : TokenSpelling (.number (String.ofList cs)) cs
  | string {cs body : List Char} (h : BodySpelling cs body) :
      TokenSpelling (.string (String.ofList cs)) ('"' :: (body ++ ['"']))
  | openBracket : TokenSpelling .openBracket ['[']
  | closeBracket : TokenSpelling .closeBracket [']']
  | openBrace : TokenSpelling .openBrace ['{']
  | closeBrace : TokenSpelling .closeBrace ['}']
  | comma : TokenSpelling .comma [',']
  | colon : TokenSpelling .colon [':']

/-- Tokens spelled one after another, with white space anywhere around them. -/
inductive Spells : List Token → List Char → Prop
  | nil {space : List Char} (h : ∀ c ∈ space, isSpace c = true) : Spells [] space
  | cons {token : Token} {tokens : List Token} {space first rest : List Char}
      (h : ∀ c ∈ space, isSpace c = true) (ht : TokenSpelling token first)
      (hr : Spells tokens rest) : Spells (token :: tokens) (space ++ (first ++ rest))

theorem Spells.done : Spells [] [] := .nil (fun _ hc => absurd hc List.not_mem_nil)

theorem Spells.next {token : Token} {tokens : List Token} {first rest : List Char}
    (ht : TokenSpelling token first) (hr : Spells tokens rest) :
    Spells (token :: tokens) (first ++ rest) :=
  @Spells.cons token tokens [] first rest (fun _ hc => absurd hc List.not_mem_nil) ht hr

/-- A text writes a value: it is one strict JSON document, and its value is this one. -/
def Writes (text : String) (value : Json) : Prop := Spells value.tokens text.toList

end AdminPanel.Json
