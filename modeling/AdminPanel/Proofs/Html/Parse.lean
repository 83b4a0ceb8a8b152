import AdminPanel.Html.Basic

/-! # Parsing markup

A text of markup is first cut into pieces: tags, and the characters between them. The pieces are
then put together, each closing tag ending the innermost element that is open. A text whose tags do
not fit is no markup; neither is one with a tag that has no name or does not end.

The four references that markup is escaped with stand for their characters, in texts and in values
alike. Every other ampersand stands for itself. -/

namespace AdminPanel

namespace Html

/-! ## Pieces -/

inductive Piece where
  | opening (tag : String) (attributes : List Attribute)
  | closing (tag : String)
  | char (c : Char)
deriving DecidableEq, Repr

/-- A character of the names of tags and attributes. -/
def isNameChar (c : Char) : Bool := c.isLower || c.isDigit || c == '-'

/-- The name at the front of a text, and what follows it. -/
def readName? (cs : List Char) : Option (String × List Char) :=
  if cs.takeWhile isNameChar = [] then none
  else some (String.ofList (cs.takeWhile isNameChar), cs.dropWhile isNameChar)

theorem readName?_length {cs rest : List Char} {name : String}
    (h : readName? cs = some (name, rest)) : rest.length ≤ cs.length := by
  unfold readName? at h
  split at h
  · cases h
  · simp only [Option.some.injEq, Prod.mk.injEq] at h
    rw [← h.2]
    exact (List.dropWhile_suffix _).length_le

/-- The character that the front of a text stands for, and what follows it. -/
def readChar? : List Char → Option (Char × List Char)
  | '&' :: 'a' :: 'm' :: 'p' :: ';' :: rest => some ('&', rest)
  | '&' :: 'l' :: 't' :: ';' :: rest => some ('<', rest)
  | '&' :: 'g' :: 't' :: ';' :: rest => some ('>', rest)
  | '&' :: 'q' :: 'u' :: 'o' :: 't' :: ';' :: rest => some ('"', rest)
  | c :: rest => some (c, rest)
  | [] => none

theorem readChar?_length {cs rest : List Char} {c : Char} (h : readChar? cs = some (c, rest)) :
    rest.length < cs.length := by
  unfold readChar? at h
  split at h <;> simp only [Option.some.injEq, Prod.mk.injEq, reduceCtorEq] at h <;>
    simp [← h.2] <;> omega

/-- A value up to its closing quote, and what follows it. -/
def readValue? (cs : List Char) : Option (List Char × List Char) :=
  if cs.head? = some '"' then some ([], cs.tail)
  else match _h : readChar? cs with
    | none => none
    | some (c, rest) => (readValue? rest).map fun read => (c :: read.1, read.2)
termination_by cs.length
decreasing_by exact readChar?_length _h

theorem readValue?_length {cs value rest : List Char} (h : readValue? cs = some (value, rest)) :
    rest.length ≤ cs.length := by
  fun_induction readValue? cs generalizing value with
  | case1 cs hc =>
    simp only [Option.some.injEq, Prod.mk.injEq] at h
    rw [← h.2, List.length_tail]
    omega
  | case2 cs hc hr => cases h
  | case3 cs hc c more hr ih =>
    obtain ⟨⟨_, _⟩, hv, he⟩ := Option.map_eq_some_iff.mp h
    simp only [Prod.mk.injEq] at he
    obtain ⟨-, rfl⟩ := he
    have hmore := readChar?_length hr
    have hrest := ih hv
    omega

/-- An attribute behind its blank, and what follows it. -/
def readAttribute? (cs : List Char) : Option (Attribute × List Char) :=
  match readName? cs with
  | none => none
  | some (name, '=' :: '"' :: rest) =>
    (readValue? rest).map fun read => (⟨name, some (String.ofList read.1)⟩, read.2)
  | some (name, rest) => some (⟨name, none⟩, rest)

theorem readAttribute?_length {cs rest : List Char} {attr : Attribute}
    (h : readAttribute? cs = some (attr, rest)) : rest.length ≤ cs.length := by
  unfold readAttribute? at h
  split at h
  · cases h
  · rename_i name more hn
    obtain ⟨⟨_, _⟩, hv, he⟩ := Option.map_eq_some_iff.mp h
    simp only [Prod.mk.injEq] at he
    have hname := readName?_length hn
    have hvalue := readValue?_length hv
    rw [he.2] at hvalue
    simp only [List.length_cons] at hname
    omega
  · rename_i hn
    simp only [Option.some.injEq, Prod.mk.injEq] at h
    rw [← h.2]
    exact readName?_length hn

/-- The attributes up to the end of a tag, and what follows it. -/
def readAttributes? (cs : List Char) : Option (List Attribute × List Char) :=
  match cs with
  | '>' :: rest => some ([], rest)
  | ' ' :: rest =>
    match _h : readAttribute? rest with
    | none => none
    | some (attr, more) => (readAttributes? more).map fun read => (attr :: read.1, read.2)
  | _ => none
termination_by cs.length
decreasing_by exact Nat.lt_succ_of_le (readAttribute?_length _h)

theorem readAttributes?_length {cs rest : List Char} {attrs : List Attribute}
    (h : readAttributes? cs = some (attrs, rest)) : rest.length < cs.length := by
  fun_induction readAttributes? cs generalizing attrs with
  | case1 rest' =>
    simp only [Option.some.injEq, Prod.mk.injEq] at h
    simp [← h.2]
  | case2 rest' hr => cases h
  | case3 more attr rest' hr ih =>
    obtain ⟨⟨_, _⟩, hv, he⟩ := Option.map_eq_some_iff.mp h
    simp only [Prod.mk.injEq] at he
    obtain ⟨-, rfl⟩ := he
    have hattr := readAttribute?_length hr
    have hrest := ih hv
    simp only [List.length_cons]
    omega
  | case4 => cases h

def readPiece? : List Char → Option (Piece × List Char)
  | '<' :: '/' :: rest =>
    match readName? rest with
    | some (tag, '>' :: rest) => some (.closing tag, rest)
    | _ => none
  | '<' :: rest =>
    match readName? rest with
    | some (tag, rest) => (readAttributes? rest).map fun read => (.opening tag read.1, read.2)
    | none => none
  | cs => (readChar? cs).map fun read => (.char read.1, read.2)

theorem readPiece?_length {cs rest : List Char} {piece : Piece}
    (h : readPiece? cs = some (piece, rest)) : rest.length < cs.length := by
  unfold readPiece? at h
  split at h
  · split at h
    · rename_i hn
      simp only [Option.some.injEq, Prod.mk.injEq] at h
      have hname := readName?_length hn
      simp only [List.length_cons, h.2] at hname ⊢
      omega
    · cases h
  · split at h
    · rename_i hn
      obtain ⟨⟨_, _⟩, hr, he⟩ := Option.map_eq_some_iff.mp h
      simp only [Prod.mk.injEq] at he
      have hname := readName?_length hn
      have hattrs := readAttributes?_length hr
      simp only [List.length_cons, he.2] at hattrs ⊢
      omega
    · cases h
  · obtain ⟨⟨_, _⟩, hr, he⟩ := Option.map_eq_some_iff.mp h
    simp only [Prod.mk.injEq] at he
    rw [← he.2]
    exact readChar?_length hr

/-- The pieces of a text; `none` when a tag is malformed. -/
def pieces? (cs : List Char) : Option (List Piece) :=
  match cs with
  | [] => some []
  | c :: rest =>
    match _h : readPiece? (c :: rest) with
    | none => none
    | some (piece, more) => (pieces? more).map (piece :: ·)
termination_by cs.length
decreasing_by exact readPiece?_length _h

/-! ## Trees -/

/-- The elements that markup never closes. -/
def voidTags : List String :=
  ["area", "base", "br", "col", "embed", "hr", "img", "input", "link", "meta", "source", "track",
    "wbr"]

/-- An element that is still open, with the trees before it. -/
structure Unclosed where
  tag : String
  attributes : List Attribute
  before : List Html

/-- The trees behind the innermost opening tag, the last one first, and the elements that are still
open around them. -/
structure Partial where
  trees : List Html
  around : List Unclosed

/-- A character joins the text before it, if there is one. -/
def addChar (c : Char) : List Html → List Html
  | .text value :: trees => .text (value.push c) :: trees
  | trees => .text (String.singleton c) :: trees

def Partial.add? (part : Partial) : Piece → Option Partial
  | .char c => some { part with trees := addChar c part.trees }
  | .opening tag attributes =>
    if tag ∈ voidTags then some { part with trees := .void tag attributes :: part.trees }
    else some ⟨[], ⟨tag, attributes, part.trees⟩ :: part.around⟩
  | .closing tag =>
    match part.around with
    | [] => none
    | inner :: around =>
      if inner.tag = tag then
        some ⟨.element tag inner.attributes part.trees.reverse :: inner.before, around⟩
      else none

def Partial.trees? (part : Partial) : Option (List Html) :=
  if part.around.isEmpty then some part.trees.reverse else none

/-- The trees that a text is the markup of. -/
def parse? (markup : String) : Option (List Html) := do
  let pieces ← pieces? markup.toList
  let part ← pieces.foldlM Partial.add? ⟨[], []⟩
  part.trees?

end Html

end AdminPanel
