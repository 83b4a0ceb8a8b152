import AdminPanel.Html.Render
import AdminPanel.Proofs.Html.Parse
import AdminPanel.Proofs.Html.Query
import AdminPanel.Proofs.Text.Trim
import Mathlib.Data.List.Chain

/-! # Markup parses to what was rendered

Whatever stands in the texts and in the values of a tree, its markup falls into the pieces of the
tree: none of their characters can open or close a tag, or end a value (`pieces?_chars`). When texts
are not empty and no two of them touch, the pieces go together to the tree itself
(`parse?_markup`). -/
namespace AdminPanel.Html

/-! ## The pieces of a tree -/

mutual

def pieces : Html → List Piece
  | .text value => value.toList.map .char
  | .element tag attributes children =>
    .opening tag attributes :: (piecesOfAll children ++ [.closing tag])
  | .void tag attributes => [.opening tag attributes]

def piecesOfAll : List Html → List Piece
  | [] => []
  | tree :: trees => pieces tree ++ piecesOfAll trees

end

theorem piecesOfAll_eq (trees : List Html) : piecesOfAll trees = trees.flatMap pieces := by
  induction trees with
  | nil => rfl
  | cons tree trees ih => rw [piecesOfAll, ih, List.flatMap_cons]

def Piece.chars : Piece → List Char
  | .opening tag attributes => openingChars tag attributes
  | .closing tag => closingChars tag
  | .char c => escapeInText c

theorem chars_eq_flatMap (tree : Html) : tree.chars = tree.pieces.flatMap Piece.chars := by
  induction tree using inductionOn with
  | text value =>
    rw [pieces, List.flatMap_map]
    rfl
  | element tag attrs children ih =>
    have hchildren : charsOfAll children = (piecesOfAll children).flatMap Piece.chars := by
      rw [charsOfAll_eq, piecesOfAll_eq, List.flatMap_assoc]
      exact List.flatMap_congr ih
    simp [chars, pieces, Piece.chars, hchildren]
  | void tag attrs => simp [chars, pieces, Piece.chars]

/-! ## Characters -/

theorem readChar?_of_ne {c : Char} (h : c ≠ '&') (rest : List Char) :
    readChar? (c :: rest) = some (c, rest) := by
  unfold readChar?
  split <;> simp_all

theorem readChar?_escapeInText (c : Char) (rest : List Char) :
    readChar? (escapeInText c ++ rest) = some (c, rest) := by
  unfold escapeInText
  split
  · rename_i h
    subst h
    rfl
  · rename_i hamp
    split
    · rename_i h
      subst h
      rfl
    · split
      · rename_i h
        subst h
        rfl
      · exact readChar?_of_ne hamp rest

theorem readChar?_escapeInValue (c : Char) (rest : List Char) :
    readChar? (escapeInValue c ++ rest) = some (c, rest) := by
  unfold escapeInValue
  split
  · rename_i h
    subst h
    rfl
  · exact readChar?_escapeInText c rest

/-- What a character is written with begins with an ampersand or is the character itself. -/
theorem head?_escapeInText {c d : Char} {rest : List Char}
    (h : (escapeInText c ++ rest).head? = some d) : d = '&' ∨ d = c ∧ c ≠ '<' := by
  unfold escapeInText at h
  split at h
  · exact .inl (Option.some.inj h).symm
  · split at h
    · exact .inl (Option.some.inj h).symm
    · rename_i hlt
      split at h
      · exact .inl (Option.some.inj h).symm
      · exact .inr ⟨(Option.some.inj h).symm, hlt⟩

theorem head?_escapeInText_ne (c : Char) (rest : List Char) :
    (escapeInText c ++ rest).head? ≠ some '<' := by
  intro h
  rcases head?_escapeInText h with hd | ⟨hd, hne⟩
  · exact absurd hd (by decide)
  · exact hne hd.symm

theorem head?_escapeInValue_ne (c : Char) (rest : List Char) :
    (escapeInValue c ++ rest).head? ≠ some '"' := by
  intro h
  unfold escapeInValue at h
  split at h
  · cases h
  · rename_i hquote
    rcases head?_escapeInText h with hd | ⟨hd, -⟩
    · exact absurd hd (by decide)
    · exact hquote hd.symm

theorem readValue?_valueChars (value : String) (rest : List Char) :
    readValue? (valueChars value ++ '"' :: rest) = some (value.toList, rest) := by
  rw [valueChars]
  induction value.toList with
  | nil =>
    rw [List.flatMap_nil, List.nil_append, readValue?]
    rfl
  | cons c cs ih =>
    rw [List.flatMap_cons, List.append_assoc, readValue?, if_neg (head?_escapeInValue_ne c _)]
    split
    · rename_i hr
      rw [readChar?_escapeInValue] at hr
      cases hr
    · rename_i hr
      rw [readChar?_escapeInValue] at hr
      cases hr
      rw [ih]
      rfl

/-! ## Names and attributes -/

def IsName (name : String) : Prop := name.toList ≠ [] ∧ name.toList.all isNameChar = true

instance (name : String) : Decidable (IsName name) := inferInstanceAs (Decidable (_ ∧ _))

/-- No name begins with a character that names do not have. -/
theorem IsName.append_ne_cons {name : String} (h : IsName name) {c : Char}
    (hc : isNameChar c = false) (rest more : List Char) : name.toList ++ rest ≠ c :: more := by
  intro he
  obtain ⟨hne, hall⟩ := h
  cases hcs : name.toList with
  | nil => exact hne hcs
  | cons d ds =>
    rw [hcs] at he hall
    have hd := List.all_eq_true.mp hall d List.mem_cons_self
    rw [(List.cons.inj he).1, hc] at hd
    cases hd

theorem readName?_append {name : String} (h : IsName name) {c : Char} (hc : isNameChar c = false)
    (rest : List Char) : readName? (name.toList ++ c :: rest) = some (name, c :: rest) := by
  have hall := List.all_eq_true.mp h.2
  have hstop : ∀ d tail, c :: rest = d :: tail → isNameChar d = false := fun d tail he =>
    (List.cons.inj he).1 ▸ hc
  rw [readName?, Text.takeWhile_run_append hall hstop, Text.dropWhile_run_append hall hstop,
    if_neg h.1, String.ofList_toList]

theorem readAttribute?_append {attr : Attribute} (h : IsName attr.name) {c : Char}
    (hc : isNameChar c = false) (hne : c ≠ '=') (rest : List Char) :
    readAttribute? ((attributeChars attr).tail ++ c :: rest) = some (attr, c :: rest) := by
  obtain ⟨name, value⟩ := attr
  cases value with
  | none =>
    have htail : (attributeChars ⟨name, none⟩).tail = name.toList := List.append_nil _
    rw [htail, readAttribute?, readName?_append h hc]
    split
    · rename_i hr
      cases hr
    · rename_i hr
      simp only [Option.some.injEq, Prod.mk.injEq, List.cons.injEq] at hr
      exact absurd hr.2.1 hne
    · rename_i hr
      cases hr
      rfl
  | some value =>
    have htail : (attributeChars ⟨name, some value⟩).tail ++ c :: rest =
        name.toList ++ '=' :: '"' :: (valueChars value ++ '"' :: c :: rest) := by
      simp [attributeChars]
    rw [htail, readAttribute?, readName?_append h (by decide)]
    show (readValue? (valueChars value ++ '"' :: c :: rest)).map _ = _
    rw [readValue?_valueChars, Option.map_some, String.ofList_toList]

/-- Behind a name or an attribute there is an attribute or the end of the tag. -/
theorem exists_attributes_end (attrs : List Attribute) (rest : List Char) :
    ∃ c more, attrs.flatMap attributeChars ++ '>' :: rest = c :: more ∧
      isNameChar c = false ∧ c ≠ '=' := by
  cases attrs with
  | nil => exact ⟨'>', rest, rfl, by decide, by decide⟩
  | cons attr attrs => exact ⟨' ', _, rfl, by decide, by decide⟩

/-- Every attribute has a name that can be read back. -/
def Named (attrs : List Attribute) : Prop := ∀ attr ∈ attrs, IsName attr.name

section Named
variable (name : String) (attrs : List Attribute)

@[simp] theorem named_nil : Named [] := List.forall_mem_nil _

@[simp] theorem named_append (more : List Attribute) :
    Named (attrs ++ more) ↔ Named attrs ∧ Named more := List.forall_mem_append

@[simp] theorem named_of (value : String) :
    Named (.of name value :: attrs) ↔ IsName name ∧ Named attrs := List.forall_mem_cons

@[simp] theorem named_classes (texts : List String) :
    Named (.classes texts :: attrs) ↔ Named attrs := by
  have hc : IsName "class" := by decide
  exact List.forall_mem_cons.trans (and_iff_right hc)

@[simp] theorem named_optional (value : Option String) :
    Named (Attribute.optional name value) ↔ (value.isSome = true → IsName name) := by
  cases value <;> simp [Attribute.optional]

@[simp] theorem named_toggled (set : Bool) :
    Named (Attribute.toggled name set) ↔ (set = true → IsName name) := by
  cases set <;> simp [Attribute.toggled]

@[simp] theorem named_bare (set : Bool) :
    Named (Attribute.bare name set) ↔ (set = true → IsName name) := by
  cases set <;> simp [Attribute.bare, Named]

end Named

theorem readAttributes?_append {attrs : List Attribute} (h : Named attrs)
    (rest : List Char) :
    readAttributes? (attrs.flatMap attributeChars ++ '>' :: rest) = some (attrs, rest) := by
  induction attrs with
  | nil => rw [List.flatMap_nil, List.nil_append, readAttributes?]
  | cons attr attrs ih =>
    obtain ⟨hattr, hattrs⟩ := List.forall_mem_cons.mp h
    obtain ⟨c, more, hmore, hc, hne⟩ := exists_attributes_end attrs rest
    have hchars : (attr :: attrs).flatMap attributeChars ++ '>' :: rest =
        ' ' :: ((attributeChars attr).tail ++ c :: more) := by
      rw [List.flatMap_cons, List.append_assoc, hmore]
      rfl
    rw [hchars, readAttributes?]
    split
    · rename_i hr
      rw [readAttribute?_append hattr hc hne] at hr
      cases hr
    · rename_i hr
      rw [readAttribute?_append hattr hc hne] at hr
      cases hr
      rw [← hmore, ih hattrs]
      rfl

/-! ## Pieces -/

/-- A piece whose names can be told from what stands around them. -/
def Piece.Named : Piece → Prop
  | .opening tag attributes => IsName tag ∧ Html.Named attributes
  | .closing tag => IsName tag
  | .char _ => True

theorem readPiece?_chars {piece : Piece} (h : piece.Named) (rest : List Char) :
    readPiece? (piece.chars ++ rest) = some (piece, rest) := by
  cases piece with
  | opening tag attributes =>
    obtain ⟨htag, hattrs⟩ := h
    obtain ⟨c, more, hmore, hc, -⟩ := exists_attributes_end attributes rest
    have hchars : (Piece.opening tag attributes).chars ++ rest =
        '<' :: (tag.toList ++ c :: more) := by
      rw [← hmore]
      simp [Piece.chars, openingChars]
    rw [hchars, readPiece?]
    · rw [readName?_append htag hc, ← hmore]
      show (readAttributes? _).map _ = _
      rw [readAttributes?_append hattrs]
      rfl
    · exact htag.append_ne_cons (by decide) _
  | closing tag =>
    have hchars : (Piece.closing tag).chars ++ rest =
        '<' :: '/' :: (tag.toList ++ '>' :: rest) := by
      simp [Piece.chars, closingChars]
    rw [hchars, readPiece?, readName?_append h (by decide)]
    rfl
  | char c =>
    have hhead := head?_escapeInText_ne c rest
    show readPiece? (escapeInText c ++ rest) = _
    rw [readPiece?, readChar?_escapeInText]
    · rfl
    · intro _ he
      rw [he] at hhead
      exact hhead rfl
    · intro _ he
      rw [he] at hhead
      exact hhead rfl

theorem pieces?_flatMap {pieces : List Piece} (h : ∀ piece ∈ pieces, piece.Named) :
    pieces? (pieces.flatMap Piece.chars) = some pieces := by
  induction pieces with
  | nil => rw [List.flatMap_nil, pieces?]
  | cons piece pieces ih =>
    obtain ⟨hpiece, hpieces⟩ := List.forall_mem_cons.mp h
    have hread := readPiece?_chars hpiece (pieces.flatMap Piece.chars)
    have hlength := readPiece?_length hread
    rw [List.flatMap_cons]
    cases hcs : piece.chars ++ pieces.flatMap Piece.chars with
    | nil =>
      rw [hcs] at hlength
      cases hlength
    | cons c cs =>
      rw [hcs] at hread
      rw [pieces?]
      split
      · rename_i hr
        rw [hread] at hr
        cases hr
      · rename_i hr
        rw [hread] at hr
        cases hr
        rw [ih hpieces]
        rfl

/-! ## Trees that markup can hold -/

/-- Two nodes that can be told apart when one follows the other: not both are texts. -/
def Apart (a b : Html) : Prop := a.tag?.isSome = true ∨ b.tag?.isSome = true

theorem apart_symm {a b : Html} (h : Apart a b) : Apart b a := Or.symm h

/-- A node that its markup keeps as it is: a text that is not empty, or an element with a tag that
is closed just when it has one, in which no two texts touch. -/
def Kept : Html → Prop
  | .text value => value ≠ ""
  | .element tag attrs children =>
    (IsName tag ∧ tag ∉ voidTags) ∧ Named attrs ∧ children.IsChain Apart
  | .void tag attrs => (IsName tag ∧ tag ∈ voidTags) ∧ Named attrs

def WellFormed (tree : Html) : Prop := ∀ node ∈ tree.nodes, Kept node

@[simp] theorem wellFormed_text (value : String) :
    (Html.text value).WellFormed ↔ value ≠ "" := by
  simp [WellFormed, Kept, nodes]

@[simp] theorem wellFormed_void (tag : String) (attrs : List Attribute) :
    (Html.void tag attrs).WellFormed ↔ (IsName tag ∧ tag ∈ voidTags) ∧ Named attrs := by
  simp [WellFormed, Kept, nodes]

@[simp] theorem wellFormed_element (tag : String) (attrs : List Attribute) (children : List Html) :
    (Html.element tag attrs children).WellFormed ↔
      ((IsName tag ∧ tag ∉ voidTags) ∧ Named attrs ∧ children.IsChain Apart) ∧
        ∀ child ∈ children, child.WellFormed := by
  rw [WellFormed, forall_mem_nodes_element]
  rfl

/-! An element with a tag around nothing but such elements is well formed, and so is one around a
text that is not empty. -/

def Block (tree : Html) : Prop := tree.tag?.isSome = true ∧ tree.WellFormed

section Block
variable {tag : String} {attrs : List Attribute}

theorem block_void (ht : IsName tag ∧ tag ∈ voidTags ∧ Named attrs) :
    Block (.void tag attrs) := by
  obtain ⟨hname, hvoid, hattrs⟩ := ht
  exact ⟨rfl, (wellFormed_void tag attrs).mpr ⟨⟨hname, hvoid⟩, hattrs⟩⟩

theorem block_leaf {value : String} (ht : IsName tag ∧ tag ∉ voidTags ∧ Named attrs)
    (hv : value ≠ "") : Block (.element tag attrs [.text value]) := by
  obtain ⟨hname, hvoid, hattrs⟩ := ht
  refine ⟨rfl, (wellFormed_element tag attrs _).mpr ⟨⟨⟨hname, hvoid⟩, hattrs, .singleton _⟩, ?_⟩⟩
  intro child hmem
  rw [List.mem_singleton.mp hmem]
  exact (wellFormed_text value).mpr hv

theorem block_element {children : List Html} (ht : IsName tag ∧ tag ∉ voidTags ∧ Named attrs)
    (hc : ∀ child ∈ children, Block child) : Block (.element tag attrs children) := by
  obtain ⟨hname, hvoid, hattrs⟩ := ht
  have hchain : children.IsChain Apart := by
    refine List.Pairwise.isChain (List.pairwise_of_forall_mem_list ?_)
    intro a hmem b _
    exact .inl (hc a hmem).1
  exact ⟨rfl, (wellFormed_element tag attrs children).mpr
    ⟨⟨⟨hname, hvoid⟩, hattrs, hchain⟩, fun child hmem => (hc child hmem).2⟩⟩

end Block

/-! A tree whose markup can be cut into its pieces: its tags and its attributes have names. -/

def Legible (tree : Html) : Prop := ∀ piece ∈ tree.pieces, piece.Named

@[simp] theorem legible_text (value : String) : (Html.text value).Legible := by
  intro piece hp
  obtain ⟨c, -, rfl⟩ := List.mem_map.mp hp
  trivial

@[simp] theorem legible_void (tag : String) (attrs : List Attribute) :
    (Html.void tag attrs).Legible ↔ IsName tag ∧ Named attrs := List.forall_mem_singleton

@[simp] theorem legible_element (tag : String) (attrs : List Attribute) (children : List Html) :
    (Html.element tag attrs children).Legible ↔
      (IsName tag ∧ Named attrs) ∧ ∀ child ∈ children, child.Legible := by
  rw [Legible, pieces, piecesOfAll_eq, List.forall_mem_cons, List.forall_mem_append,
    List.forall_mem_flatMap, List.forall_mem_singleton]
  constructor
  · rintro ⟨hopening, hchildren, -⟩
    exact ⟨hopening, hchildren⟩
  · rintro ⟨hopening, hchildren⟩
    exact ⟨hopening, hchildren, hopening.1⟩

theorem WellFormed.legible {tree : Html} (h : tree.WellFormed) : tree.Legible := by
  induction tree using inductionOn with
  | text value => exact legible_text value
  | element tag attrs children ih =>
    obtain ⟨⟨⟨htag, -⟩, hattrs, -⟩, hchildren⟩ := (wellFormed_element tag attrs children).mp h
    exact (legible_element tag attrs children).mpr
      ⟨⟨htag, hattrs⟩, fun child hmem => ih child hmem (hchildren child hmem)⟩
  | void tag attrs =>
    obtain ⟨⟨htag, -⟩, hattrs⟩ := (wellFormed_void tag attrs).mp h
    exact (legible_void tag attrs).mpr ⟨htag, hattrs⟩

/-- **The markup of a tree falls into the pieces of the tree**, empty texts or not. -/
theorem pieces?_chars {tree : Html} (h : tree.Legible) :
    pieces? tree.chars = some tree.pieces := by
  rw [chars_eq_flatMap]
  exact pieces?_flatMap h

/-! ## Putting the pieces together -/

theorem foldlM_chars_of_text (value : String) (cs : List Char) (trees : List Html)
    (around : List Unclosed) :
    (cs.map Piece.char).foldlM Partial.add? ⟨.text value :: trees, around⟩ =
      some ⟨.text (value ++ String.ofList cs) :: trees, around⟩ := by
  induction cs generalizing value with
  | nil => simp
  | cons c cs ih =>
    have hpush : value.push c ++ String.ofList cs = value ++ String.ofList (c :: cs) := by
      apply String.toList_injective
      simp
    rw [List.map_cons, List.foldlM_cons]
    show (cs.map Piece.char).foldlM Partial.add? ⟨.text (value.push c) :: trees, around⟩ = _
    rw [ih, hpush]

/-- The characters of a text become one text when they cannot join a text before them. -/
theorem foldlM_text {value : String} (h : value ≠ "") {trees : List Html}
    (hn : ∀ before ∈ trees.head?, Apart (.text value) before) (around : List Unclosed) :
    (Html.text value).pieces.foldlM Partial.add? ⟨trees, around⟩ =
      some ⟨.text value :: trees, around⟩ := by
  have hadd (c : Char) : addChar c trees = .text (String.singleton c) :: trees := by
    cases trees with
    | nil => rfl
    | cons before trees =>
      cases before with
      | text other => exact absurd (hn _ rfl) (by simp [Apart, tag?])
      | element _ _ _ => rfl
      | void _ _ => rfl
  cases hcs : value.toList with
  | nil => exact absurd (String.toList_eq_nil_iff.mp hcs) h
  | cons c cs =>
    have hvalue : String.singleton c ++ String.ofList cs = value := by
      apply String.toList_injective
      simp [hcs]
    rw [pieces, hcs, List.map_cons, List.foldlM_cons]
    show (cs.map Piece.char).foldlM Partial.add? ⟨addChar c trees, around⟩ = _
    rw [hadd, foldlM_chars_of_text, hvalue]

/-- Trees that each can be added add up, when no two texts of them touch. -/
theorem foldlM_piecesOfAll {children : List Html}
    (hadd : ∀ child ∈ children, ∀ {trees : List Html},
      (∀ before ∈ trees.head?, Apart child before) → ∀ around,
      child.pieces.foldlM Partial.add? ⟨trees, around⟩ = some ⟨child :: trees, around⟩)
    (hchain : children.IsChain Apart) {trees : List Html}
    (hn : ∀ child ∈ children.head?, ∀ before ∈ trees.head?, Apart child before)
    (around : List Unclosed) :
    (piecesOfAll children).foldlM Partial.add? ⟨trees, around⟩ =
      some ⟨children.reverse ++ trees, around⟩ := by
  induction children generalizing trees with
  | nil => rfl
  | cons child children ih =>
    obtain ⟨hchild, hchildren⟩ := List.forall_mem_cons.mp hadd
    obtain ⟨hnext, hrest⟩ := List.isChain_cons.mp hchain
    have hbefore : ∀ next ∈ children.head?, ∀ before ∈ (child :: trees).head?,
        Apart next before := by
      intro next hmem before hb
      rw [← Option.some.inj hb]
      exact apart_symm (hnext next hmem)
    rw [piecesOfAll, List.foldlM_append, hchild (hn child rfl) around]
    show (piecesOfAll children).foldlM Partial.add? ⟨child :: trees, around⟩ = _
    rw [ih hchildren hrest hbefore, List.reverse_cons, List.append_assoc]
    rfl

/-- The pieces of a tree add the tree. -/
theorem foldlM_pieces {tree : Html} (h : tree.WellFormed) {trees : List Html}
    (hn : ∀ before ∈ trees.head?, Apart tree before) (around : List Unclosed) :
    tree.pieces.foldlM Partial.add? ⟨trees, around⟩ = some ⟨tree :: trees, around⟩ := by
  induction tree using inductionOn generalizing trees around with
  | text value => exact foldlM_text ((wellFormed_text value).mp h) hn around
  | element tag attrs children ih =>
    obtain ⟨⟨⟨-, htag⟩, -, hchain⟩, hchildren⟩ := (wellFormed_element tag attrs children).mp h
    have hinside : (piecesOfAll children).foldlM Partial.add? ⟨[], ⟨tag, attrs, trees⟩ :: around⟩ =
        some ⟨children.reverse ++ [], ⟨tag, attrs, trees⟩ :: around⟩ :=
      foldlM_piecesOfAll (fun child hmem _ hb => ih child hmem (hchildren child hmem) hb) hchain
        (by simp) _
    rw [pieces, List.foldlM_cons]
    show (if tag ∈ voidTags then _ else _ : Option Partial) >>= _ = _
    rw [if_neg htag]
    show (piecesOfAll children ++ [Piece.closing tag]).foldlM Partial.add? ⟨[], _⟩ = _
    rw [List.foldlM_append, hinside]
    show (if tag = tag then _ else _ : Option Partial) >>= _ = _
    rw [if_pos rfl]
    simp
  | void tag attrs =>
    obtain ⟨⟨-, htag⟩, -⟩ := (wellFormed_void tag attrs).mp h
    show (if tag ∈ voidTags then _ else _ : Option Partial) >>= _ = _
    rw [if_pos htag]
    rfl

/-- **The markup of a tree parses to the tree itself**, whatever its texts and the values of its
attributes are. -/
theorem parse?_markup {tree : Html} (h : tree.WellFormed) :
    parse? tree.markup = some [tree] := by
  have hpieces : pieces? tree.markup.toList = some tree.pieces := by
    rw [markup, String.toList_ofList]
    exact pieces?_chars h.legible
  have hparts : tree.pieces.foldlM Partial.add? ⟨[], []⟩ = some ⟨[tree], []⟩ :=
    foldlM_pieces h (by simp) []
  rw [parse?, hpieces]
  show (tree.pieces.foldlM Partial.add? ⟨[], []⟩ >>= Partial.trees?) = _
  rw [hparts]
  rfl

/-! ## Outlines -/

/-- A tag, with the names of its attributes. -/
inductive Mark where
  | opening (tag : String) (names : List String)
  | closing (tag : String)
deriving DecidableEq, Repr

def Piece.mark? : Piece → Option Mark
  | .opening tag attributes => some (.opening tag (attributes.map Attribute.name))
  | .closing tag => some (.closing tag)
  | .char _ => none

/-- The tags of a tree as they stand in its markup. -/
def outline (tree : Html) : List Mark := tree.pieces.filterMap Piece.mark?

@[simp] theorem outline_text (value : String) : (Html.text value).outline = [] := by
  simp [outline, pieces, Piece.mark?]

@[simp] theorem outline_void (tag : String) (attrs : List Attribute) :
    (Html.void tag attrs).outline = [.opening tag (attrs.map Attribute.name)] := rfl

@[simp] theorem outline_element (tag : String) (attrs : List Attribute) (children : List Html) :
    (Html.element tag attrs children).outline =
      .opening tag (attrs.map Attribute.name) :: (children.flatMap outline ++ [.closing tag]) := by
  have hc : (piecesOfAll children).filterMap Piece.mark? = children.flatMap outline := by
    rw [piecesOfAll_eq, List.filterMap_flatMap]
    rfl
  simp [outline, pieces, Piece.mark?, hc]

end AdminPanel.Html
