import AdminPanel.Html.Basic

/-! # Reading markup

What is found in a tree, in the order of the document: its elements with a tag, its texts, and its
labels for assistive technology. Everything is read off the nodes of the tree, at any depth. What
an attribute list says about one name is told piece by piece. -/
namespace AdminPanel

/-! ## Attributes -/

namespace Attribute

def occurs (name : String) (attrs : List Attribute) : Bool :=
  attrs.any fun attr => attr.name == name

/-- The value of the first attribute with a name, if it has one. -/
def lookup? (name : String) (attrs : List Attribute) : Option String :=
  (attrs.find? fun attr => attr.name == name).bind Attribute.value

variable (name other : String) (attrs : List Attribute)

@[simp] theorem occurs_nil : occurs name [] = false := rfl

@[simp] theorem occurs_append (more : List Attribute) :
    occurs name (attrs ++ more) = (occurs name attrs || occurs name more) := List.any_append

@[simp] theorem occurs_of (value : String) :
    occurs name (of other value :: attrs) = (other == name || occurs name attrs) := rfl

@[simp] theorem occurs_classes (texts : List String) :
    occurs name (classes texts :: attrs) = ("class" == name || occurs name attrs) := rfl

@[simp] theorem occurs_optional (value : Option String) :
    occurs name (optional other value) = (value.isSome && other == name) := by
  cases value <;> simp [optional]

@[simp] theorem occurs_toggled (set : Bool) :
    occurs name (toggled other set) = (set && other == name) := by
  cases set <;> simp [toggled]

@[simp] theorem occurs_bare (set : Bool) :
    occurs name (bare other set) = (set && other == name) := by
  cases set <;> simp [bare, occurs]

@[simp] theorem lookup?_nil : lookup? name [] = none := rfl

@[simp] theorem lookup?_of (value : String) :
    lookup? name (of other value :: attrs) =
      if other = name then some value else lookup? name attrs := by
  by_cases h : other = name <;> simp [lookup?, of, h]

@[simp] theorem lookup?_classes (texts : List String) :
    lookup? name (classes texts :: attrs) =
      if "class" = name then (classes texts).value else lookup? name attrs := lookup?_of ..

@[simp] theorem lookup?_optional (value : Option String) :
    lookup? name (optional other value ++ attrs) =
      if other = name then value.or (lookup? name attrs) else lookup? name attrs := by
  cases value <;> simp [optional]

@[simp] theorem lookup?_toggled (set : Bool) :
    lookup? name (toggled other set ++ attrs) =
      if set = true ∧ other = name then some other else lookup? name attrs := by
  cases set <;> simp [toggled]

@[simp] theorem lookup?_bare (set : Bool) :
    lookup? name (bare other set ++ attrs) =
      if set = true ∧ other = name then none else lookup? name attrs := by
  by_cases h : other = name <;> cases set <;> simp [bare, lookup?, h]

end Attribute

namespace Html

/-- What holds of a node when it holds of its children holds of every tree. -/
@[elab_as_elim] theorem inductionOn {motive : Html → Prop} (tree : Html)
    (text : ∀ value, motive (.text value))
    (element : ∀ tag attributes children, (∀ child ∈ children, motive child) →
      motive (.element tag attributes children))
    (void : ∀ tag attributes, motive (.void tag attributes)) : motive tree :=
  match tree with
  | .text value => text value
  | .element tag attributes children =>
    element tag attributes children fun child _ => inductionOn child text element void
  | .void tag attributes => void tag attributes

mutual

/-- The tree itself and all that is below it. -/
def nodes : Html → List Html
  | .text value => [.text value]
  | .element tag attributes children => .element tag attributes children :: nodesOfAll children
  | .void tag attributes => [.void tag attributes]

def nodesOfAll : List Html → List Html
  | [] => []
  | tree :: trees => nodes tree ++ nodesOfAll trees

end

def tag? : Html → Option String
  | .text _ => none
  | .element tag _ _ => some tag
  | .void tag _ => some tag

def attributes : Html → List Attribute
  | .text _ => []
  | .element _ attributes _ => attributes
  | .void _ attributes => attributes

def has (tree : Html) (name : String) : Bool := Attribute.occurs name tree.attributes

def value? (tree : Html) (name : String) : Option String := Attribute.lookup? name tree.attributes

def written? : Html → Option String
  | .text value => some value
  | _ => none

/-- The elements with a tag. -/
def find (tree : Html) (tag : String) : List Html :=
  tree.nodes.filter fun node => node.tag? == some tag

def texts (tree : Html) : List String := tree.nodes.filterMap written?

def labels (tree : Html) : List String := tree.nodes.filterMap fun node => node.value? "aria-label"

/-- The texts below the elements with a tag. -/
def textsIn (tree : Html) (tag : String) : List String := (tree.find tag).flatMap texts

/-! ## Node by node -/

theorem nodesOfAll_eq (trees : List Html) : nodesOfAll trees = trees.flatMap nodes := by
  induction trees with
  | nil => rfl
  | cons tree trees ih => rw [nodesOfAll, ih, List.flatMap_cons]

theorem forall_mem_nodes_element {p : Html → Prop} {tag : String} {attrs : List Attribute}
    {children : List Html} :
    (∀ node ∈ (Html.element tag attrs children).nodes, p node) ↔
      p (.element tag attrs children) ∧ ∀ child ∈ children, ∀ node ∈ child.nodes, p node := by
  rw [nodes, nodesOfAll_eq, List.forall_mem_cons, List.forall_mem_flatMap]

@[simp] theorem find_text (value tag : String) : (Html.text value).find tag = [] := rfl

@[simp] theorem find_void (name : String) (attrs : List Attribute) (tag : String) :
    (Html.void name attrs).find tag = if name = tag then [.void name attrs] else [] := by
  by_cases h : name = tag <;> simp [find, nodes, tag?, h]

@[simp] theorem find_element (name : String) (attrs : List Attribute) (children : List Html)
    (tag : String) :
    (Html.element name attrs children).find tag =
      (if name = tag then [.element name attrs children] else []) ++
        children.flatMap fun child => child.find tag := by
  have hc : children.flatMap (fun child => child.find tag) =
      (nodesOfAll children).filter fun node => node.tag? == some tag := by
    rw [nodesOfAll_eq, List.filter_flatMap]
    rfl
  rw [hc]
  by_cases h : name = tag <;> simp [find, nodes, tag?, h]

@[simp] theorem texts_text (value : String) : (Html.text value).texts = [value] := rfl

@[simp] theorem texts_void (tag : String) (attrs : List Attribute) :
    (Html.void tag attrs).texts = [] := rfl

@[simp] theorem texts_element (tag : String) (attrs : List Attribute) (children : List Html) :
    (Html.element tag attrs children).texts = children.flatMap texts := by
  rw [texts, nodes, List.filterMap_cons_none rfl, nodesOfAll_eq, List.filterMap_flatMap]
  rfl

@[simp] theorem labels_text (value : String) : (Html.text value).labels = [] := rfl

@[simp] theorem labels_void (tag : String) (attrs : List Attribute) :
    (Html.void tag attrs).labels = (Attribute.lookup? "aria-label" attrs).toList := by
  cases h : Attribute.lookup? "aria-label" attrs <;> simp [labels, nodes, value?, attributes, h]

@[simp] theorem labels_element (tag : String) (attrs : List Attribute) (children : List Html) :
    (Html.element tag attrs children).labels =
      (Attribute.lookup? "aria-label" attrs).toList ++ children.flatMap labels := by
  have hc : children.flatMap labels =
      (nodesOfAll children).filterMap fun node => node.value? "aria-label" := by
    rw [nodesOfAll_eq, List.filterMap_flatMap]
    rfl
  rw [hc]
  cases h : Attribute.lookup? "aria-label" attrs <;> simp [labels, nodes, value?, attributes, h]

@[simp] theorem has_element (tag name : String) (attrs : List Attribute) (children : List Html) :
    (Html.element tag attrs children).has name = Attribute.occurs name attrs := rfl

@[simp] theorem has_void (tag name : String) (attrs : List Attribute) :
    (Html.void tag attrs).has name = Attribute.occurs name attrs := rfl

end Html

end AdminPanel
