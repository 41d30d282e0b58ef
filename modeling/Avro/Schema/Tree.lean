import Avro.Schema.Basic
import Avro.Json.Write

/-!
# Writing schemas

The JSON form of a schema writes a named type in full where it first occurs and by its name from
then on, so the form stands on its own. Keys come in a fixed order and custom properties after them;
a property with the key of a fixed one replaces its value in place. Each definition entered adds a
name, so definitions nest no deeper than the catalog is long: that bounds the recursion.
-/

set_option autoImplicit false

namespace Avro.Schema

abbrev Seen := List Text

abbrev WriteNamed := Text → Reference → Seen → Json × Seen

def textArray (texts : List Text) : Json := .arr (texts.map .str)

def aliasMembers : Option (List Text) → Members
  | some (first :: rest) => .one "aliases" (textArray (first :: rest))
  | _ => []

def textMember (key text : Text) : Members := if text.isEmpty then [] else .one key (.str text)

def objectTree (fixed props : Members) (aliases : Option (List Text)) : Json :=
  .obj ((fixed.setAll props).setAll (aliasMembers aliases))

def primitiveTree (kind : Primitive) (props : Members) : Json :=
  if props.isEmpty then .str kind.name
  else objectTree (.one "type" (.str kind.name)) props none

def containerTree (kind : Container) (inner : Json) (props : Members) : Json :=
  objectTree (Members.one "type" (.str kind.name) ++ Members.one kind.key inner) props none

mutual

def treeWith (writeNamed : WriteNamed) (space : Text) : Schema → Seen → Json × Seen
  | .primitive kind props, seen => (primitiveTree kind props, seen)
  | .container kind inner props, seen =>
    let (inner, seen) := treeWith writeNamed space inner seen
    (containerTree kind inner props, seen)
  | .union branches _, seen =>
    let (branches, seen) := treesWith writeNamed space branches seen
    (.arr branches, seen)
  | .named reference, seen => writeNamed space reference seen

def treesWith (writeNamed : WriteNamed) (space : Text) : List Schema → Seen → List Json × Seen
  | [], seen => ([], seen)
  | schema :: rest, seen =>
    let (tree, seen) := treeWith writeNamed space schema seen
    let (trees, seen) := treesWith writeNamed space rest seen
    (tree :: trees, seen)

end

def fieldMembers (field : Field) (type : Json) : Members :=
  Members.one "name" (.str field.name) ++ Members.one "type" type ++
    textMember "doc" field.doc ++ (field.default.elim [] (Members.one "default")) ++
    (if field.order = .ascending then [] else Members.one "order" (.str field.order.name))

def fieldTree (field : Field) (type : Json) : Json :=
  objectTree (fieldMembers field type) field.props field.aliases

def fieldsWith (writeNamed : WriteNamed) (space : Text) : List Field → Seen → List Json × Seen
  | [], seen => ([], seen)
  | field :: rest, seen =>
    let (type, seen) := treeWith writeNamed space field.type seen
    let (trees, seen) := fieldsWith writeNamed space rest seen
    (fieldTree field type :: trees, seen)

def bodyMembers (fields : List Json) : Body → Members
  | .record _ _ => .one "fields" (.arr fields)
  | .enum symbols default =>
    Members.one "symbols" (textArray symbols) ++
      default.elim [] (fun symbol => Members.one "default" (.str symbol))
  | .fixed size => .one "size" (.int size)

def headMembers (space : Text) (definition : Definition) : Members :=
  Members.one "type" (.str definition.body.kindName) ++
    Members.one "name" (.str definition.name.simple) ++
    (if definition.name.space = space then []
      else Members.one "namespace" (.str definition.name.space)) ++
    textMember "doc" definition.doc

def definitionTree (space : Text) (definition : Definition) (fields : List Json) : Json :=
  objectTree (headMembers space definition ++ bodyMembers fields definition.body) definition.props
    definition.aliases

def writtenName (space : Text) (name : FullName) : Text :=
  if name.space = space then name.simple else name.text

/-- Writes a reference: by name if the type is written already, and in full otherwise. The first
argument bounds how deep definitions nest. -/
def namedTree (catalog : Catalog) : Nat → WriteNamed
  | depth, space, reference, seen =>
    if reference.name.text ∈ seen then (.str (writtenName space reference.name), seen)
    else
      match depth, catalog.find? reference with
      | depth + 1, some definition =>
        let (fields, seen) := fieldsWith (namedTree catalog depth) definition.name.space
          definition.body.fields (reference.name.text :: seen)
        (definitionTree space definition fields, seen)
      | _, _ => (.null, seen)

def treeAfter (catalog : Catalog) (space : Text) (schema : Schema) (seen : Seen) : Json × Seen :=
  treeWith (namedTree catalog catalog.length) space schema seen

def tree (catalog : Catalog) (schema : Schema) : Json := (treeAfter catalog [] schema []).1

def render (catalog : Catalog) (layout : Json.Layout) (schema : Schema) : Text :=
  (schema.tree catalog).render layout

/-- The canonical text of a schema: two types of one name are the same type iff these agree. -/
def canonical (catalog : Catalog) (schema : Schema) : Text := schema.render catalog .spacious

end Avro.Schema
