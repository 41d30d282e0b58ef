import Avro.Protocol.Read
import Avro.Schema.Tree

/-!
# Writing protocols

The types come first, in order, without those that stand inside an earlier one; messages refer to
them by name.
-/

set_option autoImplicit false

namespace Avro.Protocol

def typeTrees (catalog : Catalog) (space : Text) :
    List Reference → Schema.Seen → List Json × Schema.Seen
  | [], seen => ([], seen)
  | type :: rest, seen =>
    if type.name.text ∈ seen then typeTrees catalog space rest seen
    else
      let (tree, seen) := Schema.treeAfter catalog space (.named type) seen
      let (trees, seen) := typeTrees catalog space rest seen
      (tree :: trees, seen)

def messageTree (catalog : Catalog) (space : Text) (message : Message) (seen : Schema.Seen) :
    Json × Schema.Seen :=
  let writeNamed := Schema.namedTree catalog catalog.length
  let (request, seen) := Schema.fieldsWith writeNamed space message.request seen
  let (response, seen) := Schema.treeWith writeNamed space message.response seen
  let (errors, seen) := Schema.treesWith writeNamed space message.errors seen
  let fixed := (Schema.textMember "doc" message.doc).setAll message.props
  let fixed := (fixed.set "request" (.arr request)).set "response" response
  let fixed := if message.errors.isEmpty then fixed else fixed.set "errors" (.arr errors)
  let fixed := if message.oneWay then fixed.set "one-way" (.bool true) else fixed
  (.obj fixed, seen)

/-- The messages as members. A later message replaces an earlier one of the same name in place. -/
def messageMembers (catalog : Catalog) (space : Text) :
    List Message → Members → Schema.Seen → Members
  | [], members, _ => members
  | message :: rest, members, seen =>
    let (tree, seen) := messageTree catalog space message seen
    messageMembers catalog space rest (members.set message.name tree) seen

def tree (catalog : Catalog) (protocol : Protocol) : Json :=
  let space := protocol.name.space
  let head := Members.one "protocol" (.str protocol.name.simple) ++
    Schema.textMember "namespace" space ++ Schema.textMember "doc" protocol.doc
  let (types, seen) := typeTrees catalog space protocol.types []
  let messages := messageMembers catalog space protocol.messages [] seen
  .obj (((head.setAll protocol.props).set "types" (.arr types)).set "messages" (.obj messages))

def render (catalog : Catalog) (layout : Json.Layout) (protocol : Protocol) : Text :=
  (protocol.tree catalog).render layout

end Avro.Protocol
