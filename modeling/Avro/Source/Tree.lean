import Avro.Source.Lexer

/-!
# Trees of Go source

Types are expressions, as in the grammar: only the context tells them apart. The trees keep the
places that layout asks for.
-/

set_option autoImplicit false

namespace Avro.Source

structure Ident where
  text : Text
  place : Place
deriving Repr, Inhabited

structure Sign where
  text : String
  place : Place
deriving Repr, Inhabited

structure Literal where
  kind : TokenKind
  text : Text
  place : Place
deriving Repr, Inhabited

inductive Direction where
  | both
  | send (arrow : Place)
  | receive
deriving Repr, Inhabited

mutual

inductive Expr where
  | name (ident : Ident)
  | literal (literal : Literal)
  | function (start : Place) (signature : Signature) (body : Block)
  | composite (type : Option Expr) (opening : Place) (elements : List Expr) (closing : Place)
  | paren (opening : Place) (inner : Expr) (closing : Place)
  | selector (base : Expr) (member : Ident)
  | index (base : Expr) (opening : Place) (indices : List Expr) (closing : Place)
  | slice (base : Expr) (opening : Place) (bounds : List (Option Expr)) (closing : Place)
  | assertion (base : Expr) (opening : Place) (type : Option Expr) (closing : Place)
  | call (callee : Expr) (opening : Place) (arguments : List Expr) (dots : Option Place)
      (closing : Place)
  | star (start : Place) (inner : Expr)
  | unary (sign : Sign) (inner : Expr)
  | binary (left : Expr) (sign : Sign) (right : Expr)
  | pair (key : Expr) (colon : Place) (value : Expr)
  | dots (start : Place) (inner : Option Expr)
  | array (opening : Place) (length : Option Expr) (element : Expr)
  | struct (start : Place) (fields : FieldList)
  | signature (start : Place) (signature : Signature)
  | interface (start : Place) (methods : FieldList)
  | map (start : Place) (key value : Expr)
  | channel (start : Place) (direction : Direction) (element : Expr)

/-- A field, a method, or parameters of one type. `remarked` says that a comment follows it. -/
inductive Field where
  | mk (names : List Ident) (type : Expr) (tag : Option Literal) (remarked : Bool)

inductive FieldList where
  | mk (opening : Place) (fields : List Field) (closing : Place)

inductive Signature where
  | mk (parameters : FieldList) (results : Option FieldList)

inductive Spec where
  | package (name : Option Ident) (path : Literal)
  | value (names : List Ident) (type : Option Expr) (values : List Expr) (remarked : Bool)
  | type (name : Ident) (parameters : Option FieldList) (isAlias : Bool) (type : Expr)

/-- Statements. A clause without values, or without an exchange, is the one for all other cases. -/
inductive Statement where
  | empty (place : Place)
  | declare (group : Group)
  | labelled (label : Ident) (colon : Place) (statement : Statement)
  | expression (expr : Expr)
  | send (channel : Expr) (arrow : Place) (value : Expr)
  | step (expr : Expr) (sign : Sign)
  | assign (left : List Expr) (sign : Sign) (right : List Expr)
  | launch (word : String) (start : Place) (call : Expr)
  | result (start : Place) (values : List Expr)
  | jump (word : String) (start : Place) (label : Option Ident)
  | block (block : Block)
  | condition (start : Place) (initial : Option Statement) (test : Expr) (body : Block)
      (otherwise : Option Statement)
  | choice (start : Place) (initial : Option Statement) (tag : Option Expr) (clauses : Block)
  | typeChoice (start : Place) (initial : Option Statement) (guard : Statement) (clauses : Block)
  | clause (start : Place) (values : List Expr) (colon : Place) (body : List Statement)
  | selection (start : Place) (clauses : Block)
  | exchange (start : Place) (exchange : Option Statement) (colon : Place) (body : List Statement)
  | loop (start : Place) (initial : Option Statement) (test : Option Expr)
      (next : Option Statement) (body : Block)
  | traversal (start : Place) (items : List Expr) (sign : Sign) (collection : Expr) (body : Block)

inductive Group where
  | mk (word : String) (start : Place) (specs : List Spec) (parens : Option (Place × Place))

inductive Block where
  | mk (opening : Place) (statements : List Statement) (closing : Place)

end

instance : Inhabited Expr := ⟨.name default⟩

namespace Field

def names : Field → List Ident
  | .mk names _ _ _ => names

def type : Field → Expr
  | .mk _ type _ _ => type

def tag : Field → Option Literal
  | .mk _ _ tag _ => tag

def remarked : Field → Bool
  | .mk _ _ _ remarked => remarked

end Field

namespace FieldList

def opening : FieldList → Place
  | .mk opening _ _ => opening

def fields : FieldList → List Field
  | .mk _ fields _ => fields

def closing : FieldList → Place
  | .mk _ _ closing => closing

end FieldList

def Block.closing : Block → Place
  | .mk _ _ closing => closing

def Expr.place : Expr → Place
  | .name ident => ident.place
  | .literal value => value.place
  | .function start _ _ => start
  | .composite (some type) _ _ _ => type.place
  | .composite none opening _ _ => opening
  | .paren opening _ _ => opening
  | .selector base _ => base.place
  | .index base _ _ _ => base.place
  | .slice base _ _ _ => base.place
  | .assertion base _ _ _ => base.place
  | .call callee _ _ _ _ => callee.place
  | .star start _ => start
  | .unary sign _ => sign.place
  | .binary left _ _ => left.place
  | .pair key _ _ => key.place
  | .dots start _ => start
  | .array opening _ _ => opening
  | .struct start _ => start
  | .signature start _ => start
  | .interface start _ => start
  | .map start _ _ => start
  | .channel start _ _ => start

mutual

def Expr.lastLine : Expr → Nat
  | .name ident => ident.place.line
  | .literal value =>
    value.place.line + (value.text.filter fun cell => cell.isChar '\n').length
  | .function _ _ body => body.closing.line
  | .composite _ _ _ closing => closing.line
  | .paren _ _ closing => closing.line
  | .selector _ member => member.place.line
  | .index _ _ _ closing => closing.line
  | .slice _ _ _ closing => closing.line
  | .assertion _ _ _ closing => closing.line
  | .call _ _ _ _ closing => closing.line
  | .star _ inner => inner.lastLine
  | .unary _ inner => inner.lastLine
  | .binary _ _ right => right.lastLine
  | .pair _ _ value => value.lastLine
  | .dots start none => start.line
  | .dots _ (some inner) => inner.lastLine
  | .array _ _ element => element.lastLine
  | .struct _ fields => fields.closing.line
  | .signature _ type => type.lastLine
  | .interface _ methods => methods.closing.line
  | .map _ _ value => value.lastLine
  | .channel _ _ element => element.lastLine

def Signature.lastLine : Signature → Nat
  | .mk parameters none => parameters.closing.line
  | .mk _ (some (.mk _ [] closing)) => closing.line
  | .mk _ (some (.mk opening (.mk _ type _ _ :: _) closing)) =>
    if closing.line = 0 then type.lastLine else max opening.line closing.line

end

def Field.place (field : Field) : Place :=
  (field.names.head?.map Ident.place).getD field.type.place

def Statement.place : Statement → Place
  | .empty place => place
  | .declare (.mk _ start _ _) => start
  | .labelled label _ _ => label.place
  | .expression expr => expr.place
  | .send channel _ _ => channel.place
  | .step expr _ => expr.place
  | .assign (first :: _) _ _ => first.place
  | .assign [] sign _ => sign.place
  | .launch _ start _ => start
  | .result start _ => start
  | .jump _ start _ => start
  | .block (.mk opening _ _) => opening
  | .condition start _ _ _ _ => start
  | .choice start _ _ _ => start
  | .typeChoice start _ _ _ => start
  | .clause start _ _ _ => start
  | .selection start _ => start
  | .exchange start _ _ _ => start
  | .loop start _ _ _ _ => start
  | .traversal start _ _ _ _ => start

def Statement.labelCount : Statement → Nat
  | .labelled _ _ statement => statement.labelCount + 1
  | _ => 0

def Spec.place : Spec → Place
  | .package (some name) _ => name.place
  | .package none path => path.place
  | .value names _ _ _ => (names.head?.map Ident.place).getD default
  | .type name _ _ _ => name.place

inductive Declaration where
  | group (group : Group) (documented : Bool)
  | function (start : Place) (documented : Bool) (receiver : Option FieldList) (name : Ident)
      (parameters : Option FieldList) (signature : Signature) (body : Option Block)

namespace Declaration

def word : Declaration → String
  | .group (.mk word _ _ _) _ => word
  | .function _ _ _ _ _ _ _ => "func"

def place : Declaration → Place
  | .group (.mk _ start _ _) _ => start
  | .function start _ _ _ _ _ _ => start

def documented : Declaration → Bool
  | .group _ documented => documented
  | .function _ documented _ _ _ _ _ => documented

end Declaration

structure Tree where
  start : Place
  package : Ident
  declarations : List Declaration
  comments : List CommentGroup

/-!
## Parts of Go source

The expressions and statements right below an expression or a statement, and what is searched for
among them.
-/

def FieldList.types (list : FieldList) : List Expr := list.fields.map Field.type

def Signature.types : Signature → List Expr
  | .mk parameters results => parameters.types ++ (results.map FieldList.types).getD []

def Expr.parts : Expr → List Expr
  | .name _ => []
  | .literal _ => []
  | .function _ head _ => head.types
  | .composite type _ elements _ => type.toList ++ elements
  | .paren _ inner _ => [inner]
  | .selector base _ => [base]
  | .index base _ indices _ => base :: indices
  | .slice base _ bounds _ => base :: bounds.filterMap id
  | .assertion base _ type _ => base :: type.toList
  | .call callee _ arguments _ _ => callee :: arguments
  | .star _ inner => [inner]
  | .unary _ inner => [inner]
  | .binary left _ right => [left, right]
  | .pair key _ value => [key, value]
  | .dots _ inner => inner.toList
  | .array _ length element => length.toList ++ [element]
  | .struct _ fields => fields.types
  | .signature _ head => head.types
  | .interface _ methods => methods.types
  | .map _ key value => [key, value]
  | .channel _ _ element => [element]

def Block.statements : Block → List Statement
  | .mk _ statements _ => statements

def Expr.statements : Expr → List Statement
  | .function _ _ body => body.statements
  | _ => []

def Spec.exprs : Spec → List Expr
  | .package _ _ => []
  | .value _ ofType values _ => ofType.toList ++ values
  | .type _ parameters _ meaning => (parameters.map FieldList.types).getD [] ++ [meaning]

def Statement.exprs : Statement → List Expr
  | .declare (.mk _ _ specs _) => specs.flatMap Spec.exprs
  | .expression expr => [expr]
  | .send channel _ value => [channel, value]
  | .step expr _ => [expr]
  | .assign left _ right => left ++ right
  | .launch _ _ call => [call]
  | .result _ values => values
  | .condition _ _ test _ _ => [test]
  | .choice _ _ tag _ => tag.toList
  | .clause _ values _ _ => values
  | .loop _ _ test _ _ => test.toList
  | .traversal _ items _ collection _ => items ++ [collection]
  | _ => []

def Statement.statements : Statement → List Statement
  | .labelled _ _ statement => [statement]
  | .block body => body.statements
  | .condition _ initial _ body otherwise =>
    initial.toList ++ body.statements ++ otherwise.toList
  | .choice _ initial _ clauses => initial.toList ++ clauses.statements
  | .typeChoice _ initial guard clauses => initial.toList ++ guard :: clauses.statements
  | .clause _ _ _ body => body
  | .selection _ clauses => clauses.statements
  | .exchange _ action _ body => action.toList ++ body
  | .loop _ initial _ next body => initial.toList ++ next.toList ++ body.statements
  | .traversal _ _ _ _ body => body.statements
  | _ => []

def isTypeName : Expr → Bool
  | .name _ => true
  | .selector base _ => isTypeName base
  | _ => false

mutual

/-- Whether an expression has a literal whose type is a name, other than within parentheses or other
literals. -/
def hasNamedLiteral : Nat → Expr → Bool
  | 0, _ => false
  | fuel + 1, expr =>
    match expr with
    | .paren _ _ _ => false
    | .composite type _ _ _ => (type.map isTypeName).getD false
    | expr =>
      expr.parts.any (hasNamedLiteral fuel) || expr.statements.any (statementHasNamedLiteral fuel)

def statementHasNamedLiteral : Nat → Statement → Bool
  | 0, _ => false
  | fuel + 1, statement =>
    statement.exprs.any (hasNamedLiteral fuel) ||
      statement.statements.any (statementHasNamedLiteral fuel)

end

def bare (fuel : Nat) : Expr → Expr
  | .paren opening inner closing =>
    if hasNamedLiteral fuel inner then .paren opening inner closing else bare fuel inner
  | expr => expr

end Avro.Source
