import Avro.Source.Tree

/-!
# Reading Go source

A reader takes tokens from the front and fails at the first one that does not fit. The fuel bounds
the nesting: every reader passes on less than it got, and between two tokens only a fixed number of
readers call each other.
-/

set_option autoImplicit false

namespace Avro.Source

/-- What is left to read. The level is that of the brackets around it, counted from below zero in
the head of a statement. -/
structure Remainder where
  tokens : List Token
  level : Int

abbrev Reader := StateT Remainder Option

def peek : Reader Token := do
  match (← get).tokens with
  | token :: _ => return token
  | [] => failure

def take : Reader Token := do
  let remainder ← get
  match remainder.tokens with
  | [token] => return token
  | token :: tokens =>
    set { remainder with tokens }
    return token
  | [] => failure

def atLevel {α : Type} (level : Int → Int) (reader : Reader α) : Reader α := do
  let outer := (← get).level
  modify fun remainder => { remainder with level := level outer }
  let value ← reader
  modify fun remainder => { remainder with level := outer }
  return value

def inBrackets {α : Type} (reader : Reader α) : Reader α := atLevel (· + 1) reader

def inHead {α : Type} (reader : Reader α) : Reader α := atLevel (fun _ => -1) reader

def atMark (mark : String) : Reader Bool := return (← peek).kind == .mark mark

def atWord (word : String) : Reader Bool := return (← peek).kind == .word word

def expect (kind : TokenKind) : Reader Place := do
  let token ← take
  if token.kind == kind then return token.place else failure

def expectMark (mark : String) : Reader Place := expect (.mark mark)

def expectWord (word : String) : Reader Place := expect (.word word)

def takeMark? (mark : String) : Reader (Option Place) := do
  if ← atMark mark then return some (← take).place else return none

def readName : Reader Ident := do
  let token ← take
  if token.kind == .name then return ⟨token.text, token.place⟩ else failure

def readString? : Reader (Option Literal) := do
  let token ← peek
  if token.kind == .string then
    let _ ← take
    return some ⟨token.kind, token.text, token.place⟩
  else return none

def endStatement : Reader Bool := do
  match (← peek).kind with
  | .mark ")" => return false
  | .mark "\x7d" => return false
  | .semicolon true =>
    let _ ← take
    return (← peek).trailed
  | .semicolon false => return (← take).trailed
  | _ => failure

def precedence? : TokenKind → Option Nat
  | .mark mark =>
    if mark = "||" then some 1
    else if mark = "&&" then some 2
    else if ["==", "!=", "<", "<=", ">", ">="].contains mark then some 3
    else if ["+", "-", "|", "^"].contains mark then some 4
    else if ["*", "/", "%", "<<", ">>", "&", "&^"].contains mark then some 5
    else none
  | _ => none

def isUnary (mark : String) : Bool := ["+", "-", "!", "^", "&", "~"].contains mark

def startsType : TokenKind → Bool
  | .name => true
  | .mark mark => ["*", "<-", "("].contains mark
  | .word word => ["func", "chan", "map", "struct", "interface"].contains word
  | _ => false

def unwrapped : Expr → Expr
  | .paren _ inner _ => unwrapped inner
  | expr => expr

def isLiteralType (level : Int) : Expr → Bool
  | .name _ => 0 ≤ level
  | .selector _ _ => 0 ≤ level
  | .index _ _ _ _ => 0 ≤ level
  | .array _ _ _ => true
  | .struct _ _ => true
  | .map _ _ _ => true
  | _ => false

def isParenthesized : Expr → Bool
  | .paren _ _ _ => true
  | _ => false

def isTypeElement : Expr → Bool
  | .array _ _ _ => true
  | .struct _ _ => true
  | .signature _ _ => true
  | .interface _ _ => true
  | .map _ _ _ => true
  | .channel _ _ _ => true
  | .binary left _ right => isTypeElement left || isTypeElement right
  | .unary sign _ => sign.text = "~"
  | .paren _ inner _ => isTypeElement inner
  | _ => false

structure Parameter where
  name : Option Ident
  type : Option Expr

/-- The type parameter that an expression behind a bracket starts with, if it may be one. What could
also be a length is a parameter only if `forced`. -/
def parameterOf? (forced : Bool) : Expr → Option Parameter
  | .name name => some ⟨some name, none⟩
  | .binary (.name name) ⟨"*", place⟩ right =>
    if forced || isTypeElement right then some ⟨some name, some (.star place right)⟩ else none
  | .binary left ⟨"|", place⟩ right =>
    match parameterOf? (forced || isTypeElement right) left with
    | some ⟨name, some type⟩ => some ⟨name, some (.binary type ⟨"|", place⟩ right)⟩
    | _ => none
  | .call (.name name) opening [argument] none closing =>
    if forced || isTypeElement argument then
      some ⟨some name, some (.paren opening argument closing)⟩
    else none
  | _ => none

def namedFields? : List Parameter → Option (List Field)
  | [] => some []
  | ⟨some name, some type⟩ :: rest =>
    (namedFields? rest).map fun fields => .mk [name] type none false :: fields
  | ⟨some name, none⟩ :: rest =>
    match namedFields? rest with
    | some (.mk names type tag remarked :: fields) =>
      some (.mk (name :: names) type tag remarked :: fields)
    | _ => none
  | ⟨none, _⟩ :: _ => none

inductive ParameterKind where
  | value
  | result
  | type
deriving DecidableEq

def ParameterKind.closing : ParameterKind → String
  | .type => "]"
  | _ => ")"

def hasDotsInPlace (kind : ParameterKind) : List Field → Bool
  | [] => true
  | .mk names (.dots _ _) _ _ :: rest => kind = .value && rest.isEmpty && names.length ≤ 1
  | _ :: rest => hasDotsInPlace kind rest

/-- The fields of parameters: without any name next to a type, all are types, which type parameters
must not be. -/
def parameterFields? (kind : ParameterKind) (parameters : List Parameter) :
    Option (List Field) := do
  let fields ←
    if parameters.any fun parameter => parameter.name.isSome && parameter.type.isSome then
      namedFields? parameters
    else if kind = .type && !parameters.isEmpty then none
    else
      parameters.mapM fun parameter =>
        match parameter.type, parameter.name with
        | some type, _ => some (.mk [] type none false)
        | none, some name => some (.mk [] (.name name) none false)
        | none, none => none
  if hasDotsInPlace kind fields then some fields else none

def withArrow? (start : Place) : Expr → Option Expr
  | .channel _ .both element => some (.channel start .receive element)
  | .channel _ (.send arrow) element =>
    (withArrow? arrow element).map fun element => .channel start .receive element
  | _ => none

def isTypeQuestion : Expr → Bool
  | .assertion _ _ none _ => true
  | _ => false

def isTypeGuard : Statement → Bool
  | .expression expr => isTypeQuestion expr
  | .assign [_] ⟨":=", _⟩ [expr] => isTypeQuestion expr
  | _ => false

def isAssignment (mark : String) : Bool :=
  ["=", ":=", "+=", "-=", "*=", "/=", "%=", "&=", "|=", "^=", "<<=", ">>=", "&^="].contains mark

def readImport : Reader Spec := do
  let name ←
    if (← peek).kind == .name then some <$> readName
    else
      match ← takeMark? "." with
      | some place => pure (some ⟨".", place⟩)
      | none => pure none
  match ← readString? with
  | some path =>
    let _ ← endStatement
    return .package name path
  | none => failure

mutual

def readType? : Nat → Reader (Option Expr)
  | 0 => failure
  | fuel + 1 => do
    let token ← peek
    match token.kind with
    | .name => some <$> readNamedType fuel
    | .mark "[" =>
      let _ ← take
      some <$> readArray fuel token.place
    | .mark "*" =>
      let _ ← take
      some <$> (Expr.star token.place <$> readType fuel)
    | .mark "<-" =>
      let _ ← take
      let _ ← expectWord "chan"
      some <$> (Expr.channel token.place .receive <$> readType fuel)
    | .mark "(" =>
      let _ ← take
      let inner ← readType fuel
      return some (.paren token.place inner (← expectMark ")"))
    | .word "chan" =>
      let _ ← take
      let direction := match ← takeMark? "<-" with
        | some arrow => Direction.send arrow
        | none => .both
      some <$> (Expr.channel token.place direction <$> readType fuel)
    | .word "func" =>
      let _ ← take
      some <$> (Expr.signature token.place <$> readSignature fuel)
    | .word "map" =>
      let _ ← take
      let _ ← expectMark "["
      let key ← readType fuel
      let _ ← expectMark "]"
      some <$> (Expr.map token.place key <$> readType fuel)
    | .word "struct" =>
      let _ ← take
      let opening ← expectMark "\x7b"
      let fields ← readFields fuel
      return some (.struct token.place (.mk opening fields (← expectMark "\x7d")))
    | .word "interface" =>
      let _ ← take
      let opening ← expectMark "\x7b"
      let methods ← readMethods fuel
      return some (.interface token.place (.mk opening methods (← expectMark "\x7d")))
    | _ => return none

def readType : Nat → Reader Expr
  | 0 => failure
  | fuel + 1 => do
    match ← readType? fuel with
    | some type => return type
    | none => failure

def readNamedType : Nat → Reader Expr
  | 0 => failure
  | fuel + 1 => do
    let name ← readName
    readQualified fuel name

def readQualified : Nat → Ident → Reader Expr
  | 0, _ => failure
  | fuel + 1, name => do
    let base ← match ← takeMark? "." with
      | some _ => Expr.selector (.name name) <$> readName
      | none => pure (Expr.name name)
    match ← takeMark? "[" with
    | none => return base
    | some opening =>
      let arguments ← inBrackets (readTypes fuel)
      if arguments.isEmpty then failure
      else return .index base opening arguments (← expectMark "]")

def readTypes : Nat → Reader (List Expr)
  | 0 => failure
  | fuel + 1 => do
    if ← atMark "]" then return []
    else
      let type ← readType fuel
      match ← takeMark? "," with
      | some _ => (type :: ·) <$> readTypes fuel
      | none => return [type]

def readArray : Nat → Place → Reader Expr
  | 0, _ => failure
  | fuel + 1, opening => do
    let length ←
      if ← atMark "]" then pure none
      else
        match ← takeMark? "..." with
        | some start => pure (some (Expr.dots start none))
        | none => some <$> inBrackets (readExpr fuel)
    let _ ← expectMark "]"
    Expr.array opening length <$> readType fuel

def readFields : Nat → Reader (List Field)
  | 0 => failure
  | fuel + 1 => do
    match (← peek).kind with
    | .name =>
      let field ← readField fuel
      (field :: ·) <$> readFields fuel
    | .mark "*" =>
      let field ← readField fuel
      (field :: ·) <$> readFields fuel
    | _ => return []

def readField : Nat → Reader Field
  | 0 => failure
  | fuel + 1 => do
    let (names, type) ← match ← takeMark? "*" with
      | some start => do
        let type ← readNamedType fuel
        pure ([], Expr.star start type)
      | none => readNamesAndType fuel
    let tag ← readString?
    return .mk names type tag (← endStatement)

def readNamesAndType : Nat → Reader (List Ident × Expr)
  | 0 => failure
  | fuel + 1 => do
    let name ← readName
    match (← peek).kind with
    | .mark "." =>
      let type ← readQualified fuel name
      return ([], type)
    | .string => return ([], .name name)
    | .semicolon _ => return ([], .name name)
    | .mark "\x7d" => return ([], .name name)
    | .mark "[" =>
      let (name, type) ← readBracketed fuel name
      return (name.toList, type)
    | _ =>
      let names ← readMoreNames fuel
      let type ← readType fuel
      return (name :: names, type)

def readMoreNames : Nat → Reader (List Ident)
  | 0 => failure
  | fuel + 1 => do
    match ← takeMark? "," with
    | some _ =>
      let name ← readName
      (name :: ·) <$> readMoreNames fuel
    | none => return []

def readBracketed : Nat → Ident → Reader (Option Ident × Expr)
  | 0, _ => failure
  | fuel + 1, name => do
    let opening ← expectMark "["
    let (arguments, comma) ← inBrackets (readBracketArguments fuel)
    let closing ← expectMark "]"
    match arguments with
    | [] => return (some name, .array opening none (← readType fuel))
    | [argument] =>
      match ← readType? fuel with
      | some element =>
        if comma then failure else return (some name, .array opening (some argument) element)
      | none => return (none, .index (.name name) opening [argument] closing)
    | arguments => return (none, .index (.name name) opening arguments closing)

def readBracketArguments : Nat → Reader (List Expr × Bool)
  | 0 => failure
  | fuel + 1 => do
    if ← atMark "]" then return ([], false)
    else
      let argument ← readExpr fuel
      match ← takeMark? "," with
      | some _ =>
        if ← atMark "]" then return ([argument], true)
        else
          let (arguments, comma) ← readBracketArguments fuel
          return (argument :: arguments, comma)
      | none => return ([argument], false)

def readMethods : Nat → Reader (List Field)
  | 0 => failure
  | fuel + 1 => do
    if ← atMark "\x7d" then return []
    else
      let method ← readMethod fuel
      let remarked ← endStatement
      let field := match method with
        | (some name, type) => Field.mk [name] type none remarked
        | (none, type) => .mk [] type none remarked
      (field :: ·) <$> readMethods fuel

def readMethod : Nat → Reader (Option Ident × Expr)
  | 0 => failure
  | fuel + 1 => do
    let token ← peek
    if token.kind == .name then
      let name ← readName
      if ← atMark "(" then
        let signature ← readSignature fuel
        return (some name, .signature name.place signature)
      else
        let first ← readQualified fuel name
        return (none, ← readAlternatives fuel first)
    else
      let first ← readAlternative fuel
      return (none, ← readAlternatives fuel first)

def readAlternative : Nat → Reader Expr
  | 0 => failure
  | fuel + 1 => do
    match ← takeMark? "~" with
    | some place => Expr.unary ⟨"~", place⟩ <$> readType fuel
    | none => readType fuel

def readAlternatives : Nat → Expr → Reader Expr
  | 0, _ => failure
  | fuel + 1, left => do
    match ← takeMark? "|" with
    | some place =>
      let right ← readAlternative fuel
      readAlternatives fuel (.binary left ⟨"|", place⟩ right)
    | none => return left

def readParameters : Nat → ParameterKind → Reader FieldList
  | 0, _ => failure
  | fuel + 1, kind => do
    let opening ← expectMark "("
    let parameters ← readParameterList fuel kind
    readParametersEnd fuel kind opening parameters

def readParametersEnd : Nat → ParameterKind → Place → List Parameter → Reader FieldList
  | 0, _, _, _ => failure
  | _ + 1, kind, opening, parameters => do
    let closing ← expectMark kind.closing
    match parameterFields? kind parameters with
    | some fields => return .mk opening fields closing
    | none => failure

def readParameterList : Nat → ParameterKind → Reader (List Parameter)
  | 0, _ => failure
  | fuel + 1, kind => do
    if ← atMark kind.closing then return []
    else
      let parameter ← readParameter fuel kind
      readMoreParameters fuel kind parameter

def readMoreParameters : Nat → ParameterKind → Parameter → Reader (List Parameter)
  | 0, _, _ => failure
  | fuel + 1, kind, parameter => do
    match ← takeMark? "," with
    | some _ => (parameter :: ·) <$> readParameterList fuel kind
    | none => return [parameter]

def readParameter : Nat → ParameterKind → Reader Parameter
  | 0, _ => failure
  | fuel + 1, kind => do
    match ← takeMark? "..." with
    | some start =>
      let type ← readType fuel
      return ⟨none, some (.dots start (some type))⟩
    | none =>
      if (← peek).kind == .name then
        let name ← readName
        readNamedParameter fuel kind name
      else
        let type ← if kind = .type then readAlternative fuel else readType fuel
        return ⟨none, some (← readMoreAlternatives fuel kind type)⟩

def readNamedParameter : Nat → ParameterKind → Ident → Reader Parameter
  | 0, _, _ => failure
  | fuel + 1, kind, name => do
    let next ← peek
    if startsType next.kind || (kind = .type && next.kind == .mark "~") then
      let type ← if kind = .type then readAlternative fuel else readType fuel
      return ⟨some name, some (← readMoreAlternatives fuel kind type)⟩
    else if next.kind == .mark "[" then
      let (name, type) ← readBracketed fuel name
      return ⟨name, some (← readMoreAlternatives fuel kind type)⟩
    else if next.kind == .mark "..." then
      let start ← expectMark "..."
      let type ← readType fuel
      return ⟨some name, some (.dots start (some type))⟩
    else if next.kind == .mark "." then
      let type ← readQualified fuel name
      return ⟨none, some (← readMoreAlternatives fuel kind type)⟩
    else if kind = .type && next.kind == .mark "|" then
      return ⟨none, some (← readAlternatives fuel (.name name))⟩
    else return ⟨some name, none⟩

def readMoreAlternatives : Nat → ParameterKind → Expr → Reader Expr
  | 0, _, _ => failure
  | fuel + 1, kind, type => if kind = .type then readAlternatives fuel type else return type

def readTypeParameters? : Nat → Reader (Option FieldList)
  | 0 => failure
  | fuel + 1 => do
    match ← takeMark? "[" with
    | none => return none
    | some opening =>
      let parameters ← readParameterList fuel .type
      if parameters.isEmpty then failure
      else some <$> readParametersEnd fuel .type opening parameters

def readSignature : Nat → Reader Signature
  | 0 => failure
  | fuel + 1 => do
    let parameters ← readParameters fuel .value
    if ← atMark "(" then
      let results ← readParameters fuel .result
      return .mk parameters (some results)
    else
      match ← readType? fuel with
      | some type => return .mk parameters (some (.mk default [.mk [] type none false] default))
      | none => return .mk parameters none

def readExpr : Nat → Reader Expr
  | 0 => failure
  | fuel + 1 => readTight fuel 1

def readTight : Nat → Nat → Reader Expr
  | 0, _ => failure
  | fuel + 1, least => do
    let left ← readUnary fuel
    readOperators fuel least left

def readOperators : Nat → Nat → Expr → Reader Expr
  | 0, _, _ => failure
  | fuel + 1, least, left => do
    let token ← peek
    match precedence? token.kind with
    | none => return left
    | some tightness =>
      if tightness < least then return left
      else
        let _ ← take
        let right ← readTight fuel (tightness + 1)
        readOperators fuel least (.binary left ⟨Text.shown token.text, token.place⟩ right)

def readUnary : Nat → Reader Expr
  | 0 => failure
  | fuel + 1 => do
    let token ← peek
    match token.kind with
    | .mark "*" =>
      let _ ← take
      Expr.star token.place <$> readUnary fuel
    | .mark "<-" =>
      let _ ← take
      match ← readUnary fuel with
      | .channel start direction element =>
        match withArrow? token.place (.channel start direction element) with
        | some type => return type
        | none => failure
      | inner => return .unary ⟨"<-", token.place⟩ inner
    | .mark mark =>
      if isUnary mark then
        let _ ← take
        Expr.unary ⟨mark, token.place⟩ <$> readUnary fuel
      else readPrimary fuel
    | _ => readPrimary fuel

def readPrimary : Nat → Reader Expr
  | 0 => failure
  | fuel + 1 => do
    let operand ← readOperand fuel
    readSuffixes fuel operand

def readOperand : Nat → Reader Expr
  | 0 => failure
  | fuel + 1 => do
    let token ← peek
    match token.kind with
    | .name => Expr.name <$> readName
    | .integer => readLiteral
    | .float => readLiteral
    | .imaginary => readLiteral
    | .character => readLiteral
    | .string => readLiteral
    | .mark "(" =>
      let _ ← take
      let inner ← inBrackets (readExpr fuel)
      return .paren token.place inner (← expectMark ")")
    | .word "func" =>
      let _ ← take
      let signature ← readSignature fuel
      if ← atMark "\x7b" then
        Expr.function token.place signature <$> inBrackets (readBlock fuel)
      else return .signature token.place signature
    | _ => readType fuel
where
  readLiteral : Reader Expr := do
    let token ← take
    return .literal ⟨token.kind, token.text, token.place⟩

def readSuffixes : Nat → Expr → Reader Expr
  | 0, _ => failure
  | fuel + 1, base => do
    let token ← peek
    match token.kind with
    | .mark "." =>
      let _ ← take
      match ← takeMark? "(" with
      | some opening =>
        let type ←
          if ← atWord "type" then do
            let _ ← take
            pure none
          else some <$> readType fuel
        let closing ← expectMark ")"
        readSuffixes fuel (.assertion base opening type closing)
      | none =>
        let member ← readName
        readSuffixes fuel (.selector base member)
    | .mark "[" =>
      let _ ← take
      let indexed ← inBrackets (readIndex fuel base token.place)
      readSuffixes fuel indexed
    | .mark "(" =>
      let _ ← take
      let (arguments, dots) ← inBrackets (readArguments fuel)
      let closing ← expectMark ")"
      readSuffixes fuel (.call base token.place arguments dots closing)
    | .mark "\x7b" =>
      if isLiteralType (← get).level (unwrapped base) then
        if isParenthesized base then failure
        else
          let _ ← take
          let elements ← inBrackets (readElements fuel)
          let closing ← expectMark "\x7d"
          readSuffixes fuel (.composite (some base) token.place elements closing)
      else return base
    | _ => return base

def readIndex : Nat → Expr → Place → Reader Expr
  | 0, _, _ => failure
  | fuel + 1, base, opening => do
    let first ← readBound fuel
    if ← atMark ":" then
      let bounds ← readBounds fuel
      let closing ← expectMark "]"
      match bounds with
      | [high] => return .slice base opening [first, high] closing
      | [some high, some most] =>
        return .slice base opening [first, some high, some most] closing
      | _ => failure
    else
      match first with
      | none => failure
      | some first =>
        match ← takeMark? "," with
        | some _ =>
          let rest ← readTypes fuel
          return .index base opening (first :: rest) (← expectMark "]")
        | none => return .index base opening [first] (← expectMark "]")

def readBound : Nat → Reader (Option Expr)
  | 0 => failure
  | fuel + 1 => do
    if (← atMark ":") || (← atMark "]") then return none else some <$> readExpr fuel

def readBounds : Nat → Reader (List (Option Expr))
  | 0 => failure
  | fuel + 1 => do
    match ← takeMark? ":" with
    | some _ =>
      let bound ← readBound fuel
      (bound :: ·) <$> readBounds fuel
    | none => return []

def readArguments : Nat → Reader (List Expr × Option Place)
  | 0 => failure
  | fuel + 1 => do
    if ← atMark ")" then return ([], none)
    else
      let argument ← readExpr fuel
      match ← takeMark? "..." with
      | some dots =>
        let _ ← takeMark? ","
        return ([argument], some dots)
      | none =>
        match ← takeMark? "," with
        | some _ =>
          let (arguments, dots) ← readArguments fuel
          return (argument :: arguments, dots)
        | none => return ([argument], none)

def readElements : Nat → Reader (List Expr)
  | 0 => failure
  | fuel + 1 => do
    if ← atMark "\x7d" then return []
    else
      let value ← readElement fuel
      let element ← match ← takeMark? ":" with
        | some colon => Expr.pair value colon <$> readElement fuel
        | none => pure value
      match ← takeMark? "," with
      | some _ => (element :: ·) <$> readElements fuel
      | none => return [element]

def readElement : Nat → Reader Expr
  | 0 => failure
  | fuel + 1 => do
    match ← takeMark? "\x7b" with
    | some opening =>
      let elements ← inBrackets (readElements fuel)
      return .composite none opening elements (← expectMark "\x7d")
    | none => readExpr fuel

def readExprs : Nat → Reader (List Expr)
  | 0 => failure
  | fuel + 1 => do
    let first ← readExpr fuel
    match ← takeMark? "," with
    | some _ => (first :: ·) <$> readExprs fuel
    | none => return [first]

def readBlock : Nat → Reader Block
  | 0 => failure
  | fuel + 1 => do
    let opening ← expectMark "\x7b"
    let statements ← readStatements fuel
    return .mk opening statements (← expectMark "\x7d")

def readStatements : Nat → Reader (List Statement)
  | 0 => failure
  | fuel + 1 => do
    match (← peek).kind with
    | .mark "\x7d" => return []
    | .word "case" => return []
    | .word "default" => return []
    | _ =>
      let statement ← readStatement fuel
      (statement :: ·) <$> readStatements fuel

def readStatement : Nat → Reader Statement
  | 0 => failure
  | fuel + 1 => do
    let token ← peek
    match token.kind with
    | .semicolon _ =>
      let _ ← take
      return .empty token.place
    | .mark "\x7d" => return .empty token.place
    | .mark "\x7b" =>
      let block ← readBlock fuel
      let _ ← endStatement
      return .block block
    | .mark "~" => failure
    | .word word =>
      match word with
      | "const" => Statement.declare <$> readGroup fuel word
      | "var" => Statement.declare <$> readGroup fuel word
      | "type" => Statement.declare <$> readGroup fuel word
      | "go" => readLaunch fuel word
      | "defer" => readLaunch fuel word
      | "return" => readResult fuel
      | "if" => readCondition fuel
      | "switch" => readChoice fuel
      | "select" => readSelection fuel
      | "for" => readLoop fuel
      | _ =>
        if ["break", "continue", "goto", "fallthrough"].contains word then readJump word
        else readSimpleOrLabelled fuel
    | _ => readSimpleOrLabelled fuel
where
  readJump (word : String) : Reader Statement := do
    let start ← expectWord word
    let isNamed := (← peek).kind == .name
    let label ←
      if word = "goto" || (isNamed && word != "fallthrough") then some <$> readName
      else pure none
    let _ ← endStatement
    return .jump word start label

def readSimpleOrLabelled : Nat → Reader Statement
  | 0 => failure
  | fuel + 1 => do
    match ← readSimple fuel with
    | .expression (.name label) =>
      match ← takeMark? ":" with
      | some colon => Statement.labelled label colon <$> readStatement fuel
      | none =>
        let _ ← endStatement
        return .expression (.name label)
    | statement =>
      let _ ← endStatement
      return statement

def readSimple : Nat → Reader Statement
  | 0 => failure
  | fuel + 1 => do
    let left ← readExprs fuel
    readAction fuel left

def readAction : Nat → List Expr → Reader Statement
  | 0, _ => failure
  | fuel + 1, left => do
    let next ← peek
    match next.kind, left with
    | .mark "++", [expr] =>
      let _ ← take
      return .step expr ⟨"++", next.place⟩
    | .mark "--", [expr] =>
      let _ ← take
      return .step expr ⟨"--", next.place⟩
    | .mark "<-", [channel] =>
      let _ ← take
      Statement.send channel next.place <$> readExpr fuel
    | .mark mark, left =>
      if isAssignment mark then
        let _ ← take
        Statement.assign left ⟨mark, next.place⟩ <$> readExprs fuel
      else
        match left with
        | [expr] => return .expression expr
        | _ => failure
    | _, [expr] => return .expression expr
    | _, _ => failure

def readLaunch : Nat → String → Reader Statement
  | 0, _ => failure
  | fuel + 1, word => do
    let start ← expectWord word
    match ← readExpr fuel with
    | .call callee opening arguments dots closing =>
      let _ ← endStatement
      return .launch word start (.call callee opening arguments dots closing)
    | _ => failure

def readResult : Nat → Reader Statement
  | 0 => failure
  | fuel + 1 => do
    let start ← expectWord "return"
    let values ← match (← peek).kind with
      | .semicolon _ => pure []
      | .mark "\x7d" => pure []
      | _ => readExprs fuel
    let _ ← endStatement
    return .result start values

def readCondition : Nat → Reader Statement
  | 0 => failure
  | fuel + 1 => do
    let start ← expectWord "if"
    let (initial, test) ← inHead (readTest fuel)
    let body ← readBlock fuel
    if ← atWord "else" then
      let _ ← take
      if ← atWord "if" then
        let otherwise ← readCondition fuel
        return .condition start initial test body (some otherwise)
      else
        let block ← readBlock fuel
        let _ ← endStatement
        return .condition start initial test body (some (.block block))
    else
      let _ ← endStatement
      return .condition start initial test body none

def readTest : Nat → Reader (Option Statement × Expr)
  | 0 => failure
  | fuel + 1 => do
    let first ← readBefore fuel
    match (← peek).kind, first with
    | .mark "\x7b", some (.expression test) => return (none, test)
    | .semicolon _, initial =>
      let _ ← take
      match ← readSimple fuel with
      | .expression test => return (initial, test)
      | _ => failure
    | _, _ => failure

def readBefore : Nat → Reader (Option Statement)
  | 0 => failure
  | fuel + 1 => do
    match (← peek).kind with
    | .semicolon _ => return none
    | .mark "\x7b" => return none
    | _ => some <$> readSimple fuel

def readChoice : Nat → Reader Statement
  | 0 => failure
  | fuel + 1 => do
    let start ← expectWord "switch"
    let (initial, tag) ← inHead (readTag fuel)
    let opening ← expectMark "\x7b"
    let clauses ← readClauses fuel
    let closing ← expectMark "\x7d"
    let _ ← endStatement
    let clauses : Block := .mk opening clauses closing
    match tag with
    | none => return .choice start initial none clauses
    | some guard =>
      if isTypeGuard guard then return .typeChoice start initial guard clauses
      else
        match guard with
        | .expression tag => return .choice start initial (some tag) clauses
        | _ => failure

def readTag : Nat → Reader (Option Statement × Option Statement)
  | 0 => failure
  | fuel + 1 => do
    let first ← readBefore fuel
    match (← peek).kind with
    | .semicolon _ =>
      let _ ← take
      if ← atMark "\x7b" then return (first, none)
      else return (first, some (← readSimple fuel))
    | _ => return (none, first)

def readClauses : Nat → Reader (List Statement)
  | 0 => failure
  | fuel + 1 => do
    let token ← peek
    match token.kind with
    | .word "case" =>
      let _ ← take
      let values ← readExprs fuel
      let clause ← readClauseBody fuel (.clause token.place values)
      (clause :: ·) <$> readClauses fuel
    | .word "default" =>
      let _ ← take
      let clause ← readClauseBody fuel (.clause token.place [])
      (clause :: ·) <$> readClauses fuel
    | _ => return []

def readClauseBody : Nat → (Place → List Statement → Statement) → Reader Statement
  | 0, _ => failure
  | fuel + 1, clause => do
    let colon ← expectMark ":"
    clause colon <$> readStatements fuel

def readSelection : Nat → Reader Statement
  | 0 => failure
  | fuel + 1 => do
    let start ← expectWord "select"
    let opening ← expectMark "\x7b"
    let clauses ← readExchanges fuel
    let closing ← expectMark "\x7d"
    let _ ← endStatement
    return .selection start (.mk opening clauses closing)

def readExchanges : Nat → Reader (List Statement)
  | 0 => failure
  | fuel + 1 => do
    let token ← peek
    match token.kind with
    | .word "case" =>
      let _ ← take
      let exchange ← readExchange fuel
      let clause ← readClauseBody fuel (.exchange token.place (some exchange))
      (clause :: ·) <$> readExchanges fuel
    | .word "default" =>
      let _ ← take
      let clause ← readClauseBody fuel (.exchange token.place none)
      (clause :: ·) <$> readExchanges fuel
    | _ => return []

def readExchange : Nat → Reader Statement
  | 0 => failure
  | fuel + 1 => do
    let left ← readExprs fuel
    let next ← peek
    match next.kind, left with
    | .mark "<-", [channel] =>
      let _ ← take
      Statement.send channel next.place <$> readExpr fuel
    | .mark mark, left =>
      if (mark = "=" || mark = ":=") && left.length ≤ 2 then
        let _ ← take
        let value ← readExpr fuel
        return .assign left ⟨mark, next.place⟩ [value]
      else
        match left with
        | [expr] => return .expression expr
        | _ => failure
    | _, [expr] => return .expression expr
    | _, _ => failure

def readLoop : Nat → Reader Statement
  | 0 => failure
  | fuel + 1 => do
    let start ← expectWord "for"
    let head ← inHead (readLoopHead fuel start)
    let body ← readBlock fuel
    let _ ← endStatement
    return head body

def readLoopHead : Nat → Place → Reader (Block → Statement)
  | 0, _ => failure
  | fuel + 1, start => do
    match (← peek).kind with
    | .mark "\x7b" => return .loop start none none none
    | .semicolon _ => readLoopRest fuel start none
    | .word "range" => readTraversal fuel start [] ⟨"", default⟩
    | _ =>
      let left ← readExprs fuel
      let next ← peek
      let sign? := match next.kind with
        | .mark ":=" => some ":="
        | .mark "=" => some "="
        | _ => none
      match sign? with
      | some sign =>
        let _ ← take
        if ← atWord "range" then
          if left.length ≤ 2 then readTraversal fuel start left ⟨sign, next.place⟩ else failure
        else
          let right ← readExprs fuel
          readLoopRest fuel start (some (.assign left ⟨sign, next.place⟩ right))
      | none =>
        let first ← readAction fuel left
        match first, ← atMark "\x7b" with
        | .expression test, true => return .loop start none (some test) none
        | first, _ => readLoopRest fuel start (some first)

def readLoopRest : Nat → Place → Option Statement → Reader (Block → Statement)
  | 0, _, _ => failure
  | fuel + 1, start, initial => do
    let _ ← expectSemicolon
    let test ← match (← peek).kind with
      | .semicolon _ => pure none
      | _ => do
        match ← readSimple fuel with
        | .expression test => pure (some test)
        | _ => failure
    let _ ← expectSemicolon
    let next ← if ← atMark "\x7b" then pure none else some <$> readSimple fuel
    return .loop start initial test next
where
  expectSemicolon : Reader Token := do
    match (← peek).kind with
    | .semicolon _ => take
    | _ => failure

def readTraversal : Nat → Place → List Expr → Sign → Reader (Block → Statement)
  | 0, _, _, _ => failure
  | fuel + 1, start, items, sign => do
    let _ ← expectWord "range"
    let collection ← readExpr fuel
    return .traversal start items sign collection

def readValues : Nat → String → Reader Spec
  | 0, _ => failure
  | fuel + 1, word => do
    let name ← readName
    let names ← readMoreNames fuel
    let type ←
      if word = "const" then readType? fuel
      else if ← atMark "=" then pure none
      else some <$> readType fuel
    let values ← match ← takeMark? "=" with
      | some _ => readExprs fuel
      | none => pure []
    return .value (name :: names) type values (← endStatement)

def readTypeSpec : Nat → Reader Spec
  | 0 => failure
  | fuel + 1 => do
    let name ← readName
    match ← takeMark? "[" with
    | some opening =>
      if (← peek).kind == .name then readBracketedSpec fuel name opening
      else
        let type ← readArray fuel opening
        let _ ← endStatement
        return .type name none false type
    | none => readSpecType fuel name none

def readBracketedSpec : Nat → Ident → Place → Reader Spec
  | 0, _, _ => failure
  | fuel + 1, name, opening => do
    let first ← readName
    let expr ←
      if ← atMark "[" then pure (Expr.name first)
      else
        inBrackets do
          let left ← readSuffixes fuel (.name first)
          readOperators fuel 1 left
    let isLast ← atMark "]"
    match parameterOf? (← atMark ",") expr with
    | some ⟨parameter, some type⟩ =>
      let type ← readAlternatives fuel type
      readParameterizedSpec fuel name opening ⟨parameter, some type⟩
    | some ⟨some first, none⟩ =>
      if isLast then readArraySpec fuel name opening expr
      else
        let parameter ← readNamedParameter fuel .type first
        readParameterizedSpec fuel name opening parameter
    | _ => readArraySpec fuel name opening expr

def readArraySpec : Nat → Ident → Place → Expr → Reader Spec
  | 0, _, _, _ => failure
  | fuel + 1, name, opening, length => do
    let _ ← expectMark "]"
    let element ← readType fuel
    let _ ← endStatement
    return .type name none false (.array opening (some length) element)

def readParameterizedSpec : Nat → Ident → Place → Parameter → Reader Spec
  | 0, _, _, _ => failure
  | fuel + 1, name, opening, parameter => do
    let parameters ← readMoreParameters fuel .type parameter
    let parameters ← readParametersEnd fuel .type opening parameters
    readSpecType fuel name (some parameters)

def readSpecType : Nat → Ident → Option FieldList → Reader Spec
  | 0, _, _ => failure
  | fuel + 1, name, parameters => do
    let isAlias := (← takeMark? "=").isSome
    let type ← readType fuel
    let _ ← endStatement
    return .type name parameters isAlias type

def readSpec : Nat → String → Reader Spec
  | 0, _ => failure
  | fuel + 1, word =>
    if word = "import" then readImport
    else if word = "type" then readTypeSpec fuel
    else readValues fuel word

def readSpecs : Nat → String → Reader (List Spec)
  | 0, _ => failure
  | fuel + 1, word => do
    if ← atMark ")" then return []
    else
      let spec ← readSpec fuel word
      (spec :: ·) <$> readSpecs fuel word

def readGroup : Nat → String → Reader Group
  | 0, _ => failure
  | fuel + 1, word => do
    let start ← expectWord word
    match ← takeMark? "(" with
    | some opening =>
      let specs ← readSpecs fuel word
      let closing ← expectMark ")"
      let _ ← endStatement
      return .mk word start specs (some (opening, closing))
    | none =>
      let spec ← readSpec fuel word
      return .mk word start [spec] none

end

def readFunction (fuel : Nat) : Reader Declaration := do
  let token ← take
  let receiver ← if ← atMark "(" then some <$> readParameters fuel .value else pure none
  let name ← readName
  let parameters ← readTypeParameters? fuel
  if receiver.isSome && parameters.isSome then failure
  let signature ← readSignature fuel
  let body ← if ← atMark "\x7b" then some <$> readBlock fuel else pure none
  let _ ← endStatement
  return .function token.place token.led receiver name parameters signature body

def readDeclarations : Nat → Bool → Reader (List Declaration)
  | 0, _ => failure
  | fuel + 1, importing => do
    let token ← peek
    match token.kind with
    | .ending => return []
    | .word word =>
      if word = "import" && !importing then failure
      else if word = "func" then
        let declaration ← readFunction fuel
        (declaration :: ·) <$> readDeclarations fuel false
      else if ["import", "const", "var", "type"].contains word then
        let group ← readGroup fuel word
        (Declaration.group group token.led :: ·) <$> readDeclarations fuel (word = "import")
      else failure
    | _ => failure

def parse? (text : Text) : Option Tree := do
  let (tokens, comments) ← lex? text
  let fuel := 16 * (tokens.length + 1)
  let reader : Reader Tree := do
    let start ← expectWord "package"
    let name ← readName
    let _ ← endStatement
    let declarations ← readDeclarations fuel true
    return ⟨start, name, declarations, comments⟩
  let (tree, _) ← reader.run ⟨tokens, 0⟩
  return tree

end Avro.Source
