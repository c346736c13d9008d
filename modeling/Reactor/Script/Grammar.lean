import Reactor.Script.Program

/-!
# From tokens to programs

Expressions are read by the binding strength of their operators, statements by their first word.
Three rules about names are checked on the way: nothing is assigned to a constant, a loop is left
only inside of one, and `...` occurs only in functions that take further arguments.

Every function here has a bound on the depth of its calls as its first argument. A call that reads
a part of the tokens takes at least one token every few calls, so a multiple of the number of
tokens is enough.
-/

namespace Reactor.Script.Grammar

/-- A reader of tokens, which may fail. -/
abbrev Reader := StateT (List Token) Option

/-- What is known at a place of a program. -/
structure Scope where
  /-- The local variables, innermost first, and whether they are constant. -/
  locals : List (String × Bool)
  inLoop : Bool
  variadic : Bool
  /-- How many statements and expressions the place is inside of. -/
  level : Nat

def maxLevel : Nat :=
  200

namespace Scope

def deeper? (scope : Scope) : Option Scope :=
  if scope.level + 1 < maxLevel then some { scope with level := scope.level + 1 } else none

def declare (scope : Scope) (names : List String) : Scope :=
  { scope with locals := names.reverse.map (·, false) ++ scope.locals }

def isConst (scope : Scope) (name : String) : Bool :=
  (scope.locals.lookup name).getD false

end Scope

/-! ## Single tokens -/

/-- Whether the next token is the given word or mark. -/
def sees (text : String) : Reader Bool := do
  match (← get).head? with
  | some (.fixed t) => pure (t = text)
  | _ => pure false

def take : Reader Token := do
  match ← get with
  | [] => failure
  | token :: rest =>
    set rest
    pure token

/-- Takes the given word or mark if it comes next. -/
def accept (text : String) : Reader Bool := do
  if ← sees text then
    discard take
    pure true
  else pure false

/-- Takes the given word or mark, which has to come next. -/
def expect (text : String) : Reader Unit := do
  if ← accept text then pure () else failure

def name : Reader String := do
  match ← take with
  | .name text => pure text
  | _ => failure

def atBlockEnd : Reader Bool := do
  match (← get).head? with
  | none => pure true
  | some (.fixed text) => pure (["end", "else", "elseif", "until"].contains text)
  | _ => pure false

/-! ## Operators -/

/-- The reading of two operands as one expression. -/
abbrev Join := Expr → Expr → Expr

/-- How strongly an operator binds to the left and to the right, and what it means. -/
def binaryOperator? : String → Option (Nat × Nat × Join)
  | "or" => some (1, 1, .or)
  | "and" => some (2, 2, .and)
  | "<" => some (3, 3, .relation .lt)
  | ">" => some (3, 3, .relation .gt)
  | "<=" => some (3, 3, .relation .le)
  | ">=" => some (3, 3, .relation .ge)
  | "~=" => some (3, 3, .relation .ne)
  | "==" => some (3, 3, .relation .eq)
  | "|" => some (4, 4, .arithmetic .bitOr)
  | "~" => some (5, 5, .arithmetic .bitXor)
  | "&" => some (6, 6, .arithmetic .bitAnd)
  | "<<" => some (7, 7, .arithmetic .shiftLeft)
  | ">>" => some (7, 7, .arithmetic .shiftRight)
  | ".." => some (9, 8, .concat)
  | "+" => some (10, 10, .arithmetic .add)
  | "-" => some (10, 10, .arithmetic .sub)
  | "*" => some (11, 11, .arithmetic .mul)
  | "/" => some (11, 11, .arithmetic .div)
  | "//" => some (11, 11, .arithmetic .floorDiv)
  | "%" => some (11, 11, .arithmetic .mod)
  | "^" => some (14, 13, .arithmetic .power)
  | _ => none

/-- How strongly the operators of one operand bind. -/
def unaryStrength : Nat :=
  12

def unaryOperator? : String → Option UnaryOp
  | "not" => some .not
  | "-" => some .negate
  | "~" => some .bitNot
  | "#" => some .length
  | _ => none

/-- The operator of two operands that comes next, if it binds more strongly than `limit`. -/
def nextBinary? (limit : Nat) : Reader (Option (Nat × Join)) := do
  match (← get).head? with
  | some (.fixed text) =>
    match binaryOperator? text with
    | some (left, right, join) => pure (if limit < left then some (right, join) else none)
    | none => pure none
  | _ => pure none

/-- Takes an operator of one operand if it comes next. -/
def acceptUnary : Reader (Option UnaryOp) := do
  match (← get).head? with
  | some (.fixed text) =>
    match unaryOperator? text with
    | some op =>
      discard take
      pure (some op)
    | none => pure none
  | _ => pure none

/-! ## Names -/

def attribute? : String → Option Attribute
  | "const" => some .const
  | "close" => some .close
  | _ => none

/-- The names of local variables with their attributes, given a bound on their number. -/
def attributedNames : Nat → Reader (List (String × Attribute))
  | 0 => failure
  | n + 1 => do
    let x ← name
    let kind ←
      if ← accept "<" then do
        let kind ← liftM (attribute? (← name))
        expect ">"
        pure kind
      else pure .regular
    if ← accept "," then pure ((x, kind) :: (← attributedNames n)) else pure [(x, kind)]

def names : Nat → Reader (List String)
  | 0 => failure
  | n + 1 => do
    let x ← name
    if ← accept "," then pure (x :: (← names n)) else pure [x]

/-- The parameters of a function up to the closing parenthesis, and whether it takes further
arguments. -/
def parameters : Nat → Reader (List String × Bool)
  | 0 => failure
  | n + 1 => do
    if ← accept "..." then
      expect ")"
      pure ([], true)
    else
      let x ← name
      if ← accept "," then
        let (rest, variadic) ← parameters n
        pure (x :: rest, variadic)
      else
        expect ")"
        pure ([x], false)

def isTarget (scope : Scope) : Expr → Bool
  | .name x => !scope.isConst x
  | .index _ _ => true
  | _ => false

def isCall : Expr → Bool
  | .call _ _ => true
  | .method _ _ _ => true
  | _ => false

/-! ## Expressions and statements -/

mutual

/-- An expression whose operators bind more strongly than `limit`. -/
def expression (n : Nat) (scope : Scope) (limit : Nat) : Reader Expr :=
  match n with
  | 0 => failure
  | n + 1 => do
    let scope ← liftM scope.deeper?
    let e ←
      match ← acceptUnary with
      | some op => do pure (.unary op (← expression n scope unaryStrength))
      | none => operand n scope
    operations n scope limit e

def operations (n : Nat) (scope : Scope) (limit : Nat) (e : Expr) : Reader Expr :=
  match n with
  | 0 => failure
  | n + 1 => do
    match ← nextBinary? limit with
    | some (strength, join) =>
      discard take
      let right ← expression n scope strength
      operations n scope limit (join e right)
    | none => pure e

def operand (n : Nat) (scope : Scope) : Reader Expr :=
  match n with
  | 0 => failure
  | n + 1 => do
    match (← get).head? with
    | some (.number x) =>
      discard take
      pure (.number x)
    | some (.string bytes) =>
      discard take
      pure (.string bytes)
    | some (.fixed "nil") =>
      discard take
      pure .nil
    | some (.fixed "true") =>
      discard take
      pure (.bool true)
    | some (.fixed "false") =>
      discard take
      pure (.bool false)
    | some (.fixed "...") =>
      discard take
      if scope.variadic then pure .varargs else failure
    | some (.fixed "\x7b") =>
      discard take
      pure (.table (← fields n scope))
    | some (.fixed "function") =>
      discard take
      pure (.function (← function n scope []))
    | _ => suffixed n scope

/-- A name or an expression in parentheses, and the indices and calls after it. -/
def suffixed (n : Nat) (scope : Scope) : Reader Expr :=
  match n with
  | 0 => failure
  | n + 1 => do
    match ← take with
    | .name x => suffixes n scope (.name x)
    | .fixed "(" => do
      let e ← expression n scope 0
      expect ")"
      suffixes n scope (.single e)
    | _ => failure

def suffixes (n : Nat) (scope : Scope) (e : Expr) : Reader Expr :=
  match n with
  | 0 => failure
  | n + 1 => do
    match (← get).head? with
    | some (.fixed ".") =>
      discard take
      let x ← name
      suffixes n scope (.index e (.string (Text.Utf8.encode x)))
    | some (.fixed "[") =>
      discard take
      let key ← expression n scope 0
      expect "]"
      suffixes n scope (.index e key)
    | some (.fixed ":") =>
      discard take
      let x ← name
      suffixes n scope (.method e x (← arguments n scope))
    | some (.fixed "(") => do suffixes n scope (.call e (← arguments n scope))
    | some (.fixed "\x7b") => do suffixes n scope (.call e (← arguments n scope))
    | some (.string _) => do suffixes n scope (.call e (← arguments n scope))
    | _ => pure e

/-- The arguments of a call: a list in parentheses, a table, or a string. -/
def arguments (n : Nat) (scope : Scope) : Reader (List Expr) :=
  match n with
  | 0 => failure
  | n + 1 => do
    match ← take with
    | .string bytes => pure [.string bytes]
    | .fixed "\x7b" => pure [.table (← fields n scope)]
    | .fixed "(" =>
      if ← accept ")" then pure []
      else do
        let values ← expressions n scope
        expect ")"
        pure values
    | _ => failure

def expressions (n : Nat) (scope : Scope) : Reader (List Expr) :=
  match n with
  | 0 => failure
  | n + 1 => do
    let e ← expression n scope 0
    if ← accept "," then pure (e :: (← expressions n scope)) else pure [e]

/-- The parts of a table constructor up to its closing brace. -/
def fields (n : Nat) (scope : Scope) : Reader (List Field) :=
  match n with
  | 0 => failure
  | n + 1 => do
    if ← accept "\x7d" then pure []
    else
      let f ← field n scope
      if (← accept ",") || (← accept ";") then pure (f :: (← fields n scope))
      else
        expect "\x7d"
        pure [f]

def field (n : Nat) (scope : Scope) : Reader Field :=
  match n with
  | 0 => failure
  | n + 1 => do
    match ← get with
    | .fixed "[" :: rest =>
      set rest
      let key ← expression n scope 0
      expect "]"
      expect "="
      pure (.entry key (← expression n scope 0))
    | .name x :: .fixed "=" :: rest =>
      set rest
      pure (.entry (.string (Text.Utf8.encode x)) (← expression n scope 0))
    | _ => pure (.item (← expression n scope 0))

/-- The parameters and the body of a function. The parameters in `first` are not written. -/
def function (n : Nat) (scope : Scope) (first : List String) : Reader Function :=
  match n with
  | 0 => failure
  | n + 1 => do
    expect "("
    let (rest, variadic) ← if ← accept ")" then pure ([], false) else parameters n
    let inner := { scope.declare (first ++ rest) with inLoop := false, variadic }
    let body ← block n inner
    expect "end"
    pure (.mk (first ++ rest) variadic body)

/-- The statements up to the end of a block. A `return` ends the block. -/
def block (n : Nat) (scope : Scope) : Reader (List Statement) :=
  match n with
  | 0 => failure
  | n + 1 => do
    if ← atBlockEnd then pure []
    else if ← accept "return" then
      let scope ← liftM scope.deeper?
      let values ← if (← atBlockEnd) || (← sees ";") then pure [] else expressions n scope
      discard (accept ";")
      if ← atBlockEnd then pure [.result values] else failure
    else if ← accept ";" then block n scope
    else
      let (s, names) ← statement n scope
      pure (s :: (← block n { scope with locals := names }))

def loopBody (n : Nat) (scope : Scope) : Reader (List Statement) :=
  match n with
  | 0 => failure
  | n + 1 => do
    let body ← block n { scope with inLoop := true }
    expect "end"
    pure body

/-- The further cases of a branch, and what is done if none applies. -/
def cases (n : Nat) (scope : Scope) :
    Reader (List (Expr × List Statement) × List Statement) :=
  match n with
  | 0 => failure
  | n + 1 => do
    if ← accept "elseif" then
      let condition ← expression n scope 0
      expect "then"
      let body ← block n scope
      let (rest, otherwise) ← cases n scope
      pure ((condition, body) :: rest, otherwise)
    else
      let otherwise ← if ← accept "else" then block n scope else pure []
      expect "end"
      pure ([], otherwise)

def assignment (n : Nat) (scope : Scope) (targets : List Expr) : Reader Statement :=
  match n with
  | 0 => failure
  | n + 1 => do
    if ← accept "," then
      let scope ← liftM scope.deeper?
      let target ← suffixed n scope
      if isTarget scope target then assignment n scope (target :: targets) else failure
    else
      expect "="
      pure (.assign targets.reverse (← expressions n scope))

/-- The name of a declared function after its first part, and whether it is a method. -/
def functionName (n : Nat) (e : Expr) : Reader (Expr × Bool) :=
  match n with
  | 0 => failure
  | n + 1 => do
    if ← accept "." then
      let x ← name
      functionName n (.index e (.string (Text.Utf8.encode x)))
    else if ← accept ":" then
      let x ← name
      pure (.index e (.string (Text.Utf8.encode x)), true)
    else pure (e, false)

def statement (n : Nat) (scope : Scope) : Reader (Statement × List (String × Bool)) :=
  match n with
  | 0 => failure
  | n + 1 => do
    let scope ← liftM scope.deeper?
    let keep (s : Statement) := (s, scope.locals)
    match (← get).head? with
    | some (.fixed "if") =>
      discard take
      let condition ← expression n scope 0
      expect "then"
      let body ← block n scope
      let (rest, otherwise) ← cases n scope
      pure (keep (.branch ((condition, body) :: rest) otherwise))
    | some (.fixed "while") =>
      discard take
      let condition ← expression n scope 0
      expect "do"
      pure (keep (.loop condition (← loopBody n scope)))
    | some (.fixed "do") =>
      discard take
      let body ← block n scope
      expect "end"
      pure (keep (.block body))
    | some (.fixed "for") =>
      discard take
      let x ← name
      if ← accept "=" then
        let first ← expression n scope 0
        expect ","
        let last ← expression n scope 0
        let step ← if ← accept "," then some <$> expression n scope 0 else pure none
        expect "do"
        pure (keep (.count x first last step (← loopBody n (scope.declare [x]))))
      else
        let rest ← if ← accept "," then names n else pure []
        expect "in"
        let values ← expressions n scope
        expect "do"
        pure (keep (.forEach (x :: rest) values (← loopBody n (scope.declare (x :: rest)))))
    | some (.fixed "repeat") =>
      discard take
      let (body, condition) ← repeated n { scope with inLoop := true }
      pure (keep (.repeatUntil body condition))
    | some (.fixed "function") =>
      discard take
      let x ← name
      let (target, isMethod) ← functionName n (.name x)
      let f ← function n scope (if isMethod then ["self"] else [])
      if isTarget scope target then pure (keep (.assign [target] [.function f])) else failure
    | some (.fixed "local") =>
      discard take
      if ← accept "function" then
        let x ← name
        let scope := scope.declare [x]
        pure (.localFunction x (← function n scope []), scope.locals)
      else
        let names ← attributedNames n
        let values ← if ← accept "=" then expressions n scope else pure []
        if 1 < (names.filter (·.2 = .close)).length then failure
        else
          let added := names.reverse.map fun (x, kind) ↦ (x, decide (kind ≠ .regular))
          pure (.locals names values, added ++ scope.locals)
    | some (.fixed "break") =>
      discard take
      if scope.inLoop then pure (keep .leave) else failure
    | _ =>
      let e ← suffixed n scope
      if (← sees "=") || (← sees ",") then
        if isTarget scope e then keep <$> assignment n scope [e] else failure
      else if isCall e then pure (keep (.call e))
      else failure

/-- The body of a loop that ends with its condition, in which the local variables of the body are
known. -/
def repeated (n : Nat) (scope : Scope) : Reader (List Statement × Expr) :=
  match n with
  | 0 => failure
  | n + 1 => do
    if ← accept "until" then pure ([], ← expression n scope 0)
    else if ← accept ";" then repeated n scope
    else if ← sees "return" then
      let body ← block n scope
      expect "until"
      pure (body, ← expression n scope 0)
    else
      let (s, names) ← statement n scope
      let (body, condition) ← repeated n { scope with locals := names }
      pure (s :: body, condition)

end

/-- The scope of a whole program, which takes further arguments. -/
def Scope.outermost : Scope :=
  ⟨[], false, true, 0⟩

def program? (tokens : List Token) : Option (List Statement) := do
  let (body, rest) ← (block (16 * (tokens.length + 1)) .outermost).run tokens
  if rest.isEmpty then some body else none

end Grammar

def program? (cs : List Char) : Option (List Statement) :=
  (Token.ofText? cs).bind Grammar.program?

end Reactor.Script
