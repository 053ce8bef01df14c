import LotusKit.Lib.CppTokens

/-! Programs in a small part of C++: a function of an unsigned argument that tests it and copies
a literal to its output. -/

namespace LotusKit.Lib.Cpp

inductive Expr where
  | name (word : List Char)
  | number (value : Nat)
  | complement (e : Expr)
  | bitAnd (a b : Expr)
  | equal (a b : Expr)
  | andAnd (a b : Expr)
  deriving DecidableEq

inductive Simple where
  /-- `word(target, "text");` -/
  | call (word target text : List Char)
  | return_
  deriving DecidableEq

inductive Stmt where
  | simple (s : Simple)
  | ifThen (condition : Expr) (block : List Simple)
  deriving DecidableEq

/-- `void name(type argument, char* output) …` -/
structure Function where
  name : List Char
  argumentType : List Char
  argument : List Char
  output : List Char
  body : List Stmt
  deriving DecidableEq

section Parser

/-- How tightly an expression binds, from the loosest on. -/
inductive Level where
  | andAnd | bitAnd | equal | unary

/-- The expression at the front, for some fuel. `a == b == c` is not read. -/
def parseExpr : Nat → Level → List Token → Option (Expr × List Token)
  | 0, _, _ => none
  | fuel + 1, .andAnd, tokens => do
    let (a, tokens) ← parseExpr fuel .bitAnd tokens
    match tokens with
    | .symbol .andAnd :: tokens => do
      let (b, tokens) ← parseExpr fuel .andAnd tokens
      some (.andAnd a b, tokens)
    | tokens => some (a, tokens)
  | fuel + 1, .bitAnd, tokens => do
    let (a, tokens) ← parseExpr fuel .equal tokens
    match tokens with
    | .symbol .amp :: tokens => do
      let (b, tokens) ← parseExpr fuel .bitAnd tokens
      some (.bitAnd a b, tokens)
    | tokens => some (a, tokens)
  | fuel + 1, .equal, tokens => do
    let (a, tokens) ← parseExpr fuel .unary tokens
    match tokens with
    | .symbol .equal :: tokens => do
      let (b, tokens) ← parseExpr fuel .unary tokens
      some (.equal a b, tokens)
    | tokens => some (a, tokens)
  | fuel + 1, .unary, tokens =>
    match tokens with
    | .name word :: tokens => some (.name word, tokens)
    | .number value :: tokens => some (.number value, tokens)
    | .symbol .tilde :: tokens => (parseExpr fuel .unary tokens).map fun (e, tokens) => (.complement e, tokens)
    | .symbol .lparen :: tokens => do
      let (e, tokens) ← parseExpr fuel .andAnd tokens
      match tokens with
      | .symbol .rparen :: tokens => some (e, tokens)
      | _ => none
    | _ => none

def parseSimple : List Token → Option (Simple × List Token)
  | .name word :: .symbol .lparen :: .name target :: .symbol .comma :: .text text :: .symbol .rparen ::
      .symbol .semicolon :: tokens => some (.call word target text, tokens)
  | .name word :: .symbol .semicolon :: tokens => if word = "return".toList then some (.return_, tokens) else none
  | _ => none

/-- Up to the closing brace. -/
def parseBlock : Nat → List Token → Option (List Simple × List Token)
  | _, .symbol .rbrace :: tokens => some ([], tokens)
  | 0, _ => none
  | fuel + 1, tokens => do
    let (s, tokens) ← parseSimple tokens
    let (block, tokens) ← parseBlock fuel tokens
    some (s :: block, tokens)

def parseStmt (tokens : List Token) : Option (Stmt × List Token) :=
  match tokens with
  | .name word :: .symbol .lparen :: rest =>
    if word = "if".toList then do
      let (condition, rest) ← parseExpr rest.length .andAnd rest
      match rest with
      | .symbol .rparen :: .symbol .lbrace :: rest => do
        let (block, rest) ← parseBlock rest.length rest
        some (.ifThen condition block, rest)
      | _ => none
    else (parseSimple tokens).map fun (s, rest) => (.simple s, rest)
  | _ => (parseSimple tokens).map fun (s, rest) => (.simple s, rest)

/-- Up to the closing brace. -/
def parseBody : Nat → List Token → Option (List Stmt × List Token)
  | _, .symbol .rbrace :: tokens => some ([], tokens)
  | 0, _ => none
  | fuel + 1, tokens => do
    let (s, tokens) ← parseStmt tokens
    let (body, tokens) ← parseBody fuel tokens
    some (s :: body, tokens)

/-- `a::b` -/
def skipScope : List Token → List Token
  | .symbol .scope :: .name _ :: tokens => skipScope tokens
  | tokens => tokens

/-- A namespace with a constant and a function. -/
def parseFile (tokens : List Token) : Option Function :=
  match tokens with
  | .name namespace_ :: .name _ :: tokens =>
    match skipScope tokens with
    | .symbol .lbrace :: .name _ :: .name _ :: .symbol .assign :: .number _ :: .symbol .semicolon ::
        .name void :: .name name :: .symbol .lparen :: .name argumentType :: .name argument :: .symbol .comma ::
        .name char :: .symbol .star :: .name output :: .symbol .rparen :: .symbol .lbrace :: tokens =>
      if namespace_ = "namespace".toList ∧ void = "void".toList ∧ char = "char".toList then do
        let (body, tokens) ← parseBody tokens.length tokens
        if tokens = [.symbol .rbrace] then some ⟨name, argumentType, argument, output, body⟩ else none
      else none
    | _ => none
  | _ => none

def compile (text : List Char) : Option Function := (tokenize text).bind parseFile

end Parser

section Meaning

/-- `int`, `unsigned int` and `long`, which have 32, 32 and 64 bits. -/
inductive IntType where
  | int | unsigned | long
  deriving DecidableEq

/-- A value that is not negative; conversions to a wider type keep it. -/
structure Value where
  type : IntType
  value : Nat
  deriving DecidableEq

/-- The type that both operands are converted to. -/
def IntType.common : IntType → IntType → IntType
  | .long, _ | _, .long => .long
  | .unsigned, _ | _, .unsigned => .unsigned
  | .int, .int => .int

/-- A decimal literal has the first signed type that can hold it. -/
def literal (n : Nat) : Option Value :=
  if n < 2 ^ 31 then some ⟨.int, n⟩ else if n < 2 ^ 63 then some ⟨.long, n⟩ else none

def truth (b : Bool) : Value := ⟨.int, if b then 1 else 0⟩

/-- The complement of a signed value is negative, and is not evaluated. -/
def eval (argument : List Char) (x : Value) : Expr → Option Value
  | .name word => if word = argument then some x else none
  | .number n => literal n
  | .complement e => do
    let a ← eval argument x e
    if a.type = .unsigned then some ⟨.unsigned, 2 ^ 32 - 1 - a.value⟩ else none
  | .bitAnd a b => do
    let a ← eval argument x a
    let b ← eval argument x b
    some ⟨a.type.common b.type, a.value &&& b.value⟩
  | .equal a b => do
    let a ← eval argument x a
    let b ← eval argument x b
    some (truth (a.value = b.value))
  | .andAnd a b => do
    let a ← eval argument x a
    if a.value = 0 then some (truth false)
    else do
      let b ← eval argument x b
      some (truth (b.value ≠ 0))

/-- `a && b` of truth values. -/
theorem truth_andAnd (a b : Bool) :
    (if (truth a).value = 0 then some (truth false) else some (truth ((truth b).value ≠ 0))) = some (truth (a && b)) := by
  cases a with
  | false => rfl
  | true =>
    cases b with
    | false => rfl
    | true => rfl

/-- What the output holds, if anything was copied to it, and whether the function has returned. -/
structure Outcome where
  copied : Option (List Char)
  returned : Bool
  deriving DecidableEq

def Simple.run (output : List Char) (o : Outcome) : Simple → Option Outcome
  | .return_ => some { o with returned := true }
  | .call word target text =>
    if word = "strcpy".toList ∧ target = output then some { o with copied := some text } else none

/-- Statements behind a `return` are not run. -/
def runBlock (output : List Char) : List Simple → Outcome → Option Outcome
  | [], o => some o
  | s :: block, o => if o.returned then some o else (s.run output o).bind (runBlock output block)

namespace Function
variable (f : Function) (x : Value)

def runStmt (o : Outcome) : Stmt → Option Outcome
  | .simple s => s.run f.output o
  | .ifThen condition block => do
    let value ← eval f.argument x condition
    if value.value = 0 then some o else runBlock f.output block o

def runBody : List Stmt → Outcome → Option Outcome
  | [], o => some o
  | s :: body, o => if o.returned then some o else (f.runStmt x o s).bind (runBody body)

theorem runBody_returned {body : List Stmt} {o : Outcome} (returned : o.returned = true) : f.runBody x body o = some o := by
  cases body with
  | nil => rfl
  | cons s body => exact if_pos returned

/-- What the output holds after a call. -/
def call : Option (List Char) := (f.runBody x f.body ⟨none, false⟩).bind Outcome.copied

end Function

end Meaning

end LotusKit.Lib.Cpp
