import Script.Proofs.Spelling
import Script.Proofs.Tables
import Script.Text.Decimal
import Script.Tree

/-!
# Layouts

A tree can be written as tokens in more than one way.  In the enclosed layout
every operator, choice and function stands in parentheses and every statement
ends in a `;`, so that no place of a tree restricts what may stand there.  In the
rendered layout a function stands free, and so does an expression that is a
statement; it is the layout of the text that a tree is rendered as, and it has
neither blocks nor choices.

## Main definitions

* `Layout` — the two layouts.
* `Expr.written`, `Stmt.written` — the tokens of a tree in a layout.
* `Expr.nesting`, `Stmt.nesting` — how many expressions stand inside each other
  while these tokens are read.
* `Expr.WellFormed`, `Stmt.WellFormed` — the trees that a layout can write.
* `Expr.anchored`, `Stmt.anchored` — the tree in which every expression that is a
  statement has its first token.
-/

namespace Script

/-- A way to write trees. -/
inductive Layout where
  /-- Functions and choices stand in parentheses, and every statement ends in `;`. -/
  | enclosed
  /-- Functions stand free, and an expression that is a statement has no `;`. -/
  | rendered
  deriving DecidableEq, Repr

namespace Token

/-- The token `(`. -/
def openParen : Token := ⟨.lparen, "("⟩

/-- The token `)`. -/
def closeParen : Token := ⟨.rparen, ")"⟩

/-- The token `}`. -/
def closeBrace : Token := ⟨.rbrace, "\x7d"⟩

/-- The token `,`. -/
def comma : Token := ⟨.comma, ","⟩

/-- The token `;`. -/
def semicolon : Token := ⟨.semicolon, ";"⟩

/-- The token `=`. -/
def assign : Token := ⟨.assign, "="⟩

/-- The token `else`. -/
def elseWord : Token := ⟨.kwElse, "else"⟩

end Token

/-! ### Writing -/

/-- The tokens with parentheses around them. -/
def Tokens.enclosed (ts : Tokens) : Tokens := Token.openParen :: (ts ++ [Token.closeParen])

/-- The tokens of a function in the layout. -/
def Layout.function : Layout → Tokens → Tokens
  | .enclosed, ts => ts.enclosed
  | .rendered, ts => ts

/-- What stands behind an expression that is a statement. -/
def Layout.ending : Layout → Tokens
  | .enclosed => [Token.semicolon]
  | .rendered => []

/-- The names behind the first one of a parameter list. -/
def Identifier.writtenMore : List Identifier → Tokens
  | [] => []
  | x :: xs => Token.comma :: x.token :: Identifier.writtenMore xs

/-- The names of a parameter list, with commas between them. -/
def Identifier.writtenList : List Identifier → Tokens
  | [] => []
  | x :: xs => x.token :: Identifier.writtenMore xs

mutual

/-- The tokens of an expression. -/
def Expr.written (layout : Layout) : Expr → Tokens
  | .identifier name => [name.token]
  | .integer token _ => [token]
  | .boolean token _ => [token]
  | .prefixOp token _ right => Tokens.enclosed (token :: right.written layout)
  | .infixOp token left _ right =>
    Tokens.enclosed (left.written layout ++ token :: right.written layout)
  | .conditional token condition consequence alternative =>
    Tokens.enclosed (token :: (condition.written layout ++ (consequence.written layout ++
      Expr.writtenAlternative layout alternative)))
  | .block token statements => token :: (Stmt.writtenList layout statements ++ [Token.closeBrace])
  | .function token parameters body =>
    layout.function (token :: Token.openParen :: (Identifier.writtenList parameters ++
      Token.closeParen :: body.written layout))
  | .call token function arguments =>
    function.written layout ++ token :: (Expr.writtenList layout arguments ++ [Token.closeParen])

/-- The tokens of the alternative of a choice, with the word in front of it. -/
def Expr.writtenAlternative (layout : Layout) : Option Expr → Tokens
  | none => []
  | some e => Token.elseWord :: e.written layout

/-- The expressions behind the first one of an argument list. -/
def Expr.writtenMore (layout : Layout) : List Expr → Tokens
  | [] => []
  | e :: es => Token.comma :: (e.written layout ++ Expr.writtenMore layout es)

/-- The expressions of an argument list, with commas between them. -/
def Expr.writtenList (layout : Layout) : List Expr → Tokens
  | [] => []
  | e :: es => e.written layout ++ Expr.writtenMore layout es

/-- The tokens of a statement. -/
def Stmt.written (layout : Layout) : Stmt → Tokens
  | .letBinding token name value =>
    token :: name.token :: Token.assign :: (value.written layout ++ [Token.semicolon])
  | .returnValue token value => token :: (value.written layout ++ [Token.semicolon])
  | .expression _ expression => expression.written layout ++ layout.ending

/-- The tokens of statements, one after the other. -/
def Stmt.writtenList (layout : Layout) : List Stmt → Tokens
  | [] => []
  | s :: ss => s.written layout ++ Stmt.writtenList layout ss

end

/-! ### Nesting -/

/-- How many expressions a function stands in, itself and its parentheses included. -/
def Layout.functionDepth : Layout → Nat
  | .enclosed => 2
  | .rendered => 1

mutual

/-- How many expressions stand inside each other while the tokens of an expression
are read.  Parentheses count, and so does every operand but the first. -/
def Expr.nesting (layout : Layout) : Expr → Nat
  | .identifier _ | .integer _ _ | .boolean _ _ => 1
  | .prefixOp _ _ right => 2 + right.nesting layout
  | .infixOp _ left _ right => max (1 + left.nesting layout) (2 + right.nesting layout)
  | .conditional _ condition consequence alternative =>
    2 + max (condition.nesting layout) (max (consequence.nesting layout)
      (Expr.nestingAlternative layout alternative))
  | .block _ statements => 1 + Stmt.nestingList layout statements
  | .function _ _ body => layout.functionDepth + body.nesting layout
  | .call _ function arguments =>
    max (function.nesting layout) (1 + Expr.nestingList layout arguments)

/-- The nesting of the alternative of a choice. -/
def Expr.nestingAlternative (layout : Layout) : Option Expr → Nat
  | none => 0
  | some e => e.nesting layout

/-- The greatest nesting among expressions. -/
def Expr.nestingList (layout : Layout) : List Expr → Nat
  | [] => 0
  | e :: es => max (e.nesting layout) (Expr.nestingList layout es)

/-- The nesting of a statement is that of its expression. -/
def Stmt.nesting (layout : Layout) : Stmt → Nat
  | .letBinding _ _ value => value.nesting layout
  | .returnValue _ value => value.nesting layout
  | .expression _ expression => expression.nesting layout

/-- The greatest nesting among statements. -/
def Stmt.nestingList (layout : Layout) : List Stmt → Nat
  | [] => 0
  | s :: ss => max (s.nesting layout) (Stmt.nestingList layout ss)

end

/-! ### Trees that a layout can write -/

/-- The token is of the given kind and spelled so. -/
def Token.IsA (t : Token) (kind : Kind) : Prop := t.kind = kind ∧ t.Spelled

/-- The token is a name, and the identifier its value. -/
def Identifier.WellFormed (x : Identifier) : Prop :=
  x.token.IsA .ident ∧ x.value = x.token.literal

/-- Whether an expression is a function. -/
def Expr.isFunction : Expr → Bool
  | .function .. => true
  | _ => false

/-- Whether an expression is a block. -/
def Expr.isBlock : Expr → Bool
  | .block .. => true
  | _ => false

/-- Whether a statement is an expression. -/
def Stmt.isExpression : Stmt → Bool
  | .expression .. => true
  | _ => false

/-- Whether the expression may stand in front of an operator or an argument list: a
function that stands free would take them into its body. -/
def Layout.AllowsLeft (layout : Layout) (e : Expr) : Prop :=
  layout = .enclosed ∨ e.isFunction = false

mutual

/-- The tokens of an expression are spelled and its fields agree with them, the
consequences of its choices are blocks, and the layout can write it. -/
def Expr.WellFormed (layout : Layout) : Expr → Prop
  | .identifier name => name.WellFormed
  | .integer token value => token.IsA .int ∧ Text.integer? token.literal = some value
  | .boolean token value =>
    (token.IsA .kwTrue ∧ value = true) ∨ (token.IsA .kwFalse ∧ value = false)
  | .prefixOp token operator right =>
    (∃ kind ∈ Kind.prefixKinds, token.IsA kind) ∧ operator = token.literal ∧
      right.WellFormed layout
  | .infixOp token left operator right =>
    (∃ kind ∈ Kind.infixKinds, token.IsA kind) ∧ operator = token.literal ∧
      left.WellFormed layout ∧ layout.AllowsLeft left ∧ right.WellFormed layout
  | .conditional token condition consequence alternative =>
    layout = .enclosed ∧ token.IsA .kwIf ∧ condition.WellFormed layout ∧
      consequence.WellFormed layout ∧ consequence.isBlock = true ∧
      Expr.WellFormedAlternative layout alternative
  | .block token statements =>
    layout = .enclosed ∧ token.IsA .lbrace ∧ Stmt.WellFormedList layout statements
  | .function token parameters body =>
    token.IsA .kwFunction ∧ (∀ x ∈ parameters, x.WellFormed) ∧ body.WellFormed layout
  | .call token function arguments =>
    token.IsA .lparen ∧ function.WellFormed layout ∧ layout.AllowsLeft function ∧
      Expr.WellFormedList layout arguments

/-- The alternative of a choice is well-formed, if there is one. -/
def Expr.WellFormedAlternative (layout : Layout) : Option Expr → Prop
  | none => True
  | some e => e.WellFormed layout

/-- All of the expressions are well-formed. -/
def Expr.WellFormedList (layout : Layout) : List Expr → Prop
  | [] => True
  | e :: es => e.WellFormed layout ∧ Expr.WellFormedList layout es

/-- The tokens of a statement are spelled, its fields agree with them, and its
expression is well-formed. -/
def Stmt.WellFormed (layout : Layout) : Stmt → Prop
  | .letBinding token name value =>
    token.IsA .kwLet ∧ name.WellFormed ∧ value.WellFormed layout
  | .returnValue token value => token.IsA .kwReturn ∧ value.WellFormed layout
  | .expression _ expression => expression.WellFormed layout

/-- All of the statements are well-formed. -/
def Stmt.WellFormedList (layout : Layout) : List Stmt → Prop
  | [] => True
  | s :: ss => s.WellFormed layout ∧ Stmt.WellFormedList layout ss

end

/-! ### First tokens -/

mutual

/-- The expression in which every statement that is an expression has the first
token of that expression. -/
def Expr.anchored (layout : Layout) : Expr → Expr
  | .identifier name => .identifier name
  | .integer token value => .integer token value
  | .boolean token value => .boolean token value
  | .prefixOp token operator right => .prefixOp token operator (right.anchored layout)
  | .infixOp token left operator right =>
    .infixOp token (left.anchored layout) operator (right.anchored layout)
  | .conditional token condition consequence alternative =>
    .conditional token (condition.anchored layout) (consequence.anchored layout)
      (Expr.anchoredAlternative layout alternative)
  | .block token statements => .block token (Stmt.anchoredList layout statements)
  | .function token parameters body => .function token parameters (body.anchored layout)
  | .call token function arguments =>
    .call token (function.anchored layout) (Expr.anchoredList layout arguments)

/-- The alternative of a choice, anchored. -/
def Expr.anchoredAlternative (layout : Layout) : Option Expr → Option Expr
  | none => none
  | some e => some (e.anchored layout)

/-- The expressions of an argument list, anchored. -/
def Expr.anchoredList (layout : Layout) : List Expr → List Expr
  | [] => []
  | e :: es => e.anchored layout :: Expr.anchoredList layout es

/-- The statement in which every statement that is an expression has the first
token of that expression. -/
def Stmt.anchored (layout : Layout) : Stmt → Stmt
  | .letBinding token name value => .letBinding token name (value.anchored layout)
  | .returnValue token value => .returnValue token (value.anchored layout)
  | .expression _ expression =>
    .expression (Tokens.current (expression.written layout)) (expression.anchored layout)

/-- The statements of a block, anchored. -/
def Stmt.anchoredList (layout : Layout) : List Stmt → List Stmt
  | [] => []
  | s :: ss => s.anchored layout :: Stmt.anchoredList layout ss

end

end Script
