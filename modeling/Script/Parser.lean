import Script.Grammar.Progress
import Script.Lexer

/-!
# Parsers

A parser holds what is left of a source, the diagnostics so far, the depth of
nesting it has been told of and its grammar.  Every reading step can be run on
it; running a whole program to the end is only the most common use.

## Main definitions

* `Parser` — the state of a parser, with `Parser.ofLexer` and `Parser.ofString`.
* `Parser.run` — takes a reading step.
* `Parser.advance`, `Parser.expect`, `Parser.synchronize`, `Parser.error`,
  `Parser.record`, `Parser.enterNesting`, `Parser.leaveNesting` — single moves.
* `Parser.registerPrefixRule`, `Parser.registerContinuation`,
  `Parser.registerStatementRule`, `Parser.registerStandard` — changes of the grammar.
* `Parser.parseExpression`, `Parser.parseStatement`, `Parser.parseProgram` — reading
  by the grammar.
* `Parser.parseExpressionBy`, `Parser.parseContinuationBy`, `Parser.parseStatementBy` —
  reading by a given rule.
* `parse` — the program of a source and its diagnostics.

## Main results

* `Parser.isSome_parseProgram` — reading a program comes to an end.
-/

namespace Script

/-- The state of a parser. -/
structure Parser where
  /-- The unread tokens, the current one first. -/
  tokens : Tokens
  /-- The diagnostics, in the order in which they were recorded. -/
  diagnostics : List Diagnostic
  /-- How many expressions the parser stands in. -/
  depth : Nat
  /-- The rules that it reads by. -/
  grammar : Grammar

namespace Parser

variable {α : Type}

/-- A parser for what is left of a source. -/
def ofLexer (lexer : Lexer) : Parser := ⟨lexer.remaining, [], 0, .standard⟩

/-- A parser for a source. -/
def ofString (source : String) : Parser := ofLexer (Lexer.ofString source)

/-! ### Looking at the state -/

/-- The current token. -/
def current (p : Parser) : Token := p.tokens.current

/-- The token after the current one. -/
def peek (p : Parser) : Token := p.tokens.peek

/-- Whether the current token has the given kind. -/
def currentIs (p : Parser) (kind : Kind) : Bool := p.current.is kind

/-- Whether the token after the current one has the given kind. -/
def peekIs (p : Parser) (kind : Kind) : Bool := p.peek.is kind

/-- How tightly the token after the current one binds. -/
def peekBindingPower (p : Parser) : BindingPower := p.grammar.bindingPower p.peek.kind

/-- How many expressions may still stand inside each other. -/
def room (p : Parser) : Nat := maxNesting - p.depth

/-- The texts of the diagnostics. -/
def messages (p : Parser) : List String := p.diagnostics.map Diagnostic.message

/-- A diagnostic at the current token. -/
def error (p : Parser) (fault : Fault) : Diagnostic := ⟨fault, p.current⟩

/-! ### Single moves -/

/-- Takes the current token. -/
def advance (p : Parser) : Token × Parser := (p.current, { p with tokens := p.tokens.tail })

/-- Moves on to the next token if it has the given kind, and stays otherwise. -/
def expect (p : Parser) (kind : Kind) : Except Diagnostic Token × Parser :=
  if p.peekIs kind then (.ok p.peek, p.advance.2)
  else (.error ⟨.unexpectedToken kind p.peek.kind, p.peek⟩, p)

/-- Skips the rest of a statement that could not be read. -/
def synchronize (p : Parser) (inBlock : Bool) : Parser :=
  { p with tokens := p.tokens.recover inBlock }

/-- Adds a diagnostic. -/
def record (p : Parser) (diagnostic : Diagnostic) : Parser :=
  { p with diagnostics := p.diagnostics ++ [diagnostic] }

/-- Notes that an expression is entered, unless there is no room for one. -/
def enterNesting (p : Parser) : Except Diagnostic Unit × Parser :=
  if maxNesting ≤ p.depth then (.error (p.error (.nestingTooDeep maxNesting)), p)
  else (.ok (), { p with depth := p.depth + 1 })

/-- Notes that an expression is left. -/
def leaveNesting (p : Parser) : Parser := { p with depth := p.depth - 1 }

/-! ### Grammar -/

/-- Lets `rule` read the expressions that start with `kind`. -/
def registerPrefixRule (p : Parser) (kind : Kind) (rule : PrefixRule) : Parser :=
  { p with grammar := p.grammar.withPrefixRule kind rule }

/-- Lets `rule` continue expressions at `kind`, bound with `power`. -/
def registerContinuation (p : Parser) (kind : Kind) (power : BindingPower) (rule : InfixRule) :
    Parser :=
  { p with grammar := p.grammar.withContinuation kind power rule }

/-- Lets `rule` read the statements that start with `kind`. -/
def registerStatementRule (p : Parser) (kind : Kind) (rule : StatementRule) : Parser :=
  { p with grammar := p.grammar.withStatementRule kind rule }

/-- Puts every entry of the language's own grammar back. -/
def registerStandard (p : Parser) : Parser := { p with grammar := p.grammar.withStandard }

/-! ### Reading -/

/-- Takes a reading step: its value or diagnostic, and the parser after it.  A
diagnostic that ends the step is not recorded.  There is no answer if the step
runs for ever. -/
def run (p : Parser) (step : Step α) : Option (Except Diagnostic α × Parser) :=
  match step p.tokens with
  | .ok value rest log =>
    some (.ok value, { p with tokens := rest, diagnostics := p.diagnostics ++ log })
  | .fail diagnostic rest log =>
    some (.error diagnostic, { p with tokens := rest, diagnostics := p.diagnostics ++ log })
  | .diverges => none

theorem run_advance (p : Parser) : p.run Step.advance = some (.ok p.advance.1, p.advance.2) := by
  simp [run, advance, current]

theorem run_expect (p : Parser) (kind : Kind) :
    p.run (Step.expect kind) = some (p.expect kind) := by
  by_cases h : p.tokens.peek.kind = kind <;>
    simp [run, expect, Step.expect_apply, peekIs, peek, advance, Token.is, h]

theorem run_synchronize (p : Parser) (inBlock : Bool) :
    p.run (Step.synchronize inBlock) = some (.ok (), p.synchronize inBlock) := by
  simp [run, synchronize]

theorem run_record (p : Parser) (diagnostic : Diagnostic) :
    p.run (Step.record diagnostic) = some (.ok (), p.record diagnostic) := rfl

/-- Reads an expression whose operators all bind tighter than `power`. -/
def parseExpression (p : Parser) (power : BindingPower) :
    Option (Except Diagnostic Expr × Parser) :=
  p.run (p.grammar.expression p.room power)

/-- Reads an expression by the given rule, whatever the current token is. -/
def parseExpressionBy (p : Parser) (rule : PrefixRule) :
    Option (Except Diagnostic Expr × Parser) :=
  p.run (rule.read (p.grammar.expression p.room) (p.grammar.statement p.room))

/-- Continues the expression `left` by the given rule, whatever the current token is. -/
def parseContinuationBy (p : Parser) (left : Expr) (power : BindingPower) (rule : InfixRule) :
    Option (Except Diagnostic Expr × Parser) :=
  p.run (rule.read (p.grammar.expression p.room) left power)

/-- Reads a statement. -/
def parseStatement (p : Parser) : Option (Except Diagnostic Stmt × Parser) :=
  p.run (p.grammar.statement p.room)

/-- Reads a statement by the given rule, whatever the current token is. -/
def parseStatementBy (p : Parser) : StatementRule → Option (Except Diagnostic Stmt × Parser)
  | .lookup => p.parseStatement
  | rule => p.run (rule.read (p.grammar.expression p.room))

/-- Reads statements up to the end of the source and records what cannot be read. -/
def parseProgram (p : Parser) : Option (Program × Parser) :=
  match p.run (p.grammar.program p.room) with
  | some (.ok program, p) => some (program, p)
  | _ => none

/-- A parser with a well-founded grammar reads its source to the end. -/
theorem isSome_parseProgram {p : Parser} (h : p.grammar.WellFounded) :
    p.parseProgram.isSome := by
  obtain ⟨program, rest, log, hok, -⟩ :=
    (Grammar.settles_program h p.room).eq_ok (Grammar.unfailing_program _ _) p.tokens
  simp [parseProgram, run, hok]

end Parser

/-- The program of a source, and the diagnostics that reading it gives rise to. -/
def parse (source : String) : Program × List Diagnostic :=
  let result := (Parser.ofString source).parseProgram.get
    (Parser.isSome_parseProgram Grammar.wellFounded_standard)
  (result.1, result.2.diagnostics)

theorem parse_eq {source : String} {program : Program} {p : Parser}
    (h : (Parser.ofString source).parseProgram = some (program, p)) :
    parse source = (program, p.diagnostics) := by
  simp [parse, h]

end Script
