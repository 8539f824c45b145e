import Script.Parser
import Script.Proofs.Locality.Reading
import Script.Proofs.Spelling
import Script.Tree.Equality

/-!
# What a parser can see

Whatever a parser is asked to read, it sees the tokens up to the one on which it stops and
one more.  A source is read one token at a time, so that these are tokens that have been
read by then; it makes no difference how they are laid out, what stands in front of them and
what is still to come.

## Main definitions

* `Request`, `Parser.perform` — what a parser can be asked to read.
* `Lexer.tokenAt` — the stream of tokens that a source gives rise to.

## Main results

* `Parser.perform_local` — two parsers that can see the same do the same.
-/

namespace Script

/-! ### Streams of tokens -/

namespace Lexer

/-- The token that is read after the given number of others; past the last one there is only
`Token.eof`. -/
def tokenAt (lexer : Lexer) (index : Nat) : Token := (lexer.skip index).next.1

theorem next_fst (lexer : Lexer) : lexer.next.1 = Tokens.current lexer.remaining := by
  unfold next remaining
  cases hrest : lexer.rest.dropWhile isBlank with
  | nil => rw [tokens_eq_nil hrest]; rfl
  | cons c rest => rw [tokens_eq_cons hrest]; rfl

theorem remaining_next (lexer : Lexer) : lexer.next.2.remaining = lexer.remaining.tail := by
  unfold next remaining
  cases hrest : lexer.rest.dropWhile isBlank with
  | nil => rw [tokens_eq_nil hrest]; exact tokens_eq_nil rfl
  | cons c rest => rw [tokens_eq_cons hrest]; rfl

/-- Reading tokens one at a time takes them off the front of those that are to come. -/
theorem remaining_skip (count : Nat) (lexer : Lexer) :
    (lexer.skip count).remaining = lexer.remaining.drop count := by
  induction count generalizing lexer with
  | zero => rfl
  | succ count ih => rw [skip, ih, remaining_next, List.drop_tail]

theorem tokenAt_eq (lexer : Lexer) (index : Nat) :
    lexer.tokenAt index = (lexer.remaining[index]?).getD Token.eof := by
  rw [tokenAt, next_fst, remaining_skip, Tokens.current, List.headD_eq_head?_getD,
    List.head?_drop]

/-- Behind the last token of a source stands its end, and past that one reads the end again. -/
theorem getD_tokenize (source : String) (index : Nat) :
    ((tokenize source)[index]?).getD Token.eof =
      ((ofString source).remaining[index]?).getD Token.eof := by
  rw [tokenize, List.getElem?_append]
  split
  · rfl
  · next hlt =>
    rw [List.getElem?_eq_none (Nat.not_lt.1 hlt)]
    cases hend : [Token.eof][index - (ofString source).remaining.length]? with
    | none => rfl
    | some t => simpa using List.mem_singleton.1 (List.mem_of_getElem? hend)

/-- Streams that agree at an index have the same token to come there, or none. -/
theorem getElem?_eq_of_tokenAt {l₁ l₂ : Lexer} {index : Nat}
    (h : l₂.tokenAt index = l₁.tokenAt index) : l₂.remaining[index]? = l₁.remaining[index]? := by
  have hne (l : Lexer) {t : Token} (ht : l.remaining[index]? = some t) : t ≠ Token.eof := by
    rintro rfl
    exact (spelled_of_mem_tokens (List.mem_of_getElem? ht)).kind_ne_eof rfl
  rw [tokenAt_eq, tokenAt_eq] at h
  cases h₁ : l₁.remaining[index]? with
  | none =>
    cases h₂ : l₂.remaining[index]? with
    | none => rfl
    | some t =>
      rw [h₁, h₂] at h
      exact absurd h (hne l₂ h₂)
  | some t =>
    cases h₂ : l₂.remaining[index]? with
    | none =>
      rw [h₁, h₂] at h
      exact absurd h.symm (hne l₁ h₁)
    | some u =>
      rw [h₁, h₂] at h
      exact congrArg some h

/-- A stream that agrees with another one up to the second token behind those that have been
taken has the same ones to take, and looks the same behind them. -/
theorem exists_looksLike {l₁ l₂ : Lexer} {taken rest : Tokens} (h₁ : l₁.remaining = taken ++ rest)
    (hagree : ∀ i ≤ taken.length + 1, l₂.tokenAt i = l₁.tokenAt i) :
    ∃ us : Tokens, l₂.remaining = taken ++ us ∧ us.LooksLike rest := by
  have htake : l₂.remaining.take (taken.length + 2) = taken ++ rest.take 2 := by
    have heq : l₂.remaining.take (taken.length + 2) = l₁.remaining.take (taken.length + 2) := by
      refine List.ext_getElem? fun i => ?_
      rw [List.getElem?_take, List.getElem?_take]
      split
      · exact getElem?_eq_of_tokenAt (hagree i (by omega))
      · rfl
    rw [heq, h₁, List.take_length_add_append]
  have hfront : l₂.remaining.take taken.length = taken := by
    have hshort := congrArg (List.take taken.length) htake
    rwa [List.take_take, Nat.min_eq_left (Nat.le_add_right _ 2), List.take_left] at hshort
  have hback : (l₂.remaining.drop taken.length).take 2 = rest.take 2 := by
    have hdrop := congrArg (List.drop taken.length) htake
    rwa [List.drop_take, Nat.add_sub_cancel_left, List.drop_left] at hdrop
  have hsplit := List.take_append_drop taken.length l₂.remaining
  rw [hfront] at hsplit
  exact ⟨l₂.remaining.drop taken.length, hsplit.symm, hback⟩

end Lexer

/-! ### Requests -/

/-- What a parser can be asked to read. -/
inductive Request : Type → Type where
  /-- An expression whose operators all bind tighter than a power. -/
  | expression (power : BindingPower) : Request Expr
  /-- An expression by a rule for its first token. -/
  | prefixRule (rule : PrefixRule) : Request Expr
  /-- What continues an expression by a rule for its operator. -/
  | continuation (left : Expr) (power : BindingPower) (rule : InfixRule) : Request Expr
  /-- A statement. -/
  | statement : Request Stmt
  /-- A statement by a rule for its first token. -/
  | statementRule (rule : StatementRule) : Request Stmt
  /-- What is left of a statement that could not be read. -/
  | recovery (inBlock : Bool) : Request Unit
  /-- A program. -/
  | program : Request Program

/-- The step by which it is read with a grammar, where `expr` reads the expressions. -/
def Request.step (g : Grammar) (expr : ExprReader) {α : Type} : Request α → Step α
  | .expression power => expr power
  | .prefixRule rule => rule.read expr (g.statementWith expr)
  | .continuation left power rule => rule.read expr left power
  | .statement | .statementRule .lookup => g.statementWith expr
  | .statementRule rule => rule.read expr
  | .recovery inBlock => Step.synchronize inBlock
  | .program => do
    let statements ← Step.bounded (Grammar.programStatements (g.statementWith expr))
    pure ⟨statements⟩

/-- Whatever is asked for, the step is local. -/
theorem Request.local_step {α : Type} (g : Grammar) (room : Nat) (request : Request α) :
    (request.step g (g.expression room)).Local := by
  have hexpr := g.local_expression room
  have hstmt := g.local_statement room
  cases request with
  | expression power => exact hexpr power
  | prefixRule rule => exact rule.local_read hexpr hstmt
  | continuation left power rule => exact rule.local_read hexpr left power
  | statement => exact hstmt
  | statementRule rule =>
    cases rule with
    | lookup => exact hstmt
    | letBinding => exact StatementRule.local_read hexpr .letBinding
    | returnValue => exact StatementRule.local_read hexpr .returnValue
    | expression => exact StatementRule.local_read hexpr .expression
  | recovery inBlock => exact Step.local_synchronize inBlock
  | program => exact g.local_program room

namespace Parser

variable {α : Type}

/-- Reads what it is asked to, if reading comes to an end. -/
def perform (p : Parser) : Request α → Option (Except Diagnostic α × Parser)
  | .expression power => p.parseExpression power
  | .prefixRule rule => p.parseExpressionBy rule
  | .continuation left power rule => p.parseContinuationBy left power rule
  | .statement => p.parseStatement
  | .statementRule rule => p.parseStatementBy rule
  | .recovery inBlock => some (.ok (), p.synchronize inBlock)
  | .program => p.parseProgram.map fun result => (.ok result.1, result.2)

/-- Reading a program is a step that never ends with a diagnostic. -/
theorem perform_program (p : Parser) :
    p.perform .program = p.run (p.grammar.program p.room) := by
  have hok := Grammar.unfailing_program p.grammar p.room p.tokens
  rw [perform, parseProgram, run]
  cases hreply : p.grammar.program p.room p.tokens with
  | ok program rest log => rfl
  | fail diagnostic rest log => exact absurd hreply (hok diagnostic rest log)
  | diverges => rfl

/-- Whatever a parser is asked to read is a step by its grammar in the room that it has. -/
theorem perform_eq_run (p : Parser) (request : Request α) :
    p.perform request = p.run (request.step p.grammar (p.grammar.expression p.room)) := by
  cases request with
  | expression | prefixRule | continuation | statement => rfl
  | statementRule rule => cases rule <;> rfl
  | recovery inBlock => exact (run_synchronize p inBlock).symm
  | program => exact perform_program p

/-- A parser that takes a local step sees the tokens up to the one on which it stops and one
more. -/
theorem run_local {step : Step α} (hstep : step.Local) {p₁ q : Parser} {l₁ : Lexer}
    {result : Except Diagnostic α} (h₁ : p₁.tokens = l₁.remaining)
    (hrun : p₁.run step = some (result, q)) :
    ∃ j ≤ l₁.remaining.length, ∃ log : List Diagnostic,
      q = { p₁ with
        tokens := (l₁.skip j).remaining, diagnostics := p₁.diagnostics ++ log } ∧
      ∀ (p₂ : Parser) (l₂ : Lexer), p₂.tokens = l₂.remaining →
        (∀ i ≤ j + 1, l₂.tokenAt i = l₁.tokenAt i) →
        p₂.run step = some (result, { p₂ with
          tokens := (l₂.skip j).remaining, diagnostics := p₂.diagnostics ++ log }) := by
  -- the reply holds the result and the log, and the parsers differ in what it leaves
  obtain ⟨rest, log, hrest, hown, hother⟩ : ∃ (rest : Tokens) (log : List Diagnostic),
      (step p₁.tokens).rest? = some rest ∧
      q = { p₁ with tokens := rest, diagnostics := p₁.diagnostics ++ log } ∧
      ∀ (p₂ : Parser) (us : Tokens), step p₂.tokens = (step p₁.tokens).withRest us →
        p₂.run step = some (result, { p₂ with
          tokens := us, diagnostics := p₂.diagnostics ++ log }) := by
    unfold run at hrun ⊢
    cases hreply : step p₁.tokens with
    | ok value rest log =>
      simp only [hreply] at hrun
      cases hrun
      exact ⟨rest, log, rfl, rfl, fun p₂ us h₂ => by rw [h₂]; rfl⟩
    | fail diagnostic rest log =>
      simp only [hreply] at hrun
      cases hrun
      exact ⟨rest, log, rfl, rfl, fun p₂ us h₂ => by rw [h₂]; rfl⟩
    | diverges =>
      simp only [hreply] at hrun
      cases hrun
  obtain ⟨taken, hts, hlocal⟩ := hstep hrest
  have hremaining : l₁.remaining = taken ++ rest := h₁.symm.trans hts
  refine ⟨taken.length, ?_, log, ?_, fun p₂ l₂ h₂ hagree => ?_⟩
  · rw [hremaining, List.length_append]
    exact Nat.le_add_right _ _
  · rw [hown, Lexer.remaining_skip, hremaining, List.drop_left]
  · obtain ⟨us, hus, hlook⟩ := Lexer.exists_looksLike hremaining hagree
    rw [Lexer.remaining_skip, hus, List.drop_left]
    refine hother p₂ us ?_
    rw [h₂, hus]
    exact hlocal us hlook

/-- Whatever a parser is asked to read is a local step, the same for all parsers of the same
grammar and depth. -/
theorem exists_perform_eq_run (g : Grammar) (depth : Nat) (request : Request α) :
    ∃ step : Step α, step.Local ∧
      ∀ p : Parser, p.grammar = g → p.depth = depth → p.perform request = p.run step := by
  refine ⟨_, request.local_step g (maxNesting - depth), ?_⟩
  rintro p rfl rfl
  exact p.perform_eq_run request

/-- **One token of lookahead.**  If a parser stops with the token at index `j` of its stream
as the current one, then every parser with the same grammar and depth whose stream agrees with
this one up to the index `j + 1` reads the same, stops at the index `j` as well and records
the same diagnostics. -/
theorem perform_local {request : Request α} {p₁ q : Parser} {l₁ : Lexer}
    {result : Except Diagnostic α} (h₁ : p₁.tokens = l₁.remaining)
    (hrun : p₁.perform request = some (result, q)) :
    ∃ j ≤ l₁.remaining.length, ∃ log : List Diagnostic,
      q = { p₁ with
        tokens := (l₁.skip j).remaining, diagnostics := p₁.diagnostics ++ log } ∧
      ∀ (p₂ : Parser) (l₂ : Lexer), p₂.grammar = p₁.grammar → p₂.depth = p₁.depth →
        p₂.tokens = l₂.remaining → (∀ i ≤ j + 1, l₂.tokenAt i = l₁.tokenAt i) →
        p₂.perform request = some (result, { p₂ with
          tokens := (l₂.skip j).remaining, diagnostics := p₂.diagnostics ++ log }) := by
  obtain ⟨step, hlocal, heq⟩ := exists_perform_eq_run p₁.grammar p₁.depth request
  rw [heq p₁ rfl rfl] at hrun
  obtain ⟨j, hj, log, hq, hother⟩ := run_local hlocal h₁ hrun
  refine ⟨j, hj, log, hq, fun p₂ l₂ hgrammar hdepth h₂ hagree => ?_⟩
  rw [heq p₂ hgrammar hdepth]
  exact hother p₂ l₂ h₂ hagree

/-- The statement `a + b`. -/
def sumOfNames : Stmt :=
  .expression ⟨.ident, "a"⟩ (.infixOp ⟨.plus, "+"⟩ (.identifier (.ofToken ⟨.ident, "a"⟩)) "+"
    (.identifier (.ofToken ⟨.ident, "b"⟩)))

/-- A sum in front of a `;` is read the same in another layout, after another token has been
read, and with something else behind what can be seen. -/
theorem perform_local_sumOfNames :
    let l₁ := Lexer.ofString "a + b; c d"
    let l₂ := (Lexer.ofString "x a  +b;\tc 1").skip 1
    (ofLexer l₁).tokens = l₁.remaining ∧
    (ofLexer l₁).perform .statement =
      some (.ok sumOfNames, { ofLexer l₁ with tokens := (l₁.skip 3).remaining }) ∧
    (ofLexer l₂).perform .statement =
      some (.ok sumOfNames, { ofLexer l₂ with tokens := (l₂.skip 3).remaining }) := by
  intro l₁ l₂
  have hstep : Grammar.standard.statement maxNesting l₁.remaining =
      .ok sumOfNames (l₁.skip 3).remaining [] := by decide +kernel
  have hrun : (ofLexer l₁).perform .statement =
      some (.ok sumOfNames, { ofLexer l₁ with tokens := (l₁.skip 3).remaining }) := by
    show run (ofLexer l₁) (Grammar.standard.statement maxNesting) = _
    unfold run
    rw [show (ofLexer l₁).tokens = l₁.remaining from rfl, hstep]
    rfl
  obtain ⟨j, hj, log, hq, hother⟩ := perform_local rfl hrun
  obtain rfl : 3 = j := by
    have hlength := congrArg (fun q : Parser => q.tokens.length) hq
    simp only [Lexer.remaining_skip, List.length_drop] at hlength
    have hsix : l₁.remaining.length = 6 := by decide +kernel
    omega
  obtain rfl : [] = log := congrArg Parser.diagnostics hq
  have hagree : ∀ i ≤ 3 + 1, l₂.tokenAt i = l₁.tokenAt i := by decide +kernel
  exact ⟨rfl, hrun, hother (ofLexer l₂) l₂ rfl rfl rfl hagree⟩

end Parser

end Script
