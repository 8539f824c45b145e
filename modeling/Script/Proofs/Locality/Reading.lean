import Script.Proofs.Locality

/-!
# Reading with one token of lookahead

No rule looks further ahead than at the token behind the current one, and the current one
is the last that a rule has read.  So every rule is local, in every grammar and with every
amount of room, and so are the reading of expressions, of statements and of programs.

## Main results

* `PrefixRule.local_read`, `InfixRule.local_read`, `StatementRule.local_read` — the rules.
* `Grammar.local_expression`, `Grammar.local_statement`, `Grammar.local_program` — reading
  by the rules of a grammar.
-/

namespace Script

/-- Reading expressions is local, however tightly their operators have to bind. -/
def ExprReader.Local (expr : ExprReader) : Prop := ∀ power, (expr power).Local

section

open Step

variable {α : Type} {expr : ExprReader} {stmt : Step Stmt}

namespace Rule

/-! ### Single tokens and operators -/

theorem local_identifier : (identifier : Step Expr).Local :=
  local_current.bind fun _ => local_pure _

theorem local_boolean : (boolean : Step Expr).Local := local_current.bind fun _ => local_pure _

theorem local_integer : (integer : Step Expr).Local := by
  refine local_current.bind fun token => ?_
  cases Text.integer? token.literal with
  | none => exact local_reject _
  | some value => exact local_pure _

theorem local_prefixOp (h : expr.Local) : (prefixOp expr).Local := by
  refine local_advance.bind fun token => ?_
  exact (h .unary).bind fun right => local_pure _

theorem local_infixOp (h : expr.Local) (left : Expr) (power : BindingPower) :
    (infixOp expr left power).Local := by
  refine local_advance.bind fun token => ?_
  exact (h power).bind fun right => local_pure _

/-- What has been read is closed by a parenthesis. -/
theorem local_close {read : Step α} (h : read.Local) :
    (read >>= fun value => do
      let _ ← Step.expect .rparen
      pure value).Local := by
  refine h.bind fun value => ?_
  exact (local_expect _).bind fun _ => local_pure _

theorem local_grouping (h : expr.Local) : (grouping expr).Local :=
  local_advance.bind fun _ => local_close (h .lowest)

/-! ### Choices -/

theorem local_alternative (h : expr.Local) : (alternative expr).Local := by
  refine local_peek.bind fun ahead => ?_
  split
  · refine local_advance.bind fun _ => local_advance.bind fun _ => ?_
    exact (h .lowest).bind fun value => local_pure _
  · exact local_pure _

theorem local_conditional (h : expr.Local) : (conditional expr).Local := by
  refine local_advance.bind fun token => (h .lowest).bind fun condition => ?_
  refine local_advance.bind fun _ => (h .lowest).bind fun consequence => ?_
  exact (local_alternative h).bind fun otherwise => local_pure _

/-! ### Functions and calls -/

theorem local_andMore (value : α) : (andMore value).Local := by
  refine local_peek.bind fun ahead => ?_
  split
  · exact local_advance.bind fun _ => local_pure _
  · exact local_pure _

theorem local_nameRound : nameRound.Local :=
  (local_expect _).bind fun _ => local_andMore _

theorem local_valueRound (h : expr.Local) : (valueRound expr).Local :=
  local_advance.bind fun _ => (h .lowest).bind fun value => local_andMore value

/-- A list in parentheses is empty where the closing one stands ahead, and else it is read
up to there. -/
theorem local_list {read : Step (List α)} (h : read.Local) :
    (do
      let ahead ← Step.peek
      if ahead.kind = .rparen then do
        let _ ← Step.advance
        pure []
      else do
        let values ← read
        let _ ← Step.expect .rparen
        pure values : Step (List α)).Local := by
  refine local_peek.bind fun ahead => ?_
  split
  · exact local_advance.bind fun _ => local_pure _
  · exact local_close h

theorem local_parameters : (parameters : Step _).Local := by
  refine local_list ?_
  rw [parameterNames_eq_collectWhile]
  exact local_collectWhile local_nameRound

theorem local_function (h : expr.Local) : (function expr).Local := by
  refine local_current.bind fun token => (local_expect _).bind fun _ => ?_
  refine local_parameters.bind fun names => local_advance.bind fun _ => ?_
  exact (h .lowest).bind fun body => local_pure _

theorem local_arguments (h : expr.Local) : (arguments expr).Local := by
  refine local_list ?_
  rw [argumentValues_eq_collectWhile]
  exact local_collectWhile (local_valueRound h)

theorem local_call (h : expr.Local) (callee : Expr) : (call expr callee).Local := by
  refine local_current.bind fun token => ?_
  exact (local_arguments h).bind fun values => local_pure _

/-! ### Blocks -/

theorem local_blockRound (h : stmt.Local) : (blockRound stmt).Local := by
  refine local_current.bind fun token => ?_
  split
  · exact local_pure _
  · split
    · exact local_reject _
    · refine (local_attempt h).bind fun result => ?_
      cases result with
      | ok statement => exact local_advance.bind fun _ => local_pure _
      | error diagnostic =>
        dsimp only
        split
        · exact local_fail _
        · refine (local_record _).bind fun _ => ?_
          exact (local_synchronize _).bind fun _ => local_pure _

theorem local_block (h : stmt.Local) : (block stmt).Local := by
  refine local_advance.bind fun token => ?_
  rw [blockStatements_eq_collect]
  exact (local_collect (local_blockRound h)).bind fun statements => local_pure _

/-! ### Statements -/

theorem local_letBinding (h : expr.Local) : (letBinding expr).Local := by
  refine local_current.bind fun token => (local_expect _).bind fun name => ?_
  refine (local_expect _).bind fun _ => local_advance.bind fun _ => ?_
  exact (h .lowest).bind fun value => local_skipSemicolon.bind fun _ => local_pure _

theorem local_returnValue (h : expr.Local) : (returnValue expr).Local := by
  refine local_advance.bind fun token => ?_
  exact (h .lowest).bind fun value => local_skipSemicolon.bind fun _ => local_pure _

theorem local_expressionStmt (h : expr.Local) : (expressionStmt expr).Local := by
  refine local_current.bind fun token => ?_
  exact (h .lowest).bind fun expression => local_skipSemicolon.bind fun _ => local_pure _

end Rule

/-! ### Rules by name -/

theorem PrefixRule.local_read (hexpr : expr.Local) (hstmt : stmt.Local) (rule : PrefixRule) :
    (rule.read expr stmt).Local := by
  cases rule with
  | identifier => exact Rule.local_identifier
  | integer => exact Rule.local_integer
  | boolean => exact Rule.local_boolean
  | prefixOp => exact Rule.local_prefixOp hexpr
  | grouping => exact Rule.local_grouping hexpr
  | block => exact Rule.local_block hstmt
  | conditional => exact Rule.local_conditional hexpr
  | function => exact Rule.local_function hexpr

theorem InfixRule.local_read (h : expr.Local) (left : Expr) (power : BindingPower)
    (rule : InfixRule) : (rule.read expr left power).Local := by
  cases rule with
  | infixOp => exact Rule.local_infixOp h left power
  | call => exact Rule.local_call h left

theorem StatementRule.local_read (h : expr.Local) (rule : StatementRule) :
    (rule.read expr).Local := by
  cases rule with
  | lookup => exact local_forever
  | letBinding => exact Rule.local_letBinding h
  | returnValue => exact Rule.local_returnValue h
  | expression => exact Rule.local_expressionStmt h

/-! ### Reading by a grammar -/

namespace Grammar

variable (g : Grammar)

theorem local_operatorRound (h : expr.Local) (power : BindingPower) (left : Expr) :
    (g.operatorRound expr power left).Local := by
  refine local_peek.bind fun ahead => ?_
  cases g.continuesAt? power ahead with
  | none => exact local_pure _
  | some next =>
    refine local_advance.bind fun _ => ?_
    exact (next.rule.local_read h left next.power).bind fun _ => local_pure _

/-- A round over the operators moves on to the operator, even where it is the end of the
source that an entry of the grammar makes one. -/
theorem length_lt_of_operatorRound (h : expr.Local) {power : BindingPower} {left value : Expr}
    {ts mid : Tokens} {log : List Diagnostic}
    (hround : g.operatorRound expr power left ts = .ok (some value) mid log) (hts : ts ≠ []) :
    mid.length < ts.length := by
  rw [operatorRound, peek_bind] at hround
  cases hnext : g.continuesAt? power ts.peek with
  | none =>
    simp only [hnext, pure_apply] at hround
    cases hround
  | some next =>
    simp only [hnext, advance_bind] at hround
    have hread : (next.rule.read expr left next.power >>= fun e => pure (some e)).Local :=
      (next.rule.local_read h left next.power).bind fun _ => local_pure _
    have hmid := congrArg Reply.rest? hround
    have hle := (hread.suffix hmid).length_le
    have hpos := List.length_pos_iff.2 hts
    rw [List.length_tail] at hle
    omega

theorem local_operators (h : expr.Local) (power : BindingPower) (left : Expr) :
    (bounded fun rounds => g.operators expr power rounds left).Local := by
  rw [operators_eq_fold]
  refine local_fold (g.local_operatorRound h power) ?_ left
  intro left value ts mid log hround hts
  exact g.length_lt_of_operatorRound h hround hts

theorem local_statementWith (h : expr.Local) : (g.statementWith expr).Local :=
  local_current.bind fun _ => StatementRule.local_read h _

theorem local_expressionWith (h : expr.Local) (power : BindingPower) :
    (g.expressionWith expr power).Local := by
  refine local_current.bind fun token => ?_
  cases g.prefixRule token.kind with
  | none => exact local_reject _
  | some rule =>
    refine (rule.local_read h (g.local_statementWith h)).bind fun left => ?_
    exact g.local_operators h power left

theorem local_expression (room : Nat) : (g.expression room).Local := by
  induction room with
  | zero => exact fun _ => local_reject _
  | succ room ih => exact fun power => g.local_expressionWith ih power

theorem local_statement (room : Nat) : (g.statement room).Local :=
  g.local_statementWith (g.local_expression room)

theorem local_programRound (h : stmt.Local) : (programRound stmt).Local := by
  refine local_current.bind fun token => ?_
  split
  · exact local_pure _
  · refine (local_attempt h).bind fun result => ?_
    cases result with
    | ok statement => exact local_advance.bind fun _ => local_pure _
    | error diagnostic =>
      refine (local_record _).bind fun _ => ?_
      exact (local_synchronize _).bind fun _ => local_pure _

theorem local_program (room : Nat) : (g.program room).Local := by
  unfold program
  rw [programStatements_eq_collect]
  exact (local_collect (local_programRound (g.local_statement room))).bind fun _ => local_pure _

end Grammar

end

end Script
