import Script.Proofs.Finding

/-!
# What reading finds

Whoever observes it, each rule finds the same at the same places, and in the order of the
source.  A rule that is entered at a token finds nothing before it, and most of them nothing
before the next one.  The loop over the statements of a block goes on after what it has
recorded: either recovery has moved behind the current token of the finding, or it has stayed
at the brace that closes the block, where nothing more is found.

## Main definitions

* `Grammar.observedExpression`, `Grammar.observedStatement`, `Grammar.observedProgram` —
  reading with an observer.
* `ExprReader.Tracked` — what is found in expressions is a trace.

## Main results

* `Grammar.observedProgram_none` — without an observer, reading is what it is.
* `Grammar.tracked_expression` — what is found in an expression is a trace.
* `Grammar.exists_trace_of_program` — so is what is found in a program.
-/

namespace Script

open Tokens Reply Step

/-! ### Reading with an observer -/

namespace Grammar

/-- Reads an expression, given a way to read the expressions and one to read the statements
that stand in it. -/
def expressionBy (g : Grammar) (expr : ExprReader) (stmt : Step Stmt) (power : BindingPower) :
    Step Expr := do
  let token ← Step.current
  match g.prefixRule token.kind with
  | none => Step.reject (.noPrefixRule token.kind)
  | some rule => do
    let left ← rule.read expr stmt
    Step.bounded fun rounds => g.operators expr power rounds left

theorem expressionWith_eq_expressionBy (g : Grammar) (expr : ExprReader) :
    g.expressionWith expr = g.expressionBy expr (g.statementWith expr) := rfl

/-- Reads an expression, and tells an observer of every statement in it that is given up. -/
def observedExpression (g : Grammar) (observer : Observer) : Nat → ExprReader
  | 0, _ => Step.reject (.nestingTooDeep maxNesting)
  | room + 1, power => g.expressionBy (g.observedExpression observer room)
      ((g.statementWith (g.observedExpression observer room)).observed observer) power

/-- Reads a statement, and tells an observer if it is given up. -/
def observedStatement (g : Grammar) (observer : Observer) (room : Nat) : Step Stmt :=
  (g.statementWith (g.observedExpression observer room)).observed observer

/-- Reads the statements of a program, and tells an observer of those that are given up. -/
def observedProgram (g : Grammar) (observer : Observer) (room : Nat) : Step (List Stmt) :=
  Step.bounded (programStatements (g.observedStatement observer room))

theorem observedExpression_none (g : Grammar) : g.observedExpression none = g.expression := by
  funext room
  induction room with
  | zero => rfl
  | succ room ih =>
    funext power
    rw [observedExpression, ih, observed_none, expression_succ, expressionWith_eq_expressionBy]

/-- Without an observer, reading is what it is. -/
theorem observedProgram_none (g : Grammar) (room : Nat) :
    g.observedProgram none room = Step.bounded (programStatements (g.statement room)) := by
  rw [observedProgram, observedStatement, observedExpression_none, observed_none]
  rfl

end Grammar

/-- What is found in expressions is a trace that starts at their first token. -/
def ExprReader.Tracked (g : Grammar) (exprs : Observer → ExprReader) : Prop :=
  ∀ power ts, Reply.Tracked g ts.length ts fun observer => exprs observer power ts

section

variable {α β : Type} {g : Grammar} {exprs : Observer → ExprReader} {stmts : Observer → Step Stmt}
  {ts : Tokens}

namespace Rule

/-! ### Operators, parentheses and choices -/

/-- An expression that starts behind the current token, and what follows it. -/
theorem tracked_advance_expr (hexprs : ExprReader.Tracked g exprs) (power : BindingPower)
    {second : Observer → Token → Expr → Step β}
    (hsecond : ∀ e rest, rest ≠ [] → Tracked g rest.tail.length rest fun observer =>
      second observer ts.current e rest) :
    Tracked g ts.tail.length ts fun observer =>
      (advance >>= fun token => exprs observer power >>= second observer token) ts := by
  refine tracked_advance ?_
  exact (hexprs power ts.tail).bind (length_tail_le ts.tail) hsecond

theorem tracked_prefixOp (hexprs : ExprReader.Tracked g exprs) :
    Tracked g ts.tail.length ts fun observer => prefixOp (exprs observer) ts := by
  refine tracked_advance_expr hexprs .unary ?_
  intro right rest hrest
  exact tracked_pure hrest

theorem tracked_infixOp (hexprs : ExprReader.Tracked g exprs) (left : Expr)
    (power : BindingPower) :
    Tracked g ts.tail.length ts fun observer => infixOp (exprs observer) left power ts := by
  refine tracked_advance_expr hexprs power ?_
  intro right rest hrest
  exact tracked_pure hrest

/-- What has been read is closed by a parenthesis. -/
theorem tracked_close {hi : Nat} {reads : Observer → Step α} {input : Tokens}
    (hreads : Tracked g hi ts fun observer => reads observer input) (hhi : ts.tail.length ≤ hi) :
    Tracked g hi ts fun observer => (reads observer >>= fun value => do
      let _ ← Step.expect .rparen
      pure value) input := by
  refine hreads.bind hhi ?_
  intro value us hus
  refine (tracked_expect hus (by decide) (by decide)).bind (Nat.le_refl _) ?_
  intro close rest hrest
  exact tracked_pure hrest

theorem tracked_grouping (hexprs : ExprReader.Tracked g exprs) :
    Tracked g ts.tail.length ts fun observer => grouping (exprs observer) ts := by
  refine tracked_advance ?_
  exact tracked_close (hexprs .lowest ts.tail) (length_tail_le ts.tail)

theorem tracked_alternative (hexprs : ExprReader.Tracked g exprs) (hts : ts ≠ []) :
    Tracked g ts.tail.length ts fun observer => alternative (exprs observer) ts := by
  refine tracked_peek ?_
  by_cases hword : ts.peek.kind = .kwElse
  · simp only [if_pos hword]
    refine tracked_advance ?_
    refine Tracked.mono ?_ (List.suffix_refl ts.tail) (length_tail_le ts.tail)
    refine tracked_advance_expr hexprs .lowest ?_
    intro value rest hrest
    exact tracked_pure hrest
  · simp only [if_neg hword]
    exact tracked_pure hts

theorem tracked_conditional (hexprs : ExprReader.Tracked g exprs) :
    Tracked g ts.tail.length ts fun observer => conditional (exprs observer) ts := by
  refine tracked_advance_expr hexprs .lowest ?_
  intro condition us hus
  refine tracked_advance_expr hexprs .lowest ?_
  intro consequence vs hvs
  refine (tracked_alternative hexprs hvs).bind (Nat.le_refl _) ?_
  intro otherwise rest hrest
  exact tracked_pure hrest

/-! ### Functions and calls -/

theorem tracked_andMore (value : α) (hts : ts ≠ []) :
    Tracked g ts.tail.length ts fun _ => andMore value ts := by
  refine tracked_peek ?_
  by_cases hcomma : ts.peek.kind = .comma
  · simp only [if_pos hcomma]
    exact tracked_advance (tracked_pure (tail_ne_nil_of_peek hcomma (by decide)))
  · simp only [if_neg hcomma]
    exact tracked_pure hts

theorem tracked_names (hts : ts ≠ []) :
    Tracked g ts.tail.length ts fun _ => bounded parameterNames ts := by
  have hprogress : nameRound.Progresses fun value => value.2 = true :=
    ⟨settles_nameRound, fun hround _ => progresses_nameRound.length_lt hround trivial⟩
  rw [parameterNames_eq_collectWhile]
  refine tracked_collectWhile (fun _ => nameRound) hprogress ?_ hts (Nat.lt_succ_self ts.length)
  intro us hus
  refine (tracked_expect hus (by decide) (by decide)).bind (Nat.le_refl _) ?_
  intro name rest hrest
  exact tracked_andMore _ hrest

theorem tracked_parameters (hts : ts ≠ []) :
    Tracked g ts.tail.length ts fun _ => (parameters : Step _) ts := by
  refine tracked_peek ?_
  by_cases hclose : ts.peek.kind = .rparen
  · simp only [if_pos hclose]
    exact tracked_advance (tracked_pure (tail_ne_nil_of_peek hclose (by decide)))
  · simp only [if_neg hclose]
    exact tracked_close (tracked_names hts) (Nat.le_refl _)

theorem tracked_function (hexprs : ExprReader.Tracked g exprs) (hts : ts ≠ []) :
    Tracked g ts.tail.length ts fun observer => function (exprs observer) ts := by
  refine tracked_current ?_
  refine (tracked_expect hts (by decide) (by decide)).bind (Nat.le_refl _) ?_
  intro opening us hus
  refine (tracked_parameters hus).bind (Nat.le_refl _) ?_
  intro names vs hvs
  refine tracked_advance_expr hexprs .lowest ?_
  intro body rest hrest
  exact tracked_pure hrest

theorem tracked_values (hexprs : ExprReader.Tracked g exprs)
    (hsettles : ∀ power, (exprs none power).Settles) (hts : ts ≠ []) :
    Tracked g ts.tail.length ts fun observer => bounded (argumentValues (exprs observer)) ts := by
  simp only [argumentValues_eq_collectWhile]
  refine tracked_collectWhile (fun observer => valueRound (exprs observer))
    (progresses_valueRound hsettles) ?_ hts (Nat.lt_succ_self ts.length)
  intro us hus
  refine tracked_advance_expr hexprs .lowest ?_
  intro value rest hrest
  exact tracked_andMore value hrest

theorem tracked_arguments (hexprs : ExprReader.Tracked g exprs)
    (hsettles : ∀ power, (exprs none power).Settles) (hts : ts ≠ []) :
    Tracked g ts.tail.length ts fun observer => arguments (exprs observer) ts := by
  refine tracked_peek ?_
  by_cases hclose : ts.peek.kind = .rparen
  · simp only [if_pos hclose]
    exact tracked_advance (tracked_pure (tail_ne_nil_of_peek hclose (by decide)))
  · simp only [if_neg hclose]
    exact tracked_close (tracked_values hexprs hsettles hts) (Nat.le_refl _)

theorem tracked_call (hexprs : ExprReader.Tracked g exprs)
    (hsettles : ∀ power, (exprs none power).Settles) (hts : ts ≠ []) (callee : Expr) :
    Tracked g ts.tail.length ts fun observer => call (exprs observer) callee ts := by
  refine tracked_current ?_
  refine (tracked_arguments hexprs hsettles hts).bind (Nat.le_refl _) ?_
  intro values rest hrest
  exact tracked_pure hrest

/-! ### Blocks -/

/-- A statement that an observer is told of if it is given up: it is read or given up in the
same way, whoever the observer is. -/
theorem observed_of_tracked {hi : Nat}
    (h : Tracked g hi ts fun observer => stmts observer ts) :
    (∃ s rest fs, rest <:+ ts ∧ rest ≠ [] ∧ Trace g ts hi rest.tail.length fs ∧
      ∀ observer, (stmts observer).observed observer ts =
        .ok s rest (fs.map fun f => f.noted observer)) ∨
    ∃ f fs, f.rest <:+ ts ∧ Trace g ts hi f.reported.length (fs ++ [f]) ∧
      ∀ observer, (stmts observer).observed observer ts =
        .fail (f.noted observer) f.rest (fs.map fun f => f.noted observer) := by
  generalize hreplies : (fun observer => stmts observer ts) = replies at h
  have hstmt (observer : Observer) : stmts observer ts = replies observer :=
    congrFun hreplies observer
  cases h with
  | @ok s rest fs hrest hne htrace =>
    refine .inl ⟨s, rest, fs, hrest, hne, htrace, fun observer => ?_⟩
    rw [observed, hstmt]
  | @fail f diagnostic fs hnoted htrace =>
    have hf := htrace.raised f (List.mem_append_right _ (List.mem_singleton.2 rfl))
    refine .inr ⟨f, fs, hf.2, htrace, fun observer => ?_⟩
    rw [observed, hstmt, ← hnoted observer]

theorem map_noted_concat (fs : List Finding) (f : Finding) (observer : Observer) :
    (fs.map fun f => f.noted observer) ++ [f.noted observer] =
      (fs ++ [f]).map fun f => f.noted observer := by
  rw [List.map_append]
  rfl

/-- Behind a finding recovery moves on, or it stays at the brace that closes the block. -/
theorem length_recover_le (f : Finding) (inBlock : Bool) :
    (f.rest.recover inBlock).length ≤ f.reported.length ∨
      f.rest.recover inBlock = f.rest ∧ f.rest.current.kind = .rbrace ∧ inBlock = true := by
  have hle := f.length_rest_le
  rw [List.length_tail] at hle
  by_cases hnil : f.rest = []
  · rw [hnil]
    exact .inl (Nat.zero_le _)
  · by_cases hstays : inBlock = true ∧ f.rest.current.kind = .rbrace
    · refine .inr ⟨?_, hstays.2, hstays.1⟩
      cases hrest : f.rest with
      | nil => rfl
      | cons t us =>
        rw [hrest, current_cons] at hstays
        rw [recover, if_pos (by simp [hstays])]
    · have hmoves : inBlock = false ∨ f.rest.current.kind ≠ .rbrace := by
        cases inBlock with
        | false => exact .inl rfl
        | true => exact .inr fun hbrace => hstays ⟨rfl, hbrace⟩
      have hlt := length_recover_lt inBlock hnil hmoves
      exact .inl (by omega)

theorem collect_blockRound_of_rbrace {stmt : Step Stmt} (hbrace : ts.current.kind = .rbrace)
    (n : Nat) : collect (blockRound stmt) (n + 1) ts = .ok [] ts [] := by
  rw [collect, bind_of_ok (blockRound_of_rbrace hbrace)]
  rfl

/-- A block that is over has found nothing. -/
theorem tracked_collect_of_rbrace {hi n : Nat} (hbrace : ts.current.kind = .rbrace) (hn : n ≠ 0) :
    Tracked g hi ts fun observer => collect (blockRound (stmts observer)) n ts := by
  obtain ⟨n, rfl⟩ := Nat.exists_eq_add_one_of_ne_zero hn
  simp only [collect_blockRound_of_rbrace hbrace]
  exact tracked_pure (ne_nil_of_current_kind (by rw [hbrace]; decide))

/-- What is found behind a finding is reported no earlier: recovery has moved on, or the block
ends at the brace where it has stayed. -/
theorem tracked_collect_recover {n : Nat} (f : Finding) (hn : n ≠ 0)
    (hmore : Tracked g (f.rest.recover true).length (f.rest.recover true) fun observer =>
      collect (blockRound (stmts observer)) n (f.rest.recover true)) :
    Tracked g f.reported.length (f.rest.recover true) fun observer =>
      collect (blockRound (stmts observer)) n (f.rest.recover true) := by
  rcases length_recover_le f true with hmoved | ⟨hstayed, hbrace, -⟩
  · exact hmore.mono (List.suffix_refl _) hmoved
  · rw [hstayed]
    exact tracked_collect_of_rbrace hbrace hn

/-- What is found in the statements of a block is in order, as it is in each of them. -/
theorem tracked_blockStatements
    (hstmts : ∀ ts, Tracked g ts.length ts fun observer => stmts observer ts) {n : Nat}
    (hn : ts.length < n) :
    Tracked g ts.length ts fun observer =>
      blockStatements ((stmts observer).observed observer) n ts := by
  simp only [blockStatements_eq_collect]
  induction n generalizing ts with
  | zero => omega
  | succ n ih =>
    by_cases hbrace : ts.current.kind = .rbrace
    · exact tracked_collect_of_rbrace hbrace (Nat.succ_ne_zero n)
    · by_cases heof : ts.current.kind = .eof
      · simp only [collect, bind_of_fail (blockRound_of_eof heof)]
        exact tracked_reject (.unclosedBlock heof) rfl
      · rcases observed_of_tracked (hstmts ts) with ⟨s, rest, fs, hrest, hne, htrace, hstmt⟩ |
          ⟨f, fs, hrest, htrace, hstmt⟩
        · -- the statement is read, and the loop goes on behind its last token
          have hpos := List.length_pos_iff.2 hne
          have hle := hrest.length_le
          have htail : rest.tail.length < ts.length := by
            rw [List.length_tail]
            omega
          simp only [collect_of_goesOn (blockRound_of_ok hbrace heof (hstmt _))
            (Round.goesOn_read s)]
          refine Tracked.after ?_ htrace ((List.tail_suffix rest).trans hrest)
            (length_tail_le rest.tail) (Nat.le_of_lt htail)
          refine (ih (by omega)).bind (length_tail_le rest.tail) ?_
          intro ss us hus
          exact tracked_pure hus
        · cases hnesting : f.diagnostic.fault.isNesting with
          | true =>
            simp only [collect, bind_of_fail (blockRound_of_nesting hbrace heof (hstmt _) hnesting)]
            exact .fail (fun observer => Diagnostic.noted_noted _ _ _) htrace
          | false =>
            -- the statement is given up, and the loop goes on where recovery has stopped
            have hskip := f.rest.recover_suffix true
            have hlt := length_recover_lt_of_suffix true hrest heof (.inr hbrace)
            have htail : (f.rest.recover true).tail.length ≤ f.reported.length :=
              Nat.le_trans (length_tail_le_of_suffix hskip) f.length_rest_le
            simp only [collect_of_goesOn (blockRound_of_fail hbrace heof (hstmt _) hnesting)
              Round.goesOn_skipped, map_noted_concat]
            refine Tracked.after ?_ htrace (hskip.trans hrest) htail (htrace.le_hi f (by simp))
            refine (tracked_collect_recover f (by omega) (ih (by omega))).bind htail ?_
            intro ss us hus
            exact tracked_pure hus

theorem tracked_block (hstmts : ∀ ts, Tracked g ts.length ts fun observer => stmts observer ts) :
    Tracked g ts.tail.length ts fun observer => block ((stmts observer).observed observer) ts := by
  refine tracked_advance ?_
  refine (tracked_blockStatements hstmts (Nat.lt_succ_self _)).bind (length_tail_le ts.tail) ?_
  intro statements rest hrest
  exact tracked_pure hrest

end Rule

/-! ### Rules by name -/

namespace Grammar

/-- A rule that is entered at a token finds nothing before it. -/
theorem tracked_prefixRule (hexprs : ExprReader.Tracked g exprs)
    (hstmts : ∀ ts, Tracked g ts.length ts fun observer => stmts observer ts) (hts : ts ≠ [])
    (rule : PrefixRule) :
    Tracked g ts.length ts fun observer =>
      rule.read (exprs observer) ((stmts observer).observed observer) ts := by
  have hsuffix := List.suffix_refl ts
  have hle := length_tail_le ts
  cases rule with
  | identifier => exact tracked_current (tracked_pure hts)
  | integer =>
    refine tracked_current ?_
    cases hvalue : Text.integer? ts.current.literal with
    | none => exact tracked_reject (.invalidInteger hvalue) rfl
    | some value => exact tracked_pure hts
  | boolean => exact tracked_current (tracked_pure hts)
  | prefixOp => exact (Rule.tracked_prefixOp hexprs).mono hsuffix hle
  | grouping => exact (Rule.tracked_grouping hexprs).mono hsuffix hle
  | block => exact (Rule.tracked_block hstmts).mono hsuffix hle
  | conditional => exact (Rule.tracked_conditional hexprs).mono hsuffix hle
  | function => exact (Rule.tracked_function hexprs hts).mono hsuffix hle

/-- An operator is a token of the source, and its operand starts behind it. -/
theorem tracked_operatorRound (hg : g.WellFounded) (hexprs : ExprReader.Tracked g exprs)
    (hsettles : ∀ power, (exprs none power).Settles) (hts : ts ≠ []) (power : BindingPower)
    (left : Expr) :
    Tracked g ts.tail.length ts fun observer =>
      g.operatorRound (exprs observer) power left ts := by
  refine tracked_peek ?_
  cases hnext : g.continuesAt? power ts.peek with
  | none => exact tracked_pure hts
  | some next =>
    have htail : ts.tail ≠ [] := tail_ne_nil_of_peek rfl (hg.continuesAt?_eof hnext)
    refine tracked_advance ?_
    refine Tracked.mono ?_ (List.suffix_refl ts.tail) (length_tail_le ts.tail)
    obtain ⟨q, rule⟩ := next
    cases rule with
    | infixOp =>
      refine (Rule.tracked_infixOp hexprs left q).bind (Nat.le_refl _) ?_
      intro e rest hrest
      exact tracked_pure hrest
    | call =>
      refine (Rule.tracked_call hexprs hsettles htail left).bind (Nat.le_refl _) ?_
      intro e rest hrest
      exact tracked_pure hrest

/-- The operators find nothing before the token that follows their left operand. -/
theorem tracked_operators (hg : g.WellFounded) (hexprs : ExprReader.Tracked g exprs)
    (hsettles : ∀ power, (exprs none power).Settles) (hts : ts ≠ []) (power : BindingPower)
    (left : Expr) :
    Tracked g ts.tail.length ts fun observer =>
      bounded (fun rounds => g.operators (exprs observer) power rounds left) ts := by
  simp only [operators_eq_fold]
  refine tracked_fold (fun observer => g.operatorRound (exprs observer) power)
    (progresses_operatorRound hg hsettles power) ?_ left hts (Nat.lt_succ_self ts.length)
  intro left us hus
  exact tracked_operatorRound hg hexprs hsettles hus power left

/-! ### Expressions, statements and programs -/

/-- A `;` behind the value of a statement ends it. -/
theorem tracked_skipSemicolon_pure (value : α) (hts : ts ≠ []) :
    Tracked g ts.tail.length ts fun _ =>
      (Step.skipSemicolon >>= fun _ => (pure value : Step α)) ts := by
  refine (tracked_skipSemicolon hts).bind (Nat.le_refl _) ?_
  intro _ rest hrest
  exact tracked_pure hrest

theorem tracked_statementWith (hg : g.WellFounded) (heof : g.statementRule .eof = none)
    (hexprs : ExprReader.Tracked g exprs) (ts : Tokens) :
    Tracked g ts.length ts fun observer => g.statementWith (exprs observer) ts := by
  refine tracked_current ?_
  cases hrule : (g.statementRule ts.current.kind).getD .expression with
  | lookup => exact absurd (statementRule_eq_some hrule (by decide)) (hg.statementRule_ne_lookup _)
  | letBinding =>
    have hts : ts ≠ [] := by
      rintro rfl
      rw [current_nil, show g.statementRule Token.eof.kind = none from heof] at hrule
      cases hrule
    refine tracked_current ?_
    refine Tracked.mono ?_ (List.suffix_refl ts) (length_tail_le ts)
    refine (tracked_expect hts (by decide) (by decide)).bind (Nat.le_refl _) ?_
    intro name us hus
    refine (tracked_expect hus (by decide) (by decide)).bind (Nat.le_refl _) ?_
    intro assign vs hvs
    refine Rule.tracked_advance_expr hexprs .lowest ?_
    intro value ws hws
    exact tracked_skipSemicolon_pure _ hws
  | returnValue =>
    refine Tracked.mono ?_ (List.suffix_refl ts) (length_tail_le ts)
    refine Rule.tracked_advance_expr hexprs .lowest ?_
    intro value us hus
    exact tracked_skipSemicolon_pure _ hus
  | expression =>
    refine tracked_current ?_
    refine (hexprs .lowest ts).bind (length_tail_le ts) ?_
    intro e us hus
    exact tracked_skipSemicolon_pure _ hus

theorem tracked_expressionBy (hg : g.StopsAtEof) (heof : g.statementRule .eof = none)
    (hexprs : ExprReader.Tracked g exprs)
    (hsettles : ∀ power, (exprs none power).Settles) :
    ExprReader.Tracked g fun observer => g.expressionBy (exprs observer)
      ((g.statementWith (exprs observer)).observed observer) := by
  intro power ts
  refine tracked_current ?_
  cases hrule : g.prefixRule ts.current.kind with
  | none => exact tracked_reject (.noPrefixRule hrule) rfl
  | some rule =>
    have hts : ts ≠ [] := by
      obtain ⟨t, us, rfl⟩ := hg.exists_cons_of_prefixRule hrule
      exact List.cons_ne_nil t us
    have hstmts := tracked_statementWith hg.toWellFounded heof hexprs
    refine (tracked_prefixRule hexprs hstmts hts rule).bind (length_tail_le ts) ?_
    intro left rest hrest
    exact tracked_operators hg.toWellFounded hexprs hsettles hrest power left

/-- **What is found in an expression is in the order of the source.** -/
theorem tracked_expression (hg : g.StopsAtEof) (heof : g.statementRule .eof = none) (room : Nat) :
    ExprReader.Tracked g fun observer => g.observedExpression observer room := by
  induction room with
  | zero => exact fun power ts => tracked_reject .nestingTooDeep rfl
  | succ room ih =>
    refine tracked_expressionBy hg heof ih fun power => ?_
    rw [observedExpression_none]
    exact settles_expression hg.toWellFounded room power

/-- The loop over the statements of a program finds a trace, and does not end before the
source does. -/
theorem exists_trace_of_statements
    (hstmts : ∀ ts, Tracked g ts.length ts fun observer => stmts observer ts) {n : Nat}
    (hn : ts.length < n) :
    ∃ ss rest fs, Trace g ts ts.length 0 fs ∧ ∀ observer,
      programStatements ((stmts observer).observed observer) n ts =
        .ok ss rest (fs.map fun f => f.noted observer) := by
  simp only [programStatements_eq_collect]
  induction n generalizing ts with
  | zero => omega
  | succ n ih =>
    by_cases heof : ts.current.kind = .eof
    · refine ⟨[], ts, [], .nil g ts _ _, fun observer => ?_⟩
      rw [Step.collect, bind_of_ok (programRound_of_eof heof)]
      rfl
    · rcases Rule.observed_of_tracked (hstmts ts) with ⟨s, rest, fs, hrest, hne, htrace, hstmt⟩ |
          ⟨f, fs, hrest, htrace, hstmt⟩
      · -- the statement is read, and what follows is found behind its last token
        have hpos := List.length_pos_iff.2 hne
        have hle := hrest.length_le
        have htail : rest.tail.length < ts.length := by
          rw [List.length_tail]
          omega
        obtain ⟨ss, rest', fs', htrace', hmore⟩ :=
          ih (Nat.lt_of_lt_of_le htail (Nat.le_of_lt_succ hn))
        refine ⟨s :: ss, rest', fs ++ fs', ?_, fun observer => ?_⟩
        · exact htrace.append htrace' ((List.tail_suffix rest).trans hrest) (Nat.le_refl _)
            (Nat.le_of_lt htail) (Nat.zero_le _)
        · rw [List.map_append]
          exact collect_eq_ok_of_goesOn (programRound_of_ok heof (hstmt observer))
            (Round.goesOn_read s) (hmore observer)
      · -- the statement is given up, and outside of blocks recovery always moves on
        have hskip := f.rest.recover_suffix false
        have hlt := length_recover_lt_of_suffix false hrest heof (.inl rfl)
        obtain ⟨ss, rest', fs', htrace', hmore⟩ :=
          ih (Nat.lt_of_lt_of_le hlt (Nat.le_of_lt_succ hn))
        have hmoved := (Rule.length_recover_le f false).resolve_right fun h => by simp at h
        refine ⟨ss, rest', (fs ++ [f]) ++ fs', ?_, fun observer => ?_⟩
        · exact htrace.append htrace' (hskip.trans hrest) hmoved (htrace.le_hi f (by simp))
            (Nat.zero_le _)
        · rw [List.map_append, ← Rule.map_noted_concat]
          exact collect_eq_ok_of_goesOn (programRound_of_fail heof (hstmt observer))
            Round.goesOn_skipped (hmore observer)

/-- **What is found in a program is in the order of the source.** -/
theorem exists_trace_of_program (hg : g.StopsAtEof) (heof : g.statementRule .eof = none)
    (room : Nat) (ts : Tokens) :
    ∃ ss rest fs, Trace g ts ts.length 0 fs ∧ ∀ observer,
      g.observedProgram observer room ts = .ok ss rest (fs.map fun f => f.noted observer) :=
  exists_trace_of_statements (tracked_statementWith hg.toWellFounded heof
    (tracked_expression hg heof room)) (Nat.lt_succ_self _)

end Grammar

end

end Script
