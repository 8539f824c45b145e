import Script.Proofs.Rounds

/-!
# Laws of recording

What a step records depends on where it starts and on where it stops.  A law says which
diagnostics may be recorded on the way from some tokens to others, and which one a step may end
with there.  A grammar upholds a law that allows a single move, one way after another, whatever
a rule can find wrong, and a statement that a block has given up and skipped.  The steps of
reading are then all allowed by the law, and no other induction over the rules is needed.

## Main definitions

* `Law` — what may be recorded between two points of a source.
* `Diagnostic.FoundAt` — what the rules of a grammar can find wrong at some tokens.
* `Grammar.Upholds` — the conditions on the law.
* `Reply.Obeys`, `Step.Obeys` — what a step comes to is allowed.

## Main results

* `Grammar.Upholds.obeys_bind`, `Grammar.Upholds.obeys_collectWhile`,
  `Grammar.Upholds.obeys_fold` — one step after another, and the repetition of a round.
* `Grammar.Upholds.obeys_blockRound`, `Grammar.Upholds.obeys_block` — a block, in which
  statements are given up and skipped.
* `Grammar.Upholds.obeys_expression`, `Grammar.Upholds.obeys_statement` — reading by a grammar
  obeys the laws that the grammar upholds.
-/

namespace Script

open Step

/-! ### Laws -/

/-- What may be recorded on the way from the first tokens to the second ones, and the diagnostic
that a step may end with there, if it ends with one. -/
abbrev Law := Tokens → Tokens → List Diagnostic → Option Diagnostic → Prop

/-- The kinds of token that a rule can ask for. -/
def Kind.demanded : List Kind := [.ident, .assign, .lparen, .rparen]

/-- What the rules of a grammar can find wrong where the given tokens are left. -/
inductive Diagnostic.FoundAt (g : Grammar) (ts : Tokens) : Diagnostic → Prop where
  /-- The token ahead has another kind than the one that is asked for. -/
  | unexpectedToken {kind : Kind} (hkind : kind ∈ Kind.demanded) (hahead : ts.peek.kind ≠ kind) :
      FoundAt g ts ⟨.unexpectedToken kind ts.peek.kind, ts.peek⟩
  /-- The source ends inside a block. -/
  | unclosedBlock (heof : ts.current.kind = .eof) :
      FoundAt g ts ⟨.unexpectedToken .rbrace .eof, ts.current⟩
  /-- No expression starts with the current token. -/
  | noPrefixRule (hrule : g.prefixRule ts.current.kind = none) :
      FoundAt g ts ⟨.noPrefixRule ts.current.kind, ts.current⟩
  /-- The current token is read as an integer, and is none. -/
  | invalidInteger (hrule : g.prefixRule ts.current.kind = some .integer)
      (hvalue : Text.integer? ts.current.literal = none) :
      FoundAt g ts ⟨.invalidInteger ts.current.literal, ts.current⟩
  /-- There is no room for the expression that starts with the current token. -/
  | nestingTooDeep : FoundAt g ts ⟨.nestingTooDeep maxNesting, ts.current⟩

/-- The law allows a block that starts with `ts` to go on behind a statement in it that it has
given up and recorded. -/
def Law.AllowsSkip (law : Law) (ts : Tokens) : Prop :=
  ∀ {us rest : Tokens} {log log' : List Diagnostic} {diagnostic : Diagnostic},
    us <:+ ts.tail → us.current.kind ≠ .rbrace → us.current.kind ≠ .eof →
    law ts us log none → rest <:+ us → law us rest log' (some diagnostic) →
    diagnostic.fault.isNesting = false →
    law ts (rest.recover true) (log ++ (log' ++ [diagnostic])) none

/-- The law for what is still to come of the way from `ts`, on which `log` has been recorded so
far. -/
def Law.onward (law : Law) (ts : Tokens) (log : List Diagnostic) : Law :=
  fun _ rest log' ending => law ts rest (log ++ log') ending

/-- The law allows what steps by this grammar are made of. -/
structure Grammar.Upholds (g : Grammar) (law : Law) : Prop where
  /-- It allows to stay where one is, -/
  stay : ∀ ts, law ts ts [] none
  /-- to move on by a token -/
  advance : ∀ ts : Tokens, law ts ts.tail [] none
  /-- and to go on from where one has got to. -/
  trans : ∀ {ts us vs : Tokens} {log log' : List Diagnostic} {ending : Option Diagnostic},
    us <:+ ts → vs <:+ us → law ts us log none → law us vs log' ending →
      law ts vs (log ++ log') ending
  /-- It allows to end with whatever can be found wrong. -/
  found : ∀ {ts : Tokens} {diagnostic : Diagnostic}, diagnostic.FoundAt g ts →
    law ts ts [] (some diagnostic)
  /-- It allows blocks to skip statements. -/
  skip : ∀ {ts : Tokens}, g.prefixRule ts.current.kind = some .block → law.AllowsSkip ts

variable {α β : Type} {g : Grammar} {law : Law} {ts us : Tokens} {log : List Diagnostic}

/-- What a step on `ts` comes to is allowed, and leaves a suffix of `ts`.  A step that runs for
ever comes to nothing. -/
def Reply.Obeys (law : Law) (ts : Tokens) : Reply α → Prop
  | ok _ rest log => rest <:+ ts ∧ law ts rest log none
  | fail diagnostic rest log => rest <:+ ts ∧ law ts rest log (some diagnostic)
  | diverges => True

/-- Whatever the tokens are, what the step comes to is allowed. -/
def Step.Obeys (law : Law) (step : Step α) : Prop := ∀ ts, (step ts).Obeys law ts

theorem Step.obeys_bounded {loop : Nat → Step α} (hloop : ∀ n, (loop n).Obeys law) :
    (bounded loop).Obeys law :=
  fun ts => hloop (ts.length + 1) ts

/-- Nothing is recorded by handing on what has been read. -/
theorem Reply.obeys_map {step : Step α} (f : α → β)
    (h : ((step us).after log).Obeys law ts) :
    (((step >>= fun value => pure (f value)) us).after log).Obeys law ts := by
  cases hstep : step us with
  | ok value rest log' =>
    rw [hstep] at h
    rw [bind_of_ok hstep, pure_apply, Reply.after_ok, List.append_nil]
    exact h
  | fail diagnostic rest log' =>
    rw [hstep] at h
    rw [bind_of_fail hstep]
    exact h
  | diverges =>
    rw [bind_of_diverges hstep]
    trivial

namespace Grammar.Upholds

variable (h : g.Upholds law)

include h

/-! ### One step after another -/

/-- What is allowed from where one has got to is allowed from where one has started. -/
theorem obeys_after {reply : Reply α} (hus : us <:+ ts) (hlog : law ts us log none)
    (hreply : reply.Obeys law us) : (reply.after log).Obeys law ts := by
  cases reply with
  | ok value rest log' => exact ⟨hreply.1.trans hus, h.trans hus hreply.1 hlog hreply.2⟩
  | fail diagnostic rest log' => exact ⟨hreply.1.trans hus, h.trans hus hreply.1 hlog hreply.2⟩
  | diverges => trivial

/-- One step after another, from given tokens on. -/
theorem obeys_bind_apply {first : Step α} {second : α → Step β} (hfirst : (first ts).Obeys law ts)
    (hsecond : ∀ value, (second value).Obeys law) : ((first >>= second) ts).Obeys law ts := by
  rw [bind_apply]
  cases hreply : first ts with
  | ok value rest log =>
    rw [hreply] at hfirst
    exact h.obeys_after hfirst.1 hfirst.2 (hsecond value rest)
  | fail diagnostic rest log =>
    rw [hreply] at hfirst
    exact hfirst
  | diverges => trivial

theorem obeys_bind {first : Step α} {second : α → Step β} (hfirst : first.Obeys law)
    (hsecond : ∀ value, (second value).Obeys law) : (first >>= second).Obeys law :=
  fun ts => h.obeys_bind_apply (hfirst ts) hsecond

/-! ### Single moves -/

theorem obeys_pure (value : α) : (pure value : Step α).Obeys law :=
  fun ts => ⟨List.suffix_refl ts, h.stay ts⟩

theorem obeys_current : current.Obeys law := fun ts => ⟨List.suffix_refl ts, h.stay ts⟩

theorem obeys_peek : peek.Obeys law := fun ts => ⟨List.suffix_refl ts, h.stay ts⟩

theorem obeys_advance : Step.advance.Obeys law := fun ts => ⟨List.tail_suffix ts, h.advance ts⟩

theorem obeys_expect {kind : Kind} (hkind : kind ∈ Kind.demanded) : (expect kind).Obeys law := by
  intro ts
  rw [expect_apply]
  by_cases hahead : ts.peek.kind = kind
  · rw [if_pos hahead]
    exact ⟨List.tail_suffix ts, h.advance ts⟩
  · rw [if_neg hahead]
    exact ⟨List.suffix_refl ts, h.found (.unexpectedToken hkind hahead)⟩

theorem obeys_skipSemicolon : skipSemicolon.Obeys law := by
  intro ts
  rw [skipSemicolon_apply]
  by_cases hahead : ts.peek.kind = .semicolon
  · rw [if_pos hahead]
    exact ⟨List.tail_suffix ts, h.advance ts⟩
  · rw [if_neg hahead]
    exact ⟨List.suffix_refl ts, h.stay ts⟩

theorem obeys_reject {cause : Fault} (hcause : (Diagnostic.mk cause ts.current).FoundAt g ts) :
    ((reject cause : Step α) ts).Obeys law ts :=
  ⟨List.suffix_refl ts, h.found hcause⟩

/-! ### Repetition -/

theorem obeys_collectWhile {round : Step (α × Bool)} (hround : round.Obeys law) (n : Nat) :
    (collectWhile round n).Obeys law := by
  induction n with
  | zero => exact fun _ => trivial
  | succ n ih =>
    refine h.obeys_bind hround fun (value, more) => ?_
    cases more with
    | true => exact h.obeys_bind ih fun values => h.obeys_pure _
    | false => exact h.obeys_pure _

theorem obeys_fold {round : α → Step (Option α)} (hround : ∀ value, (round value).Obeys law)
    (n : Nat) (value : α) : (fold round n value).Obeys law := by
  induction n generalizing value with
  | zero => exact fun _ => trivial
  | succ n ih =>
    refine h.obeys_bind (hround value) fun next => ?_
    cases next with
    | none => exact h.obeys_pure value
    | some value => exact ih value

/-! ### Blocks -/

section

variable {stmt : Step Stmt}

/-- A round of the loop over the statements of a block that starts with `ts`, where `log` has
been recorded so far. -/
theorem obeys_blockRound (hskip : law.AllowsSkip ts) (hstmt : stmt.Obeys law)
    (hus : us <:+ ts.tail) (hlog : law ts us log none) :
    (Rule.blockRound stmt us).Obeys (law.onward ts log) us := by
  have hts : us <:+ ts := hus.trans (List.tail_suffix ts)
  by_cases hbrace : us.current.kind = .rbrace
  · rw [Rule.blockRound_of_rbrace hbrace]
    exact ⟨List.suffix_refl us, h.trans hts (List.suffix_refl us) hlog (h.stay us)⟩
  by_cases heof : us.current.kind = .eof
  · rw [Rule.blockRound_of_eof heof]
    have hfound := h.found (.unclosedBlock heof)
    exact ⟨List.suffix_refl us, h.trans hts (List.suffix_refl us) hlog hfound⟩
  have hreply := hstmt us
  cases heq : stmt us with
  | ok s rest log' =>
    rw [heq] at hreply
    rw [Rule.blockRound_of_ok hbrace heof heq]
    -- the next round starts behind the last token of the statement
    have hread := h.trans hts hreply.1 hlog hreply.2
    have hnext := h.trans (hreply.1.trans hts) (List.tail_suffix rest) hread (h.advance rest)
    rw [List.append_nil] at hnext
    exact ⟨(List.tail_suffix rest).trans hreply.1, hnext⟩
  | fail diagnostic rest log' =>
    rw [heq] at hreply
    cases hnesting : diagnostic.fault.isNesting with
    | true =>
      rw [Rule.blockRound_of_nesting hbrace heof heq hnesting]
      exact ⟨hreply.1, h.trans hts hreply.1 hlog hreply.2⟩
    | false =>
      rw [Rule.blockRound_of_fail hbrace heof heq hnesting]
      exact ⟨(rest.recover_suffix true).trans hreply.1,
        hskip hus hbrace heof hlog hreply.1 hreply.2 hnesting⟩
  | diverges =>
    rw [Rule.blockRound_of_diverges hbrace heof heq]
    trivial

/-- The loop goes on where a round has got to, with what has been recorded there. -/
theorem obeys_collect_blockRound (hskip : law.AllowsSkip ts) (hstmt : stmt.Obeys law) (n : Nat)
    (hus : us <:+ ts.tail) (hlog : law ts us log none) :
    ((collect (Rule.blockRound stmt) n us).after log).Obeys law ts := by
  induction n generalizing us log with
  | zero => trivial
  | succ n ih =>
    have hts : us <:+ ts := hus.trans (List.tail_suffix ts)
    have hround := h.obeys_blockRound hskip hstmt hus hlog
    cases heq : Rule.blockRound stmt us with
    | ok round rest log' =>
      rw [heq] at hround
      by_cases hgoes : round.GoesOn
      · rw [collect_of_goesOn heq hgoes, Reply.after_after]
        exact Reply.obeys_map _ (ih (hround.1.trans hus) hround.2)
      · obtain rfl : round = .finished := Classical.not_not.1 hgoes
        rw [collect, bind_of_ok heq, Reply.after_after]
        exact ⟨hround.1.trans hts, (List.append_nil (log ++ log')).symm ▸ hround.2⟩
    | fail diagnostic rest log' =>
      rw [heq] at hround
      rw [collect, bind_of_fail heq]
      exact ⟨hround.1.trans hts, hround.2⟩
    | diverges =>
      rw [collect, bind_of_diverges heq]
      trivial

theorem obeys_block (hskip : law.AllowsSkip ts) (hstmt : stmt.Obeys law) :
    (Rule.block stmt ts).Obeys law ts := by
  have hloop := h.obeys_collect_blockRound hskip hstmt (ts.tail.length + 1)
    (List.suffix_refl ts.tail) (h.advance ts)
  rw [← Rule.blockStatements_eq_collect] at hloop
  have hread : (((bounded (Rule.blockStatements stmt) >>= fun statements =>
      pure (Expr.block ts.current statements)) ts.tail).after []).Obeys law ts :=
    Reply.obeys_map _ hloop
  rw [Reply.after_nil] at hread
  rw [Rule.block, advance_bind]
  exact hread

end

/-! ### The other rules -/

section

variable {expr : ExprReader} (hexpr : ∀ power, (expr power).Obeys law)

theorem obeys_integer
    (hinvalid : Text.integer? ts.current.literal = none →
      law ts ts [] (some ⟨.invalidInteger ts.current.literal, ts.current⟩)) :
    ((Rule.integer : Step Expr) ts).Obeys law ts := by
  rw [Rule.integer, current_bind]
  cases hvalue : Text.integer? ts.current.literal with
  | some value => exact h.obeys_pure _ ts
  | none => exact ⟨List.suffix_refl ts, hinvalid hvalue⟩

theorem obeys_andMore (value : α) : (Rule.andMore value).Obeys law := by
  refine h.obeys_bind h.obeys_peek fun ahead => ?_
  split
  · exact h.obeys_bind h.obeys_advance fun _ => h.obeys_pure _
  · exact h.obeys_pure _

/-- A list in parentheses is empty, or it is read up to the closing one. -/
theorem obeys_list {read : Step (List α)} (hread : read.Obeys law) :
    (do
      let ahead ← Step.peek
      if ahead.kind = .rparen then do
        let _ ← Step.advance
        pure []
      else do
        let values ← read
        let _ ← Step.expect .rparen
        pure values : Step (List α)).Obeys law := by
  refine h.obeys_bind h.obeys_peek fun ahead => ?_
  split
  · exact h.obeys_bind h.obeys_advance fun _ => h.obeys_pure _
  · refine h.obeys_bind hread fun values => ?_
    exact h.obeys_bind (h.obeys_expect (by decide)) fun _ => h.obeys_pure _

theorem obeys_parameters : (Rule.parameters : Step _).Obeys law := by
  refine h.obeys_list (obeys_bounded fun n => ?_)
  rw [Rule.parameterNames_eq_collectWhile]
  refine h.obeys_collectWhile ?_ n
  exact h.obeys_bind (h.obeys_expect (by decide)) fun name => h.obeys_andMore _

include hexpr

/-- An expression that starts behind the current token, and what follows it. -/
theorem obeys_advance_expr (power : BindingPower) {second : Token → Expr → Step β}
    (hsecond : ∀ token e, (second token e).Obeys law) :
    (Step.advance >>= fun token => expr power >>= second token).Obeys law :=
  h.obeys_bind h.obeys_advance fun token => h.obeys_bind (hexpr power) (hsecond token)

theorem obeys_prefixOp : (Rule.prefixOp expr).Obeys law :=
  h.obeys_advance_expr hexpr .unary fun _ _ => h.obeys_pure _

theorem obeys_infixOp (left : Expr) (power : BindingPower) :
    (Rule.infixOp expr left power).Obeys law :=
  h.obeys_advance_expr hexpr power fun _ _ => h.obeys_pure _

theorem obeys_grouping : (Rule.grouping expr).Obeys law := by
  refine h.obeys_advance_expr hexpr .lowest fun _ inner => ?_
  exact h.obeys_bind (h.obeys_expect (by decide)) fun _ => h.obeys_pure _

theorem obeys_alternative : (Rule.alternative expr).Obeys law := by
  refine h.obeys_bind h.obeys_peek fun ahead => ?_
  split
  · refine h.obeys_bind h.obeys_advance fun _ => ?_
    exact h.obeys_advance_expr hexpr .lowest fun _ _ => h.obeys_pure _
  · exact h.obeys_pure _

theorem obeys_conditional : (Rule.conditional expr).Obeys law := by
  refine h.obeys_advance_expr hexpr .lowest fun token condition => ?_
  refine h.obeys_advance_expr hexpr .lowest fun _ consequence => ?_
  exact h.obeys_bind (h.obeys_alternative hexpr) fun _ => h.obeys_pure _

theorem obeys_function : (Rule.function expr).Obeys law := by
  refine h.obeys_bind h.obeys_current fun token => ?_
  refine h.obeys_bind (h.obeys_expect (by decide)) fun _ => ?_
  refine h.obeys_bind h.obeys_parameters fun names => ?_
  exact h.obeys_advance_expr hexpr .lowest fun _ _ => h.obeys_pure _

theorem obeys_call (callee : Expr) : (Rule.call expr callee).Obeys law := by
  refine h.obeys_bind h.obeys_current fun token => ?_
  refine h.obeys_bind (h.obeys_list (obeys_bounded fun n => ?_)) fun _ => h.obeys_pure _
  rw [Rule.argumentValues_eq_collectWhile]
  refine h.obeys_collectWhile ?_ n
  exact h.obeys_advance_expr hexpr .lowest fun _ value => h.obeys_andMore value

/-! ### Rules by name -/

/-- Only integers and blocks depend on the token that they are entered at. -/
theorem obeys_prefixRule {stmt : Step Stmt} (hstmt : stmt.Obeys law) {rule : PrefixRule}
    (hinteger : rule = .integer → Text.integer? ts.current.literal = none →
      law ts ts [] (some ⟨.invalidInteger ts.current.literal, ts.current⟩))
    (hblock : rule = .block → law.AllowsSkip ts) : (rule.read expr stmt ts).Obeys law ts := by
  cases rule with
  | identifier => exact h.obeys_bind h.obeys_current (fun _ => h.obeys_pure _) ts
  | integer => exact h.obeys_integer (hinteger rfl)
  | boolean => exact h.obeys_bind h.obeys_current (fun _ => h.obeys_pure _) ts
  | prefixOp => exact h.obeys_prefixOp hexpr ts
  | grouping => exact h.obeys_grouping hexpr ts
  | block => exact h.obeys_block (hblock rfl) hstmt
  | conditional => exact h.obeys_conditional hexpr ts
  | function => exact h.obeys_function hexpr ts

theorem obeys_infixRule (left : Expr) (power : BindingPower) (rule : InfixRule) :
    (rule.read expr left power).Obeys law := by
  cases rule with
  | infixOp => exact h.obeys_infixOp hexpr left power
  | call => exact h.obeys_call hexpr left

theorem obeys_statementRule (rule : StatementRule) : (rule.read expr).Obeys law := by
  have hsemicolon (s : Stmt) : (skipSemicolon >>= fun _ => (pure s : Step Stmt)).Obeys law :=
    h.obeys_bind h.obeys_skipSemicolon fun _ => h.obeys_pure s
  cases rule with
  | lookup => exact fun _ => trivial
  | letBinding =>
    refine h.obeys_bind h.obeys_current fun token => ?_
    refine h.obeys_bind (h.obeys_expect (by decide)) fun name => ?_
    refine h.obeys_bind (h.obeys_expect (by decide)) fun _ => ?_
    exact h.obeys_advance_expr hexpr .lowest fun _ _ => hsemicolon _
  | returnValue => exact h.obeys_advance_expr hexpr .lowest fun _ _ => hsemicolon _
  | expression =>
    refine h.obeys_bind h.obeys_current fun token => ?_
    exact h.obeys_bind (hexpr .lowest) fun _ => hsemicolon _

/-! ### Reading by the grammar -/

theorem obeys_statementWith : (g.statementWith expr).Obeys law :=
  h.obeys_bind h.obeys_current fun _ => h.obeys_statementRule hexpr _

theorem obeys_operatorRound (power : BindingPower) (left : Expr) :
    (g.operatorRound expr power left).Obeys law := by
  refine h.obeys_bind h.obeys_peek fun ahead => ?_
  cases g.continuesAt? power ahead with
  | none => exact h.obeys_pure none
  | some next =>
    refine h.obeys_bind h.obeys_advance fun _ => ?_
    exact h.obeys_bind (h.obeys_infixRule hexpr left next.power next.rule) fun _ => h.obeys_pure _

theorem obeys_expressionWith (power : BindingPower) : (g.expressionWith expr power).Obeys law := by
  intro ts
  rw [expressionWith, current_bind]
  cases hrule : g.prefixRule ts.current.kind with
  | none => exact h.obeys_reject (.noPrefixRule hrule)
  | some rule =>
    have hread : (rule.read expr (g.statementWith expr) ts).Obeys law ts :=
      h.obeys_prefixRule hexpr (h.obeys_statementWith hexpr)
        (fun hinteger hvalue => h.found (.invalidInteger (hinteger ▸ hrule) hvalue))
        (fun hblock => h.skip (hblock ▸ hrule))
    refine h.obeys_bind_apply hread fun left => ?_
    rw [operators_eq_fold]
    exact obeys_bounded fun n => h.obeys_fold (h.obeys_operatorRound hexpr power) n left

end

/-- **Reading an expression obeys the laws that the grammar upholds**, however much room there
is. -/
theorem obeys_expression (room : Nat) (power : BindingPower) :
    (g.expression room power).Obeys law := by
  induction room generalizing power with
  | zero => exact fun ts => h.obeys_reject .nestingTooDeep
  | succ room ih => exact h.obeys_expressionWith ih power

/-- So does reading a statement. -/
theorem obeys_statement (room : Nat) : (g.statement room).Obeys law :=
  h.obeys_statementWith (h.obeys_expression room)

end Grammar.Upholds

end Script
