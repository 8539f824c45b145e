import Script.Grammar.Reading
import Script.Step.Settling

/-!
# Reading comes to an end

A grammar that does not continue expressions past the end of the source, and has
no statement rule that only looks itself up again, reads every source to its end:
each round of each loop takes a token, and the room for nesting bounds the rest.

## Main definitions

* `Grammar.WellFounded` — the condition on the grammar.

## Main results

* `Grammar.settles_expression`, `Grammar.settles_statement`,
  `Grammar.settles_program` — reading by such a grammar settles.
* `Grammar.unfailing_program` — reading a program does not fail.
-/

namespace Script

open Step

/-! ### Tokens -/

namespace Tokens

theorem ne_nil_of_current_kind {ts : Tokens} (h : ts.current.kind ≠ .eof) : ts ≠ [] := by
  rintro rfl
  exact h rfl

theorem length_of_peek_kind {ts : Tokens} (h : ts.peek.kind ≠ .eof) : 2 ≤ ts.length := by
  match ts with
  | [] => exact absurd rfl h
  | [_] => exact absurd rfl h
  | _ :: _ :: _ => simp

/-- Recovery takes a token, unless it stands at the end or, in a block, before the
closing brace. -/
theorem length_recover_lt (inBlock : Bool) {ts : Tokens} (hne : ts ≠ [])
    (h : inBlock = false ∨ ts.current.kind ≠ .rbrace) :
    (ts.recover inBlock).length < ts.length := by
  cases ts with
  | nil => exact absurd rfl hne
  | cons t ts =>
    have hle := (recover_suffix inBlock ts).length_le
    rw [current_cons] at h
    unfold recover
    split
    · next hb => simp_all
    · split <;> (try split) <;> simp only [List.length_cons] <;> omega

end Tokens

/-! ### Rules -/

namespace Rule

variable {expr : ExprReader} {stmt : Step Stmt}

theorem settles_letBinding (h : ∀ power, (expr power).Settles) : (letBinding expr).Settles :=
  settles_bind settles_current fun _ => settles_bind (settles_expect _) fun _ =>
    settles_bind (settles_expect _) fun _ => settles_bind settles_advance fun _ =>
      settles_bind (h _) fun _ => settles_bind settles_skipSemicolon fun _ => settles_pure _

theorem settles_returnValue (h : ∀ power, (expr power).Settles) : (returnValue expr).Settles :=
  settles_bind settles_advance fun _ => settles_bind (h _) fun _ =>
    settles_bind settles_skipSemicolon fun _ => settles_pure _

theorem settles_expressionStmt (h : ∀ power, (expr power).Settles) :
    (expressionStmt expr).Settles :=
  settles_bind settles_current fun _ => settles_bind (h _) fun _ =>
    settles_bind settles_skipSemicolon fun _ => settles_pure _

theorem settles_identifier : (identifier : Step Expr).Settles :=
  settles_bind settles_current fun _ => settles_pure _

theorem settles_integer : (integer : Step Expr).Settles :=
  settles_bind settles_current fun token => by
    split
    · exact settles_pure _
    · exact settles_reject _

theorem settles_boolean : (boolean : Step Expr).Settles :=
  settles_bind settles_current fun _ => settles_pure _

theorem settles_prefixOp (h : ∀ power, (expr power).Settles) : (prefixOp expr).Settles :=
  settles_bind settles_advance fun _ => settles_bind (h _) fun _ => settles_pure _

theorem settles_infixOp (h : ∀ power, (expr power).Settles) (left : Expr) (power : BindingPower) :
    (infixOp expr left power).Settles :=
  settles_bind settles_advance fun _ => settles_bind (h _) fun _ => settles_pure _

theorem settles_grouping (h : ∀ power, (expr power).Settles) : (grouping expr).Settles :=
  settles_bind settles_advance fun _ => settles_bind (h _) fun _ =>
    settles_bind (settles_expect _) fun _ => settles_pure _

theorem leaves_blockStatements (h : stmt.Settles) (rounds : Nat) :
    ∀ ts : Tokens, ts.length < rounds → (blockStatements stmt rounds ts).Leaves ts := by
  induction rounds with
  | zero => intro ts hlt; omega
  | succ rounds ih =>
    intro ts hlt
    refine leaves_bind (settles_current ts) ?_
    rintro token _ _ ⟨⟩
    split
    · exact settles_pure _ ts
    · next hbrace =>
      split
      · exact settles_reject _ ts
      · next heof =>
        refine leaves_bind (settles_attempt h ts) ?_
        intro result rest log (hattempt : stmt.attempt ts = .ok result rest log)
        have hne := Tokens.ne_nil_of_current_kind heof
        have hpos := List.length_pos_iff.2 hne
        have hrest : rest <:+ ts := by
          have := settles_attempt h ts
          rwa [hattempt] at this
        have hle := hrest.length_le
        cases result with
        | ok statement =>
          -- the last token of the statement is taken after it
          refine leaves_bind (settles_advance rest) ?_
          rintro _ _ _ ⟨⟩
          refine leaves_bind (ih _ ?_) fun _ _ _ _ => settles_pure _ _
          rw [List.length_tail]
          omega
        | error diagnostic =>
          dsimp only
          split
          · exact settles_fail _ rest
          · refine leaves_bind (settles_record _ rest) ?_
            rintro _ _ _ ⟨⟩
            refine leaves_bind (settles_synchronize _ rest) ?_
            rintro _ _ _ ⟨⟩
            refine ih _ ?_
            have hrec := (Tokens.recover_suffix true rest).length_le
            -- a statement that took nothing failed at its first token, which recovery takes
            by_cases hlen : rest.length = ts.length
            · rw [hrest.eq_of_length hlen]
              have := Tokens.length_recover_lt true hne (.inr hbrace)
              omega
            · omega

theorem settles_block (h : stmt.Settles) : (block stmt).Settles :=
  settles_bind settles_advance fun _ =>
    settles_bind (settles_bounded (leaves_blockStatements h)) fun _ => settles_pure _

theorem settles_alternative (h : ∀ power, (expr power).Settles) : (alternative expr).Settles :=
  settles_bind settles_peek fun _ => by
    split
    · exact settles_bind settles_advance fun _ => settles_bind settles_advance fun _ =>
        settles_bind (h _) fun _ => settles_pure _
    · exact settles_pure _

theorem settles_conditional (h : ∀ power, (expr power).Settles) : (conditional expr).Settles :=
  settles_bind settles_advance fun _ => settles_bind (h _) fun _ =>
    settles_bind settles_advance fun _ => settles_bind (h _) fun _ =>
      settles_bind (settles_alternative h) fun _ => settles_pure _

theorem leaves_parameterNames (rounds : Nat) :
    ∀ ts : Tokens, ts.length < rounds → ((parameterNames rounds : Step _) ts).Leaves ts := by
  induction rounds with
  | zero => intro ts hlt; omega
  | succ rounds ih =>
    intro ts hlt
    refine leaves_bind (settles_expect _ ts) ?_
    intro name rest log (hexpect : Step.expect .ident ts = .ok name rest log)
    have hrest : rest <:+ ts := by
      have := settles_expect .ident ts
      rwa [hexpect] at this
    have hle := hrest.length_le
    refine leaves_bind (settles_peek rest) ?_
    rintro ahead _ _ ⟨⟩
    split
    · next hcomma =>
      have := Tokens.length_of_peek_kind (show rest.peek.kind ≠ .eof by rw [hcomma]; decide)
      refine leaves_bind (settles_advance rest) ?_
      rintro _ _ _ ⟨⟩
      refine leaves_bind (ih _ ?_) fun _ _ _ _ => settles_pure _ _
      rw [List.length_tail]
      omega
    · exact settles_pure _ rest

theorem settles_parameters : (parameters : Step (List Identifier)).Settles :=
  settles_bind settles_peek fun _ => by
    split
    · exact settles_bind settles_advance fun _ => settles_pure _
    · exact settles_bind (settles_bounded leaves_parameterNames) fun _ =>
        settles_bind (settles_expect _) fun _ => settles_pure _

theorem settles_function (h : ∀ power, (expr power).Settles) : (function expr).Settles :=
  settles_bind settles_current fun _ => settles_bind (settles_expect _) fun _ =>
    settles_bind settles_parameters fun _ => settles_bind settles_advance fun _ =>
      settles_bind (h _) fun _ => settles_pure _

theorem leaves_argumentValues (h : ∀ power, (expr power).Settles) (rounds : Nat) :
    ∀ ts : Tokens, ts.length < rounds → (argumentValues expr rounds ts).Leaves ts := by
  induction rounds with
  | zero => intro ts hlt; omega
  | succ rounds ih =>
    intro ts hlt
    refine leaves_bind (settles_advance ts) ?_
    rintro _ _ _ ⟨⟩
    have htail : ts.tail.length ≤ ts.length := (List.tail_suffix ts).length_le
    refine leaves_bind (h _ ts.tail) ?_
    intro value rest log hvalue
    have hrest : rest <:+ ts.tail := by
      have := h .lowest ts.tail
      rwa [hvalue] at this
    have hle := hrest.length_le
    refine leaves_bind (settles_peek rest) ?_
    rintro ahead _ _ ⟨⟩
    split
    · next hcomma =>
      have := Tokens.length_of_peek_kind (show rest.peek.kind ≠ .eof by rw [hcomma]; decide)
      refine leaves_bind (settles_advance rest) ?_
      rintro _ _ _ ⟨⟩
      refine leaves_bind (ih _ ?_) fun _ _ _ _ => settles_pure _ _
      rw [List.length_tail]
      omega
    · exact settles_pure _ rest

theorem settles_arguments (h : ∀ power, (expr power).Settles) : (arguments expr).Settles :=
  settles_bind settles_peek fun _ => by
    split
    · exact settles_bind settles_advance fun _ => settles_pure _
    · exact settles_bind (settles_bounded (leaves_argumentValues h)) fun _ =>
        settles_bind (settles_expect _) fun _ => settles_pure _

theorem settles_call (h : ∀ power, (expr power).Settles) (callee : Expr) :
    (call expr callee).Settles :=
  settles_bind settles_current fun _ => settles_bind (settles_arguments h) fun _ =>
    settles_pure _

end Rule

theorem PrefixRule.settles_read {expr : ExprReader} {stmt : Step Stmt}
    (h : ∀ power, (expr power).Settles) (hs : stmt.Settles) (rule : PrefixRule) :
    (rule.read expr stmt).Settles := by
  cases rule with
  | identifier => exact Rule.settles_identifier
  | integer => exact Rule.settles_integer
  | boolean => exact Rule.settles_boolean
  | prefixOp => exact Rule.settles_prefixOp h
  | grouping => exact Rule.settles_grouping h
  | block => exact Rule.settles_block hs
  | conditional => exact Rule.settles_conditional h
  | function => exact Rule.settles_function h

theorem InfixRule.settles_read {expr : ExprReader} (h : ∀ power, (expr power).Settles)
    (left : Expr) (power : BindingPower) (rule : InfixRule) :
    (rule.read expr left power).Settles := by
  cases rule with
  | infixOp => exact Rule.settles_infixOp h left power
  | call => exact Rule.settles_call h left

theorem StatementRule.settles_read {expr : ExprReader} (h : ∀ power, (expr power).Settles)
    {rule : StatementRule} (hrule : rule ≠ .lookup) : (rule.read expr).Settles := by
  cases rule with
  | lookup => exact absurd rfl hrule
  | letBinding => exact Rule.settles_letBinding h
  | returnValue => exact Rule.settles_returnValue h
  | expression => exact Rule.settles_expressionStmt h

/-! ### Grammars -/

namespace Grammar

/-- The grammar does not continue expressions past the end of the source, and no
statement rule only looks itself up again. -/
structure WellFounded (g : Grammar) : Prop where
  /-- No expression is continued at the end of the source. -/
  continuation_eof : g.continuation .eof = none
  /-- Every statement rule reads something. -/
  statementRule_ne_lookup : ∀ kind, g.statementRule kind ≠ some .lookup

theorem wellFounded_standard : standard.WellFounded where
  continuation_eof := rfl
  statementRule_ne_lookup kind := by cases kind <;> decide

variable {g : Grammar} {expr : ExprReader}

theorem WellFounded.continuesAt?_eof (hg : g.WellFounded) {power : BindingPower} {ahead : Token}
    {next : Continuation} (h : g.continuesAt? power ahead = some next) : ahead.kind ≠ .eof := by
  intro heof
  unfold continuesAt? at h
  split at h
  · rw [heof, hg.continuation_eof] at h
    cases h
  · cases h

theorem leaves_operators (hg : g.WellFounded) (h : ∀ power, (expr power).Settles)
    (power : BindingPower) (rounds : Nat) :
    ∀ (left : Expr) (ts : Tokens), ts.length < rounds →
      (g.operators expr power rounds left ts).Leaves ts := by
  induction rounds with
  | zero => intro left ts hlt; omega
  | succ rounds ih =>
    intro left ts hlt
    refine leaves_bind (settles_peek ts) ?_
    rintro ahead _ _ ⟨⟩
    cases hnext : g.continuesAt? power ts.peek with
    | none => exact settles_pure _ ts
    | some next =>
      -- the token ahead is not the end, so there are two tokens to move over
      have hlen := Tokens.length_of_peek_kind (hg.continuesAt?_eof hnext)
      refine leaves_bind (settles_advance ts) ?_
      rintro _ _ _ ⟨⟩
      have hread := next.rule.settles_read h left next.power
      refine leaves_bind (hread ts.tail) ?_
      intro value rest log hvalue
      have hrest : rest <:+ ts.tail := by
        have := hread ts.tail
        rwa [hvalue] at this
      have hle := hrest.length_le
      refine ih _ _ ?_
      rw [List.length_tail] at hle
      omega

theorem settles_statementWith (hg : g.WellFounded) (h : ∀ power, (expr power).Settles) :
    (g.statementWith expr).Settles :=
  settles_bind settles_current fun token => by
    refine StatementRule.settles_read h ?_
    cases hrule : g.statementRule token.kind with
    | none => decide
    | some rule =>
      rintro rfl
      exact hg.statementRule_ne_lookup _ hrule

theorem settles_expressionWith (hg : g.WellFounded) (h : ∀ power, (expr power).Settles)
    (power : BindingPower) : (g.expressionWith expr power).Settles :=
  settles_bind settles_current fun token => by
    split
    · exact settles_reject _
    · next rule _ =>
      exact settles_bind (rule.settles_read h (settles_statementWith hg h)) fun left =>
        settles_bounded fun rounds ts => leaves_operators hg h power rounds left ts

/-- Reading an expression settles. -/
theorem settles_expression (hg : g.WellFounded) (room : Nat) :
    ∀ power, (g.expression room power).Settles := by
  induction room with
  | zero => intro power; exact settles_reject _
  | succ room ih => intro power; exact settles_expressionWith hg ih power

/-- Reading a statement settles. -/
theorem settles_statement (hg : g.WellFounded) (room : Nat) : (g.statement room).Settles :=
  settles_statementWith hg (settles_expression hg room)

theorem leaves_programStatements {stmt : Step Stmt} (h : stmt.Settles) (rounds : Nat) :
    ∀ ts : Tokens, ts.length < rounds → (programStatements stmt rounds ts).Leaves ts := by
  induction rounds with
  | zero => intro ts hlt; omega
  | succ rounds ih =>
    intro ts hlt
    refine leaves_bind (settles_current ts) ?_
    rintro token _ _ ⟨⟩
    split
    · exact settles_pure _ ts
    · next heof =>
      refine leaves_bind (settles_attempt h ts) ?_
      intro result rest log (hattempt : stmt.attempt ts = .ok result rest log)
      have hne := Tokens.ne_nil_of_current_kind heof
      have hpos := List.length_pos_iff.2 hne
      have hrest : rest <:+ ts := by
        have := settles_attempt h ts
        rwa [hattempt] at this
      have hle := hrest.length_le
      cases result with
      | ok statement =>
        refine leaves_bind (settles_advance rest) ?_
        rintro _ _ _ ⟨⟩
        refine leaves_bind (ih _ ?_) fun _ _ _ _ => settles_pure _ _
        rw [List.length_tail]
        omega
      | error diagnostic =>
        refine leaves_bind (settles_record _ rest) ?_
        rintro _ _ _ ⟨⟩
        refine leaves_bind (settles_synchronize _ rest) ?_
        rintro _ _ _ ⟨⟩
        refine ih _ ?_
        have hrec := (Tokens.recover_suffix false rest).length_le
        -- at the end nothing is left to take, and before it recovery takes a token
        by_cases hlen : rest = []
        · rw [hlen, Tokens.recover_nil, List.length_nil]
          omega
        · have := Tokens.length_recover_lt false hlen (.inl rfl)
          omega

/-- Reading a program settles. -/
theorem settles_program (hg : g.WellFounded) (room : Nat) : (g.program room).Settles :=
  settles_bind (settles_bounded (leaves_programStatements (settles_statement hg room))) fun _ =>
    settles_pure _

theorem unfailing_programStatements (stmt : Step Stmt) (rounds : Nat) :
    (programStatements stmt rounds).Unfailing := by
  induction rounds with
  | zero => exact unfailing_forever
  | succ rounds ih =>
    refine unfailing_bind unfailing_current fun token => ?_
    split
    · exact unfailing_pure _
    · refine unfailing_bind (unfailing_attempt stmt) fun result => ?_
      cases result with
      | ok statement =>
        exact unfailing_bind unfailing_advance fun _ => unfailing_bind ih fun _ =>
          unfailing_pure _
      | error diagnostic =>
        exact unfailing_bind (unfailing_record _) fun _ =>
          unfailing_bind (unfailing_synchronize _) fun _ => ih

/-- Reading a program does not fail: what cannot be read is recorded. -/
theorem unfailing_program (g : Grammar) (room : Nat) : (g.program room).Unfailing :=
  unfailing_bind (fun ts => unfailing_programStatements _ (ts.length + 1) ts) fun _ =>
    unfailing_pure _

end Grammar

end Script
