import Script.Proofs.Border

/-!
# Reading up to a border

Every rule comes to the same on a text that closes its blocks, whatever follows the border
behind it.  The rules are given two ways to read expressions that agree on such texts, and
reading by the rules agrees again: so it does in every room.  The statements of a block are
read one level further in.

## Main definitions

* `ExprReader.Bordered` — two ways to read expressions agree up to a border.

## Main results

* `Rule.bordered_blockRound`, `Rule.bordered_block` — a block is read inside of the text.
* `Grammar.bordered_statement` — a statement is read alike up to the border, whatever stands
  behind it and however much room there is.
-/

namespace Script

/-- Two ways to read expressions come to the same on every text. -/
def ExprReader.Bordered (us₁ us₂ : Tokens) (loose : Prop) (expr₁ expr₂ : ExprReader) : Prop :=
  ∀ level power ts, Tokens.Closed level ts →
    Reply.Reaches us₁ us₂ loose level (expr₁ power (ts ++ us₁)) (expr₂ power (ts ++ us₂))

/-- Behind the round that ends a block, the block is closed; behind every other one it is still
open. -/
def Round.LeftIn (level : Nat) : Round → Tokens → Prop
  | .finished => Tokens.Reached level
  | _ => Tokens.Closed (level + 1)

section

open Tokens Reply Step

variable {α β : Type} {us₁ us₂ ts : Tokens} {loose : Prop} {level : Nat}
  {expr₁ expr₂ : ExprReader} {stmt₁ stmt₂ : Step Stmt}

namespace Rule

/-! ### Single tokens and operators -/

theorem bordered_identifier (hts : Reached level ts) :
    Reaches us₁ us₂ loose level ((identifier : Step Expr) (ts ++ us₁))
      ((identifier : Step Expr) (ts ++ us₂)) :=
  bordered_current hts.ne_nil (.pure hts)

theorem bordered_boolean (hts : Reached level ts) :
    Reaches us₁ us₂ loose level ((boolean : Step Expr) (ts ++ us₁))
      ((boolean : Step Expr) (ts ++ us₂)) :=
  bordered_current hts.ne_nil (.pure hts)

theorem bordered_integer (hts : Reached level ts) :
    Reaches us₁ us₂ loose level ((integer : Step Expr) (ts ++ us₁))
      ((integer : Step Expr) (ts ++ us₂)) := by
  refine bordered_current hts.ne_nil ?_
  cases Text.integer? ts.current.literal with
  | none => exact bordered_reject hts.closed (fun _ => rfl) fun _ _ h => by cases h
  | some value => exact .pure hts

/-- An expression that starts behind the current token, and what follows it. -/
theorem bordered_advance_expr (hexpr : expr₁.Bordered us₁ us₂ loose expr₂)
    (hts : Reached level ts) (power : BindingPower) {second₁ second₂ : Token → Expr → Step β}
    {post : β → Tokens → Prop}
    (hsecond : ∀ e rest, Reached level rest → Bordered us₁ us₂ loose level post
      (second₁ ts.current e (rest ++ us₁)) (second₂ ts.current e (rest ++ us₂))) :
    Bordered us₁ us₂ loose level post
      ((advance >>= fun token => expr₁ power >>= second₁ token) (ts ++ us₁))
      ((advance >>= fun token => expr₂ power >>= second₂ token) (ts ++ us₂)) := by
  refine bordered_advance hts.ne_nil ?_
  exact (hexpr level power ts.tail hts.tail).bind hsecond

theorem bordered_prefixOp (hexpr : expr₁.Bordered us₁ us₂ loose expr₂) (hts : Reached level ts) :
    Reaches us₁ us₂ loose level (prefixOp expr₁ (ts ++ us₁)) (prefixOp expr₂ (ts ++ us₂)) := by
  refine bordered_advance_expr hexpr hts .unary ?_
  intro right rest hrest
  exact .pure hrest

theorem bordered_infixOp (hexpr : expr₁.Bordered us₁ us₂ loose expr₂) (hts : Reached level ts)
    (left : Expr) (power : BindingPower) :
    Reaches us₁ us₂ loose level (infixOp expr₁ left power (ts ++ us₁))
      (infixOp expr₂ left power (ts ++ us₂)) := by
  refine bordered_advance_expr hexpr hts power ?_
  intro right rest hrest
  exact .pure hrest

/-- What has been read is closed by a parenthesis, which is no delimiter. -/
theorem bordered_close (hborder : Border us₁ us₂) {read₁ read₂ : Step α} {in₁ in₂ : Tokens}
    (hread : Reaches us₁ us₂ loose level (read₁ in₁) (read₂ in₂)) :
    Reaches us₁ us₂ loose level
      ((read₁ >>= fun value => do
        let _ ← Step.expect .rparen
        pure value) in₁)
      ((read₂ >>= fun value => do
        let _ ← Step.expect .rparen
        pure value) in₂) := by
  refine hread.bind ?_
  intro value vs hvs
  refine (bordered_expect hborder hvs (by decide)).bind ?_
  intro close rest hrest
  exact .pure hrest

theorem bordered_grouping (hborder : Border us₁ us₂)
    (hexpr : expr₁.Bordered us₁ us₂ loose expr₂) (hts : Reached level ts) :
    Reaches us₁ us₂ loose level (grouping expr₁ (ts ++ us₁)) (grouping expr₂ (ts ++ us₂)) := by
  refine bordered_advance hts.ne_nil ?_
  exact bordered_close hborder (hexpr level .lowest ts.tail hts.tail)

/-! ### Choices -/

theorem bordered_alternative (hborder : Border us₁ us₂)
    (hexpr : expr₁.Bordered us₁ us₂ loose expr₂) (hts : Reached level ts) :
    Reaches us₁ us₂ loose level (alternative expr₁ (ts ++ us₁))
      (alternative expr₂ (ts ++ us₂)) := by
  refine bordered_peek hborder hts (by decide) ?_ (.pure hts)
  intro htail
  refine bordered_advance hts.ne_nil ?_
  refine bordered_advance_expr hexpr htail .lowest ?_
  intro value rest hrest
  exact .pure hrest

theorem bordered_conditional (hborder : Border us₁ us₂)
    (hexpr : expr₁.Bordered us₁ us₂ loose expr₂) (hts : Reached level ts) :
    Reaches us₁ us₂ loose level (conditional expr₁ (ts ++ us₁))
      (conditional expr₂ (ts ++ us₂)) := by
  refine bordered_advance_expr hexpr hts .lowest ?_
  intro condition vs hvs
  refine bordered_advance_expr hexpr hvs .lowest ?_
  intro consequence ws hws
  refine (bordered_alternative hborder hexpr hws).bind ?_
  intro otherwise rest hrest
  exact .pure hrest

/-! ### Functions and calls -/

theorem bordered_andMore (hborder : Border us₁ us₂) (value : α) (hts : Reached level ts) :
    Reaches us₁ us₂ loose level (andMore value (ts ++ us₁)) (andMore value (ts ++ us₂)) := by
  refine bordered_peek hborder hts (by decide) ?_ (.pure hts)
  intro htail
  refine bordered_advance hts.ne_nil ?_
  exact .pure htail

/-- A list in parentheses is empty where the closing one stands ahead, and else it is read
up to there. -/
theorem bordered_list (hborder : Border us₁ us₂) {read₁ read₂ : Step (List α)}
    (hts : Reached level ts)
    (hread : Reaches us₁ us₂ loose level (read₁ (ts ++ us₁)) (read₂ (ts ++ us₂))) :
    Reaches us₁ us₂ loose level
      ((do
        let ahead ← Step.peek
        if ahead.kind = .rparen then do
          let _ ← Step.advance
          pure []
        else do
          let values ← read₁
          let _ ← Step.expect .rparen
          pure values : Step (List α)) (ts ++ us₁))
      ((do
        let ahead ← Step.peek
        if ahead.kind = .rparen then do
          let _ ← Step.advance
          pure []
        else do
          let values ← read₂
          let _ ← Step.expect .rparen
          pure values : Step (List α)) (ts ++ us₂)) := by
  refine bordered_peek hborder hts (by decide) ?_ (bordered_close hborder hread)
  intro htail
  refine bordered_advance hts.ne_nil ?_
  exact .pure htail

theorem bordered_parameters (hborder : Border us₁ us₂) (hts : Reached level ts) :
    Reaches us₁ us₂ loose level ((parameters : Step _) (ts ++ us₁))
      ((parameters : Step _) (ts ++ us₂)) := by
  have hprogress : nameRound.Progresses fun value => value.2 = true :=
    ⟨settles_nameRound, fun hround _ => progresses_nameRound.length_lt hround trivial⟩
  refine bordered_list hborder hts ?_
  rw [parameterNames_eq_collectWhile]
  refine bordered_collectWhile hprogress ?_ hts (length_lt_length_append us₁)
    (length_lt_length_append us₂)
  intro vs hvs
  refine (bordered_expect hborder hvs (by decide)).bind ?_
  intro name rest hrest
  exact bordered_andMore hborder _ hrest

theorem bordered_function (hborder : Border us₁ us₂)
    (hexpr : expr₁.Bordered us₁ us₂ loose expr₂) (hts : Reached level ts) :
    Reaches us₁ us₂ loose level (function expr₁ (ts ++ us₁)) (function expr₂ (ts ++ us₂)) := by
  refine bordered_current hts.ne_nil ?_
  refine (bordered_expect hborder hts (by decide)).bind ?_
  intro opening vs hvs
  refine (bordered_parameters hborder hvs).bind ?_
  intro names ws hws
  refine bordered_advance_expr hexpr hws .lowest ?_
  intro body rest hrest
  exact .pure hrest

theorem bordered_call (hborder : Border us₁ us₂) (hexpr : expr₁.Bordered us₁ us₂ loose expr₂)
    (hsettles : ∀ power, (expr₂ power).Settles) (hts : Reached level ts) (callee : Expr) :
    Reaches us₁ us₂ loose level (call expr₁ callee (ts ++ us₁))
      (call expr₂ callee (ts ++ us₂)) := by
  have harguments : Reaches us₁ us₂ loose level (arguments expr₁ (ts ++ us₁))
      (arguments expr₂ (ts ++ us₂)) := by
    refine bordered_list hborder hts ?_
    rw [argumentValues_eq_collectWhile, argumentValues_eq_collectWhile]
    refine bordered_collectWhile (progresses_valueRound hsettles) ?_ hts
      (length_lt_length_append us₁) (length_lt_length_append us₂)
    intro vs hvs
    refine bordered_advance_expr hexpr hvs .lowest ?_
    intro value rest hrest
    exact bordered_andMore hborder value hrest
  refine bordered_current hts.ne_nil ?_
  refine harguments.bind ?_
  intro values rest hrest
  exact .pure hrest

/-! ### Blocks -/

/-- Inside of a block, a round is the same in both: the brace that closes the block is one of
the text, so that neither a statement nor recovery gets to the border. -/
theorem bordered_blockRound
    (hstmt : ∀ ts, Closed (level + 1) ts →
      Bordered us₁ us₂ loose (level + 1) (fun _ => Over us₁ (level + 1)) (stmt₁ (ts ++ us₁))
        (stmt₂ (ts ++ us₂)))
    (hts : Closed (level + 1) ts) :
    Bordered us₁ us₂ loose level (Round.LeftIn level) (blockRound stmt₁ (ts ++ us₁))
      (blockRound stmt₂ (ts ++ us₂)) := by
  have hcurrent (us : Tokens) : Tokens.current (ts ++ us) = ts.current :=
    current_append_of_ne_nil hts.ne_nil us
  by_cases hbrace : ts.current.kind = .rbrace
  · rw [blockRound_of_rbrace (by rwa [hcurrent]), blockRound_of_rbrace (by rwa [hcurrent])]
    refine .ok ⟨hts.ne_nil, hts.of_succ, ?_⟩
    obtain ⟨t, ts, rfl⟩ := List.exists_cons_of_ne_nil hts.ne_nil
    exact (closed_rbrace hbrace).1 hts
  · by_cases heof : ts.current.kind = .eof
    · rw [blockRound_of_eof (by rwa [hcurrent]), blockRound_of_eof (by rwa [hcurrent]), hcurrent,
        hcurrent]
      exact .fail hts.of_succ ⟨fun _ => rfl, fun hnil => absurd hnil hts.ne_nil⟩
    · have hbrace' (us : Tokens) : (Tokens.current (ts ++ us)).kind ≠ .rbrace := by
        rwa [hcurrent]
      have heof' (us : Tokens) : (Tokens.current (ts ++ us)).kind ≠ .eof := by rwa [hcurrent]
      have hreplies := hstmt ts hts
      generalize hfirst : stmt₁ (ts ++ us₁) = reply₁ at hreplies
      generalize hsecond : stmt₂ (ts ++ us₂) = reply₂ at hreplies
      cases hreplies with
      | ok hrest =>
        -- a statement of the block does not reach over the border, which is outside of the block
        have hreached := hrest.resolve_right fun hover => Nat.succ_ne_zero level hover.2.1
        rw [blockRound_of_ok (hbrace' _) (heof' _) hfirst,
          blockRound_of_ok (hbrace' _) (heof' _) hsecond, tail_append hreached.ne_nil,
          tail_append hreached.ne_nil]
        exact .ok hreached.tail
      | @fail d₁ d₂ rest log hrest hdiagnostic =>
        -- nor is the token ahead that a diagnostic tells of behind the border
        obtain rfl : d₁ = d₂ := hdiagnostic.eq (.inl (Nat.succ_ne_zero level))
        cases hnesting : d₁.fault.isNesting with
        | true =>
          rw [blockRound_of_nesting (hbrace' _) (heof' _) hfirst hnesting,
            blockRound_of_nesting (hbrace' _) (heof' _) hsecond hnesting]
          exact .fail hrest.of_succ ⟨fun _ => rfl, fun hnil => absurd hnil hrest.ne_nil⟩
        | false =>
          rw [blockRound_of_fail (hbrace' _) (heof' _) hfirst hnesting,
            blockRound_of_fail (hbrace' _) (heof' _) hsecond hnesting,
            (hrest.recover_append us₁).1, (hrest.recover_append us₂).1]
          exact .ok (hrest.recover_append us₁).2
      | tooDeep hloose hnesting =>
        rw [blockRound_of_nesting (hbrace' _) (heof' _) hfirst hnesting]
        exact .tooDeep hloose hnesting

/-- So are all of them together, and the block ends in the text. -/
theorem bordered_blockStatements
    (hstmt : ∀ ts, Closed (level + 1) ts →
      Bordered us₁ us₂ loose (level + 1) (fun _ => Over us₁ (level + 1)) (stmt₁ (ts ++ us₁))
        (stmt₂ (ts ++ us₂)))
    (hsettles : stmt₂.Settles) {n₁ n₂ : Nat} (hts : Closed (level + 1) ts) (h₁ : ts.length < n₁)
    (h₂ : ts.length < n₂) :
    Reaches us₁ us₂ loose level (collect (blockRound stmt₁) n₁ (ts ++ us₁))
      (collect (blockRound stmt₂) n₂ (ts ++ us₂)) := by
  have hprogress := progresses_blockRound hsettles
  induction n₁ generalizing n₂ ts with
  | zero => omega
  | succ n₁ ih =>
    cases n₂ with
    | zero => omega
    | succ n₂ =>
      refine (bordered_blockRound hstmt hts).bind_of_eq fun value rest log heq hrest => ?_
      cases value with
      | finished => exact .pure hrest
      | read s =>
        have hlt := length_lt_of_append hprogress heq (Round.goesOn_read s)
        exact (ih hrest (by omega) (by omega)).bind fun _ _ hrest => .pure hrest
      | skipped =>
        have hlt := length_lt_of_append hprogress heq Round.goesOn_skipped
        exact ih hrest (by omega) (by omega)

theorem bordered_block
    (hstmt : ∀ ts, Closed (level + 1) ts →
      Bordered us₁ us₂ loose (level + 1) (fun _ => Over us₁ (level + 1)) (stmt₁ (ts ++ us₁))
        (stmt₂ (ts ++ us₂)))
    (hsettles : stmt₂.Settles) (hts : Closed level ts) (hne : ts ≠ [])
    (hbrace : ts.current.kind = .lbrace) :
    Reaches us₁ us₂ loose level (block stmt₁ (ts ++ us₁)) (block stmt₂ (ts ++ us₂)) := by
  have htail : Closed (level + 1) ts.tail := by
    obtain ⟨t, ts, rfl⟩ := List.exists_cons_of_ne_nil hne
    exact (closed_lbrace hbrace).1 hts
  refine bordered_advance hne ?_
  rw [blockStatements_eq_collect, blockStatements_eq_collect]
  refine (bordered_blockStatements hstmt hsettles htail (length_lt_length_append us₁)
    (length_lt_length_append us₂)).bind ?_
  intro statements rest hrest
  exact .pure hrest

end Rule

/-! ### Reading by the grammar -/

namespace Grammar

/-- No entry sends the reader back to the table. -/
theorem standard_lookup (kind : Kind) :
    (standard.statementRule kind).getD .expression ≠ .lookup := by
  cases kind <;> decide

/-- An expression that goes on does so in front of the border. -/
theorem bordered_operatorRound (hborder : Border us₁ us₂)
    (hexpr : expr₁.Bordered us₁ us₂ loose expr₂) (hsettles : ∀ power, (expr₂ power).Settles)
    (hts : Reached level ts) (power : BindingPower) (left : Expr) :
    Reaches us₁ us₂ loose level (standard.operatorRound expr₁ power left (ts ++ us₁))
      (standard.operatorRound expr₂ power left (ts ++ us₂)) := by
  rw [operatorRound, operatorRound, peek_bind, peek_bind]
  by_cases htail : ts.tail = []
  · have hstop {us : Tokens} (hus : us.current.kind ∈ Kind.borders) :
        standard.continuesAt? power us.current = none :=
      continuesAt?_of_none (Kind.standard_of_mem_borders hus).2
    rw [peek_append_last hts.ne_nil htail, peek_append_last hts.ne_nil htail,
      hstop hborder.first, hstop hborder.second]
    exact .pure hts
  · rw [peek_append htail, peek_append htail]
    cases hnext : standard.continuesAt? power ts.peek with
    | none => exact .pure hts
    | some next =>
      have hrule := continuation_of_continuesAt hnext
      have hreached : Reached level ts.tail := by
        refine hts.tail_reached htail fun hbrace => ?_
        rw [hbrace] at hrule
        cases hrule
      refine bordered_advance hts.ne_nil ?_
      obtain ⟨q, rule⟩ := next
      cases rule with
      | infixOp =>
        refine (Rule.bordered_infixOp hexpr hreached left q).bind ?_
        intro e rest hrest
        exact .pure hrest
      | call =>
        refine (Rule.bordered_call hborder hexpr hsettles hreached left).bind ?_
        intro e rest hrest
        exact .pure hrest

theorem bordered_operators (hborder : Border us₁ us₂)
    (hexpr : expr₁.Bordered us₁ us₂ loose expr₂) (hsettles : ∀ power, (expr₂ power).Settles)
    (hts : Reached level ts) (power : BindingPower) (left : Expr) :
    Reaches us₁ us₂ loose level
      (bounded (fun rounds => standard.operators expr₁ power rounds left) (ts ++ us₁))
      (bounded (fun rounds => standard.operators expr₂ power rounds left) (ts ++ us₂)) := by
  simp only [operators_eq_fold]
  refine bordered_fold (progresses_operatorRound wellFounded_standard hsettles power) ?_ left hts
    (length_lt_length_append us₁) (length_lt_length_append us₂)
  intro left vs hvs
  exact bordered_operatorRound hborder hexpr hsettles hvs power left

/-! ### Statements and expressions -/

/-- A `;` behind the text may be where the statement starts, and fails. -/
theorem bordered_expressionStmt (hborder : Border us₁ us₂)
    (hexpr : expr₁.Bordered us₁ us₂ loose expr₂) (hts : Closed level ts)
    (hstart : ts = [] → us₁.current = us₂.current) :
    Bordered us₁ us₂ loose level (fun _ => Over us₁ level) (Rule.expressionStmt expr₁ (ts ++ us₁))
      (Rule.expressionStmt expr₂ (ts ++ us₂)) := by
  have hcurrent : Tokens.current (ts ++ us₁) = Tokens.current (ts ++ us₂) := by
    by_cases hnil : ts = []
    · subst hnil
      exact hstart rfl
    · rw [current_append_of_ne_nil hnil, current_append_of_ne_nil hnil]
  rw [Rule.expressionStmt, Rule.expressionStmt, current_bind, current_bind, hcurrent]
  refine (hexpr level .lowest ts hts).bind ?_
  intro e rest hrest
  exact bordered_skipSemicolon hborder hrest _

theorem bordered_letBinding (hborder : Border us₁ us₂)
    (hexpr : expr₁.Bordered us₁ us₂ loose expr₂) (hts : Reached level ts) :
    Bordered us₁ us₂ loose level (fun _ => Over us₁ level) (Rule.letBinding expr₁ (ts ++ us₁))
      (Rule.letBinding expr₂ (ts ++ us₂)) := by
  refine bordered_current hts.ne_nil ?_
  refine (bordered_expect hborder hts (by decide)).bind ?_
  intro name vs hvs
  refine (bordered_expect hborder hvs (by decide)).bind ?_
  intro sign ws hws
  refine Rule.bordered_advance_expr hexpr hws .lowest ?_
  intro value rest hrest
  exact bordered_skipSemicolon hborder hrest _

theorem bordered_returnValue (hborder : Border us₁ us₂)
    (hexpr : expr₁.Bordered us₁ us₂ loose expr₂) (hts : Reached level ts) :
    Bordered us₁ us₂ loose level (fun _ => Over us₁ level) (Rule.returnValue expr₁ (ts ++ us₁))
      (Rule.returnValue expr₂ (ts ++ us₂)) := by
  refine Rule.bordered_advance_expr hexpr hts .lowest ?_
  intro value rest hrest
  exact bordered_skipSemicolon hborder hrest _

/-- A statement that starts in the text, or at the `;` behind it, is read alike. -/
theorem bordered_statementWith (hborder : Border us₁ us₂)
    (hexpr : expr₁.Bordered us₁ us₂ loose expr₂) (hts : Closed level ts)
    (hstart : ts = [] → us₁.current = us₂.current ∧ us₁.current.kind = .semicolon) :
    Bordered us₁ us₂ loose level (fun _ => Over us₁ level)
      (standard.statementWith expr₁ (ts ++ us₁)) (standard.statementWith expr₂ (ts ++ us₂)) := by
  by_cases hnil : ts = []
  · subst hnil
    obtain ⟨hsame, hsemicolon⟩ := hstart rfl
    have hrule : standard.statementRule (Tokens.current us₁).kind = none := by
      rw [hsemicolon]
      rfl
    have hread (expr : ExprReader) {us : Tokens} (hus : us.current = us₁.current) :
        standard.statementWith expr us = Rule.expressionStmt expr us := by
      rw [statementWith, current_bind, hus, hrule]
      rfl
    rw [List.nil_append, List.nil_append, hread expr₁ rfl, hread expr₂ hsame.symm]
    exact bordered_expressionStmt hborder hexpr hts fun _ => hsame
  · refine bordered_current hnil ?_
    cases hrule : standard.statementRule ts.current.kind with
    | none => exact bordered_expressionStmt hborder hexpr hts fun h => absurd h hnil
    | some rule =>
      have hts := hts.reached hnil (standard_statement hrule).1
      cases rule with
      | lookup => exact absurd (congrArg (Option.getD · .expression) hrule) (standard_lookup _)
      | letBinding => exact bordered_letBinding hborder hexpr hts
      | returnValue => exact bordered_returnValue hborder hexpr hts
      | expression => exact bordered_expressionStmt hborder hexpr hts.closed fun h => absurd h hnil

/-- An expression that starts with a brace is a block, and no other rule opens or closes one. -/
theorem bordered_prefixRule (hborder : Border us₁ us₂)
    (hexpr : expr₁.Bordered us₁ us₂ loose expr₂) (hsettles : ∀ power, (expr₂ power).Settles)
    (hts : Closed level ts) (hne : ts ≠ []) {rule : PrefixRule}
    (hrule : standard.prefixRule ts.current.kind = some rule) :
    Reaches us₁ us₂ loose level
      (rule.read expr₁ (standard.statementWith expr₁) (ts ++ us₁))
      (rule.read expr₂ (standard.statementWith expr₂) (ts ++ us₂)) := by
  have hreached : Reached level ts := hts.reached hne (standard_first hrule).2.2.1
  cases rule with
  | identifier => exact Rule.bordered_identifier hreached
  | integer => exact Rule.bordered_integer hreached
  | boolean => exact Rule.bordered_boolean hreached
  | prefixOp => exact Rule.bordered_prefixOp hexpr hreached
  | grouping => exact Rule.bordered_grouping hborder hexpr hreached
  | block =>
    have hstmt := settles_statementWith wellFounded_standard hsettles
    refine Rule.bordered_block ?_ hstmt hts hne (standard_block hrule)
    intro vs hvs
    exact bordered_statementWith hborder hexpr hvs fun hnil => absurd hnil hvs.ne_nil
  | conditional => exact Rule.bordered_conditional hborder hexpr hreached
  | function => exact Rule.bordered_function hborder hexpr hreached

theorem bordered_expressionWith (hborder : Border us₁ us₂)
    (hexpr : expr₁.Bordered us₁ us₂ loose expr₂) (hsettles : ∀ power, (expr₂ power).Settles) :
    ExprReader.Bordered us₁ us₂ loose (standard.expressionWith expr₁)
      (standard.expressionWith expr₂) := by
  intro level power ts hts
  by_cases hnil : ts = []
  · -- no expression starts at a border
    subst hnil
    have hnone {us : Tokens} (hus : us.current.kind ∈ Kind.borders) :
        standard.prefixRule (Tokens.current ([] ++ us)).kind = none :=
      (Kind.standard_of_mem_borders hus).1
    rw [expressionWith, expressionWith, current_bind, current_bind, hnone hborder.first,
      hnone hborder.second]
    exact bordered_reject hts (fun hsame => by rw [hsame]) fun _ _ h => by cases h
  · refine bordered_current hnil ?_
    cases hrule : standard.prefixRule ts.current.kind with
    | none => exact bordered_reject hts (fun _ => rfl) fun _ _ h => by cases h
    | some rule =>
      refine (bordered_prefixRule hborder hexpr hsettles hts hnil hrule).bind ?_
      intro left rest hrest
      exact bordered_operators hborder hexpr hsettles hrest power left

/-- With more room on the second side, the first one is nested too deeply or the two agree. -/
theorem bordered_expression (hborder : Border us₁ us₂) {room₁ room₂ : Nat}
    (hroom : room₁ ≤ room₂) (hloose : room₁ < room₂ → loose) :
    ExprReader.Bordered us₁ us₂ loose (standard.expression room₁) (standard.expression room₂) := by
  induction room₁ generalizing room₂ with
  | zero =>
    intro level power ts hts
    cases room₂ with
    | zero => exact bordered_reject hts (fun _ => rfl) fun _ _ h => by cases h
    | succ room₂ => exact .tooDeep (hloose (Nat.succ_pos room₂)) rfl
  | succ room₁ ih =>
    cases room₂ with
    | zero => omega
    | succ room₂ =>
      have hsmaller : ExprReader.Bordered us₁ us₂ loose (standard.expression room₁)
          (standard.expression room₂) :=
        ih (Nat.le_of_succ_le_succ hroom) fun h => hloose (Nat.succ_lt_succ h)
      exact bordered_expressionWith hborder hsmaller
        (settles_expression wellFounded_standard room₂)

/-- **A statement is read up to a border**, whatever stands behind it; only less room may end
it earlier. -/
theorem bordered_statement (hborder : Border us₁ us₂) {room₁ room₂ : Nat}
    (hroom : room₁ ≤ room₂) (hloose : room₁ < room₂ → loose) (hts : Closed level ts)
    (hstart : ts = [] → us₁.current = us₂.current ∧ us₁.current.kind = .semicolon) :
    Bordered us₁ us₂ loose level (fun _ => Over us₁ level)
      (standard.statement room₁ (ts ++ us₁)) (standard.statement room₂ (ts ++ us₂)) :=
  bordered_statementWith hborder (bordered_expression hborder hroom hloose) hts hstart

end Grammar

end

end Script
