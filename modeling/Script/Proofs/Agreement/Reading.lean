import Script.Proofs.Agreement
import Script.Proofs.Boundary
import Script.Tree.Equality

/-!
# What is read agrees with its tokens

Every rule reads a tree that agrees with its tokens, if it is entered at a token of the kind
that the grammar enters it at, and if the tokens are spelled.  So are the tokens of every
source, and so is what is left when a statement is given up.  Whatever a source is parsed as
therefore agrees with its tokens, and so does the part of it that is left after an error.

## Main definitions

* `Tokens.Spelled` — all tokens are spelled.
* `Reply.Gives` — what has been read has a property, and what is left is spelled.
* `ExprReader.Agrees` — reading expressions gives trees that agree with their tokens.

## Main results

* `Reply.Gives.bind`, `Step.gives_collect`, `Step.gives_collectWhile`, `Step.gives_fold` — one
  step after another, and the repetition of a round.
* `parse_agrees` — every source is parsed as a tree that agrees with its tokens.
-/

namespace Script

/-- All of the tokens are spelled. -/
def Tokens.Spelled (ts : Tokens) : Prop := ∀ t ∈ ts, t.Spelled

theorem Tokens.Spelled.tail {ts : Tokens} (h : ts.Spelled) : Tokens.Spelled ts.tail :=
  fun t ht => h t (List.mem_of_mem_tail ht)

/-- The current token is spelled, if there is one. -/
theorem Tokens.Spelled.current {ts : Tokens} (h : ts.Spelled) (hkind : ts.current.kind ≠ .eof) :
    ts.current.Spelled := by
  cases ts with
  | nil => exact absurd rfl hkind
  | cons t ts => exact h t List.mem_cons_self

/-- The statement that a round has read agrees with its tokens, if there is one. -/
def Round.Agrees (round : Round) : Prop := ∀ s, round = .read s → s.Agrees

theorem Round.agrees_finished : finished.Agrees := nofun

theorem Round.agrees_read {s : Stmt} (h : s.Agrees) : (read s).Agrees := by
  rintro _ ⟨⟩
  exact h

theorem Round.agrees_skipped : skipped.Agrees := nofun

/-- What has been read has the property, and what is left is spelled, whether something has
been read or not. -/
def Reply.Gives {α : Type} (p : α → Prop) : Reply α → Prop
  | ok value rest _ => p value ∧ rest.Spelled
  | fail _ rest _ => rest.Spelled
  | diverges => True

section

open Tokens Reply Step

variable {α β : Type} {ts : Tokens} {p : α → Prop} {q : β → Prop}

/-! ### One step after another -/

namespace Reply

theorem Gives.after {reply : Reply α} (h : reply.Gives p) (log : List Diagnostic) :
    (reply.after log).Gives p := by
  cases reply with
  | ok value rest log' => exact h
  | fail diagnostic rest log' => exact h
  | diverges => exact h

theorem Gives.mono {r : α → Prop} {reply : Reply α} (h : reply.Gives p) (hp : ∀ v, p v → r v) :
    reply.Gives r := by
  cases reply with
  | ok value rest log => exact ⟨hp value h.1, h.2⟩
  | fail diagnostic rest log => exact h
  | diverges => exact h

theorem Gives.bind {first : Step α} {second : α → Step β} (h : (first ts).Gives p)
    (hsecond : ∀ value rest, p value → Tokens.Spelled rest → (second value rest).Gives q) :
    ((first >>= second) ts).Gives q := by
  rw [bind_apply]
  cases hreply : first ts with
  | ok value rest log =>
    rw [hreply] at h
    exact (hsecond value rest h.1 h.2).after log
  | fail diagnostic rest log =>
    rw [hreply] at h
    exact h
  | diverges => trivial

end Reply

namespace Step

theorem gives_pure {value : α} (h : p value) (hts : ts.Spelled) :
    ((pure value : Step α) ts).Gives p :=
  ⟨h, hts⟩

theorem gives_reject (cause : Fault) (hts : ts.Spelled) :
    ((reject cause : Step α) ts).Gives p :=
  hts

/-- A token that is found where it is expected has been read from the source. -/
theorem gives_expect {kind : Kind} (hkind : kind ≠ .eof) (hts : ts.Spelled) :
    (expect kind ts).Gives fun t => t.kind = kind ∧ t.Spelled := by
  rw [expect_apply]
  split
  · next hpeek =>
    have hspelled := hts.tail.current fun heof => hkind (hpeek.symm.trans heof)
    exact ⟨⟨hpeek, hspelled⟩, hts.tail⟩
  · exact hts

theorem gives_skipSemicolon (hts : ts.Spelled) : (skipSemicolon ts).Gives fun _ => True := by
  refine ⟨trivial, ?_⟩
  split
  · exact hts.tail
  · exact hts

theorem gives_synchronize (inBlock : Bool) (hts : ts.Spelled) :
    (synchronize inBlock ts).Gives fun _ => True :=
  ⟨trivial, fun t ht => hts t ((ts.recover_suffix inBlock).subset ht)⟩

theorem gives_record (diagnostic : Diagnostic) (hts : ts.Spelled) :
    (record diagnostic ts).Gives fun _ => True :=
  ⟨trivial, hts⟩

theorem gives_attempt {step : Step α} (h : (step ts).Gives p) :
    (attempt step ts).Gives fun result => ∀ value, result = .ok value → p value := by
  rw [attempt_apply]
  cases hreply : step ts with
  | ok value rest log =>
    rw [hreply] at h
    refine ⟨?_, h.2⟩
    rintro w ⟨⟩
    exact h.1
  | fail diagnostic rest log =>
    rw [hreply] at h
    exact ⟨nofun, h⟩
  | diverges => trivial

/-! ### Repetition -/

/-- A loop over statements gives what its rounds give. -/
theorem gives_collect {round : Step Round}
    (h : ∀ us : Tokens, us.Spelled → (round us).Gives Round.Agrees) (n : Nat) (hts : ts.Spelled) :
    (collect round n ts).Gives fun ss => ∀ s ∈ ss, s.Agrees := by
  induction n generalizing ts with
  | zero => trivial
  | succ n ih =>
    rw [collect]
    refine (h ts hts).bind ?_
    intro value rest hvalue hrest
    cases value with
    | finished => exact gives_pure (List.forall_mem_nil _) hrest
    | read s =>
      refine (ih hrest).bind ?_
      intro ss rest hss hrest
      exact gives_pure (List.forall_mem_cons.2 ⟨hvalue s rfl, hss⟩) hrest
    | skipped => exact ih hrest

/-- So does a loop over the parts of a list, -/
theorem gives_collectWhile {round : Step (α × Bool)}
    (h : ∀ us : Tokens, us.Spelled → (round us).Gives fun value => p value.1) (n : Nat)
    (hts : ts.Spelled) : (collectWhile round n ts).Gives fun values => ∀ v ∈ values, p v := by
  induction n generalizing ts with
  | zero => trivial
  | succ n ih =>
    rw [collectWhile]
    refine (h ts hts).bind ?_
    rintro ⟨value, more⟩ rest hvalue hrest
    cases more with
    | true =>
      refine (ih hrest).bind ?_
      intro values rest hvalues hrest
      exact gives_pure (List.forall_mem_cons.2 ⟨hvalue, hvalues⟩) hrest
    | false => exact gives_pure (List.forall_mem_singleton.2 hvalue) hrest

/-- and a loop that hands on a value. -/
theorem gives_fold {round : α → Step (Option α)}
    (h : ∀ (left : α) (us : Tokens), p left → us.Spelled →
      (round left us).Gives fun next => ∀ value ∈ next, p value)
    (n : Nat) {left : α} (hleft : p left) (hts : ts.Spelled) : (fold round n left ts).Gives p := by
  induction n generalizing ts left with
  | zero => trivial
  | succ n ih =>
    rw [fold]
    refine (h left ts hleft hts).bind ?_
    intro next rest hnext hrest
    cases next with
    | none => exact gives_pure hleft hrest
    | some value => exact ih (hnext value rfl) hrest

end Step

/-! ### Rules -/

/-- What is read agrees with its tokens, and has been entered at a token that starts an
expression. -/
def ExprReader.Agrees (expr : ExprReader) : Prop :=
  ∀ (power : BindingPower) (ts : Tokens), ts.Spelled →
    (expr power ts).Gives fun e => e.Agrees ∧ ts.current.kind ∈ Grammar.standard.prefixKinds

variable {expr : ExprReader} {stmt : Step Stmt}

namespace Rule

theorem gives_identifier (hts : ts.Spelled) (hkind : ts.current.kind = .ident) :
    ((identifier : Step Expr) ts).Gives Expr.Agrees := by
  rw [identifier, current_bind]
  have hname := (hts.current (by rw [hkind]; decide)).isName hkind
  exact gives_pure (.identifier ⟨hname, rfl⟩) hts

theorem gives_integer (hts : ts.Spelled) (hkind : ts.current.kind = .int) :
    ((integer : Step Expr) ts).Gives Expr.Agrees := by
  rw [integer, current_bind]
  cases hvalue : Text.integer? ts.current.literal with
  | none => exact gives_reject _ hts
  | some value => exact gives_pure (.integer (Token.denotes_of_integer? hkind hvalue)) hts

theorem gives_boolean (hts : ts.Spelled)
    (hkind : ts.current.kind = .kwTrue ∨ ts.current.kind = .kwFalse) :
    ((boolean : Step Expr) ts).Gives Expr.Agrees := by
  rw [boolean, current_bind]
  refine gives_pure (.boolean ?_ decide_eq_true_iff) hts
  rcases hkind with hkind | hkind
  · exact .inl ((hts.current (by rw [hkind]; decide)).eq_of_kind hkind rfl)
  · exact .inr ((hts.current (by rw [hkind]; decide)).eq_of_kind hkind rfl)

theorem gives_prefixOp (hexpr : expr.Agrees) (hts : ts.Spelled)
    (hsign : ts.current ∈ Token.prefixOperators) : (prefixOp expr ts).Gives Expr.Agrees := by
  rw [prefixOp, advance_bind]
  refine (hexpr .unary ts.tail hts.tail).bind ?_
  intro right rest hright hrest
  exact gives_pure (.prefixOp hsign rfl hright.1) hrest

theorem gives_infixOp (hexpr : expr.Agrees) (hts : ts.Spelled)
    (hsign : ts.current ∈ Token.infixOperators) {left : Expr} (hleft : left.Agrees)
    (power : BindingPower) : (infixOp expr left power ts).Gives Expr.Agrees := by
  rw [infixOp, advance_bind]
  refine (hexpr power ts.tail hts.tail).bind ?_
  intro right rest hright hrest
  exact gives_pure (.infixOp hsign rfl hleft hright.1) hrest

/-- What is closed by a parenthesis is given as it is. -/
theorem gives_close {read : Step α} (h : (read ts).Gives p) :
    ((read >>= fun value => do
      let _ ← Step.expect .rparen
      pure value) ts).Gives p := by
  refine h.bind ?_
  intro value rest hvalue hrest
  refine (gives_expect (by decide) hrest).bind ?_
  intro close us _ hus
  exact gives_pure hvalue hus

theorem gives_grouping (hexpr : expr.Agrees) (hts : ts.Spelled) :
    (grouping expr ts).Gives Expr.Agrees := by
  rw [grouping, advance_bind]
  exact gives_close ((hexpr .lowest ts.tail hts.tail).mono fun e he => he.1)

theorem gives_alternative (hexpr : expr.Agrees) (hts : ts.Spelled) :
    (alternative expr ts).Gives fun a => ∀ e ∈ a, Expr.Agrees e := by
  rw [alternative, peek_bind]
  split
  · rw [advance_bind, advance_bind]
    refine (hexpr .lowest _ hts.tail.tail).bind ?_
    intro value rest hvalue hrest
    refine gives_pure ?_ hrest
    rintro e ⟨⟩
    exact hvalue.1
  · exact gives_pure (fun e he => absurd he (Option.not_mem_none e)) hts

theorem gives_conditional (hexpr : expr.Agrees) (hts : ts.Spelled)
    (hword : ts.current = ⟨.kwIf, "if"⟩) : (conditional expr ts).Gives Expr.Agrees := by
  rw [conditional, advance_bind]
  refine (hexpr .lowest ts.tail hts.tail).bind ?_
  intro condition us hcondition hus
  rw [advance_bind]
  refine (hexpr .lowest us.tail hus.tail).bind ?_
  intro consequence vs hconsequence hvs
  refine (gives_alternative hexpr hvs).bind ?_
  intro otherwise rest hotherwise hrest
  exact gives_pure (.conditional hword hcondition.1 hconsequence.1 hotherwise) hrest

theorem gives_andMore {value : α} (h : p value) (hts : ts.Spelled) :
    (andMore value ts).Gives fun result => p result.1 := by
  rw [andMore, peek_bind]
  split
  · rw [advance_bind]
    exact gives_pure h hts.tail
  · exact gives_pure h hts

/-- A list in parentheses is empty, or it is given as what is read up to the closing one. -/
theorem gives_list {read : Step (List α)} (hts : ts.Spelled)
    (h : (read ts).Gives fun values => ∀ v ∈ values, p v) :
    ((do
      let ahead ← Step.peek
      if ahead.kind = .rparen then do
        let _ ← Step.advance
        pure []
      else do
        let values ← read
        let _ ← Step.expect .rparen
        pure values : Step (List α)) ts).Gives fun values => ∀ v ∈ values, p v := by
  rw [peek_bind]
  split
  · rw [advance_bind]
    exact gives_pure (List.forall_mem_nil _) hts.tail
  · exact gives_close h

theorem gives_nameRound (hts : ts.Spelled) :
    (nameRound ts).Gives fun value => value.1.Agrees := by
  refine (gives_expect (by decide) hts).bind ?_
  rintro name rest ⟨hkind, hname⟩ hrest
  exact gives_andMore ⟨hname.isName hkind, rfl⟩ hrest

theorem gives_parameters (hts : ts.Spelled) :
    ((parameters : Step _) ts).Gives fun xs => ∀ x ∈ xs, x.Agrees := by
  refine gives_list hts ?_
  rw [parameterNames_eq_collectWhile]
  exact gives_collectWhile (fun us hus => gives_nameRound hus) _ hts

theorem gives_function (hexpr : expr.Agrees) (hts : ts.Spelled)
    (hword : ts.current = ⟨.kwFunction, "fn"⟩) : (function expr ts).Gives Expr.Agrees := by
  rw [function, current_bind]
  refine (gives_expect (by decide) hts).bind ?_
  intro paren us _ hus
  refine (gives_parameters hus).bind ?_
  intro names vs hnames hvs
  rw [advance_bind]
  refine (hexpr .lowest vs.tail hvs.tail).bind ?_
  intro body rest hbody hrest
  exact gives_pure (.function hword hnames hbody.1) hrest

theorem gives_valueRound (hexpr : expr.Agrees) (hts : ts.Spelled) :
    (valueRound expr ts).Gives fun value => value.1.Agrees := by
  rw [valueRound, advance_bind]
  refine (hexpr .lowest ts.tail hts.tail).bind ?_
  intro value rest hvalue hrest
  exact gives_andMore hvalue.1 hrest

theorem gives_call (hexpr : expr.Agrees) (hts : ts.Spelled) (hsign : ts.current = ⟨.lparen, "("⟩)
    {callee : Expr} (hcallee : callee.Agrees) : (call expr callee ts).Gives Expr.Agrees := by
  rw [call, current_bind]
  have hvalues : (arguments expr ts).Gives fun es => ∀ e ∈ es, e.Agrees := by
    refine gives_list hts ?_
    rw [argumentValues_eq_collectWhile]
    exact gives_collectWhile (fun us hus => gives_valueRound hexpr hus) _ hts
  refine hvalues.bind ?_
  intro values rest hvalues hrest
  exact gives_pure (.call hsign hcallee hvalues) hrest

/-- What a round has read agrees with its tokens, and one that is skipped reads nothing. -/
theorem gives_blockRound (hstmt : ∀ us : Tokens, us.Spelled → (stmt us).Gives Stmt.Agrees)
    (hts : ts.Spelled) : (blockRound stmt ts).Gives Round.Agrees := by
  rw [blockRound, current_bind]
  split
  · exact gives_pure Round.agrees_finished hts
  · split
    · exact gives_reject _ hts
    · refine (gives_attempt (hstmt ts hts)).bind ?_
      intro result rest hresult hrest
      cases result with
      | ok s =>
        dsimp only
        rw [advance_bind]
        exact gives_pure (Round.agrees_read (hresult s rfl)) hrest.tail
      | error diagnostic =>
        dsimp only
        split
        · exact hrest
        · refine (gives_record diagnostic hrest).bind ?_
          intro _ us _ hus
          refine (gives_synchronize true hus).bind ?_
          intro _ vs _ hvs
          exact gives_pure Round.agrees_skipped hvs

theorem gives_block (hstmt : ∀ us : Tokens, us.Spelled → (stmt us).Gives Stmt.Agrees)
    (hts : ts.Spelled) (hsign : ts.current = ⟨.lbrace, "\x7b"⟩) :
    (block stmt ts).Gives Expr.Agrees := by
  rw [block, advance_bind, blockStatements_eq_collect]
  refine (gives_collect (fun us hus => gives_blockRound hstmt hus) _ hts.tail).bind ?_
  intro statements rest hstatements hrest
  exact gives_pure (.block hsign hstatements) hrest

theorem gives_letBinding (hexpr : expr.Agrees) (hts : ts.Spelled)
    (hword : ts.current = ⟨.kwLet, "let"⟩) : (letBinding expr ts).Gives Stmt.Agrees := by
  rw [letBinding, current_bind]
  refine (gives_expect (by decide) hts).bind ?_
  rintro name us ⟨hkind, hname⟩ hus
  refine (gives_expect (by decide) hus).bind ?_
  intro sign vs _ hvs
  rw [advance_bind]
  refine (hexpr .lowest vs.tail hvs.tail).bind ?_
  intro value ws hvalue hws
  refine (gives_skipSemicolon hws).bind ?_
  intro _ rest _ hrest
  exact gives_pure (.letBinding hword ⟨hname.isName hkind, rfl⟩ hvalue.1) hrest

theorem gives_returnValue (hexpr : expr.Agrees) (hts : ts.Spelled)
    (hword : ts.current = ⟨.kwReturn, "return"⟩) : (returnValue expr ts).Gives Stmt.Agrees := by
  rw [returnValue, advance_bind]
  refine (hexpr .lowest ts.tail hts.tail).bind ?_
  intro value us hvalue hus
  refine (gives_skipSemicolon hus).bind ?_
  intro _ rest _ hrest
  exact gives_pure (.returnValue hword hvalue.1) hrest

theorem gives_expressionStmt (hexpr : expr.Agrees) (hts : ts.Spelled) :
    (expressionStmt expr ts).Gives Stmt.Agrees := by
  rw [expressionStmt, current_bind]
  refine (hexpr .lowest ts hts).bind ?_
  intro value us hvalue hus
  refine (gives_skipSemicolon hus).bind ?_
  intro _ rest _ hrest
  exact gives_pure (.expression hvalue.2 hvalue.1) hrest

end Rule

/-! ### Reading by the grammar -/

namespace Grammar

/-- A rule is entered at the kinds of token that it is made for. -/
theorem gives_prefixRule (hexpr : expr.Agrees)
    (hstmt : ∀ us : Tokens, us.Spelled → (stmt us).Gives Stmt.Agrees) (hts : ts.Spelled)
    {rule : PrefixRule} (h : standard.prefixRule ts.current.kind = some rule) :
    (rule.read expr stmt ts).Gives Expr.Agrees := by
  have hspelled := hts.current (standard_first h).2.2.2
  cases hkind : ts.current.kind <;> rw [hkind] at h <;> cases h
  case ident => exact Rule.gives_identifier hts hkind
  case int => exact Rule.gives_integer hts hkind
  case kwTrue => exact Rule.gives_boolean hts (.inl hkind)
  case kwFalse => exact Rule.gives_boolean hts (.inr hkind)
  case bang =>
    have hsign := hspelled.eq_of_kind hkind rfl
    exact Rule.gives_prefixOp hexpr hts (by rw [hsign]; decide)
  case minus =>
    have hsign := hspelled.eq_of_kind hkind rfl
    exact Rule.gives_prefixOp hexpr hts (by rw [hsign]; decide)
  case lparen => exact Rule.gives_grouping hexpr hts
  case lbrace => exact Rule.gives_block hstmt hts (hspelled.eq_of_kind hkind rfl)
  case kwIf => exact Rule.gives_conditional hexpr hts (hspelled.eq_of_kind hkind rfl)
  case kwFunction => exact Rule.gives_function hexpr hts (hspelled.eq_of_kind hkind rfl)

/-- The operators between operands are spelled as they have to be, and calls start with a
parenthesis. -/
theorem gives_infixRule (hexpr : expr.Agrees) (hts : ts.Spelled) {left : Expr}
    (hleft : left.Agrees) {next : Continuation}
    (h : standard.continuation ts.current.kind = some next) :
    (next.rule.read expr left next.power ts).Gives Expr.Agrees := by
  have hspelled : ts.current.Spelled := by
    refine hts.current fun heof => ?_
    rw [heof] at h
    cases h
  have hinfix {kind : Kind} {text : String} (hkind : ts.current.kind = kind)
      (htext : kind.spelling? = some text) (hmem : ⟨kind, text⟩ ∈ Token.infixOperators)
      (power : BindingPower) : (Rule.infixOp expr left power ts).Gives Expr.Agrees := by
    refine Rule.gives_infixOp hexpr hts ?_ hleft power
    rwa [hspelled.eq_of_kind hkind htext]
  cases hkind : ts.current.kind <;> rw [hkind] at h <;> cases h
  case lparen => exact Rule.gives_call hexpr hts (hspelled.eq_of_kind hkind rfl) hleft
  all_goals exact hinfix hkind rfl (by decide) _

theorem gives_operatorRound (hexpr : expr.Agrees) (power : BindingPower) {left : Expr}
    (hleft : left.Agrees) (hts : ts.Spelled) :
    (standard.operatorRound expr power left ts).Gives fun next => ∀ e ∈ next, Expr.Agrees e := by
  rw [operatorRound, peek_bind]
  cases hnext : standard.continuesAt? power ts.peek with
  | none => exact gives_pure (fun e he => absurd he (Option.not_mem_none e)) hts
  | some next =>
    dsimp only
    rw [advance_bind]
    have hrule := continuation_of_continuesAt hnext
    refine (gives_infixRule hexpr hts.tail hleft hrule).bind ?_
    intro e rest he hrest
    refine gives_pure ?_ hrest
    rintro _ ⟨⟩
    exact he

theorem gives_statementWith (hexpr : expr.Agrees) (hts : ts.Spelled) :
    (standard.statementWith expr ts).Gives Stmt.Agrees := by
  rw [statementWith, current_bind]
  cases hrule : standard.statementRule ts.current.kind with
  | none => exact Rule.gives_expressionStmt hexpr hts
  | some rule =>
    have hspelled := hts.current (standard_statement hrule).2
    cases hkind : ts.current.kind <;> rw [hkind] at hrule <;> cases hrule
    · exact Rule.gives_letBinding hexpr hts (hspelled.eq_of_kind hkind rfl)
    · exact Rule.gives_returnValue hexpr hts (hspelled.eq_of_kind hkind rfl)

theorem gives_expressionWith (hexpr : expr.Agrees) (power : BindingPower) (hts : ts.Spelled) :
    (standard.expressionWith expr power ts).Gives fun e =>
      e.Agrees ∧ ts.current.kind ∈ standard.prefixKinds := by
  rw [expressionWith, current_bind]
  cases hrule : standard.prefixRule ts.current.kind with
  | none => exact gives_reject _ hts
  | some rule =>
    have hmem : ts.current.kind ∈ standard.prefixKinds :=
      List.mem_filter.2 ⟨Kind.mem_all _, by rw [hrule]; rfl⟩
    have hstmt : ∀ us : Tokens, us.Spelled → (standard.statementWith expr us).Gives Stmt.Agrees :=
      fun us hus => gives_statementWith hexpr hus
    refine (gives_prefixRule hexpr hstmt hts hrule).bind ?_
    intro left rest hleft hrest
    rw [operators_eq_fold]
    refine Gives.mono ?_ fun e he => ⟨he, hmem⟩
    exact gives_fold (fun left us hleft hus => gives_operatorRound hexpr power hleft hus) _
      hleft hrest

/-- Reading an expression gives a tree that agrees with its tokens, however much room there
is. -/
theorem agrees_expression (room : Nat) : (standard.expression room).Agrees := by
  induction room with
  | zero => exact fun power ts hts => gives_reject _ hts
  | succ room ih => exact fun power ts hts => gives_expressionWith ih power hts

theorem gives_statement (room : Nat) (hts : ts.Spelled) :
    (standard.statement room ts).Gives Stmt.Agrees :=
  gives_statementWith (agrees_expression room) hts

theorem gives_programRound (room : Nat) (hts : ts.Spelled) :
    (programRound (standard.statement room) ts).Gives Round.Agrees := by
  rw [programRound, current_bind]
  split
  · exact gives_pure Round.agrees_finished hts
  · refine (gives_attempt (gives_statement room hts)).bind ?_
    intro result rest hresult hrest
    cases result with
    | ok s =>
      dsimp only
      rw [advance_bind]
      exact gives_pure (Round.agrees_read (hresult s rfl)) hrest.tail
    | error diagnostic =>
      refine (gives_record diagnostic hrest).bind ?_
      intro _ us _ hus
      refine (gives_synchronize false hus).bind ?_
      intro _ vs _ hvs
      exact gives_pure Round.agrees_skipped hvs

end Grammar

end

/-- **Trees agree with their tokens.**  Whatever the source is, every node of the program
that it is parsed as agrees with its token, and none keeps a token that closes, separates or
ends something, or that belongs to nothing. -/
theorem parse_agrees (source : String) :
    ∀ s ∈ (parse source).1.statements, s.Agrees ∧ ∀ t ∈ s.stored, t.kind ∉ Kind.unstored := by
  obtain ⟨rest, hparse⟩ := exists_collect_of_parse source
  have hspelled : Tokens.Spelled (Lexer.tokens source.toList) :=
    fun t ht => Lexer.spelled_of_mem_tokens ht
  have hgives := Step.gives_collect (fun us hus => Grammar.gives_programRound maxNesting hus)
    ((Lexer.tokens source.toList).length + 1) hspelled
  rw [Step.bounded_apply] at hparse
  rw [hparse] at hgives
  intro s hs
  have hagrees := hgives.1 s hs
  exact ⟨hagrees, hagrees.stored⟩

/-- So does what is left of a program behind a binding that has no name. -/
theorem parse_agrees_nameless :
    let s : Stmt := .expression ⟨.bang, "!"⟩
      (.prefixOp ⟨.bang, "!"⟩ "!" (.identifier (.ofToken ⟨.ident, "a"⟩)))
    s ∈ (parse "let 5; !a").1.statements ∧
      s.Agrees ∧ ∀ t ∈ s.stored, t.kind ∉ Kind.unstored := by
  intro s
  have hs : s ∈ (parse "let 5; !a").1.statements := by decide +kernel
  exact ⟨hs, parse_agrees "let 5; !a" s hs⟩

end Script
