import Script.Proofs.Layout
import Script.Proofs.Phrase

/-!
# Written trees are read back

The tokens that a layout writes for a tree are read as that tree, and exactly as
deep as the nesting of the tree says.  An expression is read together with the
operators that follow it: so the lemma about it says how an expression goes on that
starts with its tokens.  That is what makes it a lemma about operands, too, since
the left operand of an operator is read by the same step as the operator.

## Main results

* `Expr.readsBack` — the tokens of an expression are read as the expression.
* `Stmt.reads_written`, `Stmt.reads_writtenList` — the same for statements.
-/

namespace Script

open Grammar

/-! ### Readings in parts -/

namespace Reads

variable {n m : Nat} {ts rest rest' : Tokens}

/-- An expression in parentheses, and what continues it behind them. -/
theorem parens {power : BindingPower} {e e' : Expr}
    (hinner : Reads standard (.expr .lowest e) n ts (Token.closeParen :: rest))
    (hmore : Reads standard (.operators power e e') m rest rest') :
    Reads standard (.expr power e') (max n m + 1) (Token.openParen :: ts) rest' :=
  .expr (.grouping rfl hinner rfl) hmore

end Reads

theorem Expr.nesting_pos (layout : Layout) (e : Expr) : 1 ≤ e.nesting layout := by
  cases e with
  | function =>
    have hlayout : 1 ≤ layout.functionDepth := by cases layout <;> decide
    simp only [nesting]
    omega
  | _ =>
    simp only [nesting]
    omega

/-! ### Names -/

theorem Identifier.WellFormed.eq_ofToken {x : Identifier} (h : x.WellFormed) :
    x = .ofToken x.token :=
  congrArg (Identifier.mk x.token) h.2

theorem Identifier.reads_writtenList {xs : List Identifier} (hne : xs ≠ [])
    (hxs : ∀ x ∈ xs, x.WellFormed) (rest : Tokens) :
    Reads standard (.names xs) 0 (Identifier.writtenList xs ++ Token.closeParen :: rest)
      (Token.closeParen :: rest) := by
  induction xs with
  | nil => exact absurd rfl hne
  | cons x xs ih =>
    have hx := hxs x List.mem_cons_self
    rw [hx.eq_ofToken]
    cases xs with
    | nil => exact .lastName hx.1.1 (show Token.closeParen.kind ≠ .comma by decide)
    | cons y ys =>
      exact .moreNames hx.1.1 rfl
        (ih (List.cons_ne_nil y ys) fun z hz => hxs z (List.mem_cons_of_mem x hz))

theorem Identifier.reads_parameters {xs : List Identifier} (hxs : ∀ x ∈ xs, x.WellFormed)
    (rest : Tokens) :
    Reads standard (.parameters xs) 0 (Identifier.writtenList xs ++ Token.closeParen :: rest)
      rest := by
  cases xs with
  | nil => exact .noParameters rfl
  | cons x xs => exact .someParameters (reads_writtenList (List.cons_ne_nil x xs) hxs rest) rfl

/-! ### Expressions -/

/-- The tokens of the expression are read as the expression: whatever operators go
on with it behind its tokens go on with the expression itself.  A function that
stands free has to be the end of the expression. -/
def Expr.ReadsBack (layout : Layout) (e : Expr) : Prop :=
  ∀ ⦃power : BindingPower⦄ ⦃e' : Expr⦄ ⦃m : Nat⦄ ⦃rest rest' : Tokens⦄, power < .call →
    layout.AllowsLeft e ∨ standard.continuesAt? .lowest rest.current = none →
    Reads standard (.operators power (e.anchored layout) e') m rest rest' →
    Reads standard (.expr power e') (max (e.nesting layout) (m + 1)) (e.written layout ++ rest)
      rest'

namespace Expr.ReadsBack

variable {layout : Layout} {e : Expr}

/-- Where nothing continues it, an expression is read for itself. -/
theorem of_stop (h : e.ReadsBack layout) {p : BindingPower} (hp : p < .call) {rest : Tokens}
    (hstop : standard.continuesAt? .lowest rest.current = none) :
    Reads standard (.expr p (e.anchored layout)) (e.nesting layout) (e.written layout ++ rest)
      rest :=
  (h hp (.inr hstop) (.stop (continuesAt?_of_le hstop (Nat.zero_le _)))).of_depth
    (Nat.max_eq_left (e.nesting_pos layout))

/-- The same where a token follows that continues no expression. -/
theorem of_token (h : e.ReadsBack layout) {p : BindingPower} (hp : p < .call) {t : Token}
    (hstop : standard.continuation t.kind = none) (rest : Tokens) :
    Reads standard (.expr p (e.anchored layout)) (e.nesting layout)
      (e.written layout ++ t :: rest) (t :: rest) :=
  h.of_stop hp (continuesAt?_of_none hstop)

end Expr.ReadsBack

section Expressions

variable {layout : Layout} {t : Token}

theorem Expr.readsBack_of_start {e : Expr} {n : Nat} (hdepth : e.nesting layout = n + 1)
    (hstart : ∀ rest,
      Reads standard (.start (e.anchored layout)) n (e.written layout ++ rest) rest) :
    e.ReadsBack layout := by
  intro power e' m rest rest' _ _ hmore
  exact (Reads.expr (hstart rest) hmore).of_depth (by omega)

theorem Expr.readsBack_of_parens {e : Expr} {n : Nat} {ts : Tokens}
    (hdepth : e.nesting layout = n + 1) (hwritten : e.written layout = ts.enclosed)
    (hinner : ∀ rest, Reads standard (.expr .lowest (e.anchored layout)) n
      (ts ++ Token.closeParen :: rest) (Token.closeParen :: rest)) : e.ReadsBack layout := by
  intro power e' m rest rest' _ _ hmore
  rw [hwritten, Tokens.enclosed, List.cons_append, List.append_assoc]
  exact ((hinner rest).parens hmore).of_depth (by omega)

theorem Expr.readsBack_prefixOp {operator : String} {r : Expr} (hr : r.ReadsBack layout)
    (hrule : standard.prefixRule t.kind = some .prefixOp) (hoperator : operator = t.literal) :
    (Expr.prefixOp t operator r).ReadsBack layout := by
  subst hoperator
  have hdepth : (Expr.prefixOp t t.literal r).nesting layout = r.nesting layout + 1 + 1 := by
    rw [nesting]
    omega
  refine readsBack_of_parens hdepth rfl ?_
  intro rest
  have hright := hr.of_token (p := .unary) (by decide) (t := Token.closeParen) rfl rest
  exact .of_start (.prefixOp hrule hright) (continuesAt?_of_none rfl)

theorem Expr.readsBack_infixOp {operator : String} {q : BindingPower} {l r : Expr}
    (hl : l.ReadsBack layout) (hleft : layout.AllowsLeft l) (hr : r.ReadsBack layout)
    (hgoes : standard.continuesAt? .lowest t = some ⟨q, .infixOp⟩) (hq : q < .call)
    (hoperator : operator = t.literal) : (Expr.infixOp t l operator r).ReadsBack layout := by
  subst hoperator
  have hdepth : (Expr.infixOp t l t.literal r).nesting layout =
      max (l.nesting layout) (r.nesting layout + 1) + 1 := by
    rw [nesting]
    omega
  refine readsBack_of_parens hdepth rfl ?_
  intro rest
  -- the operator goes on with the left operand, and its own operand ends at the parenthesis
  have hright := hr.of_token hq (t := Token.closeParen) rfl rest
  have hmore : Reads standard (.operators .lowest (l.anchored layout)
      (.infixOp t (l.anchored layout) t.literal (r.anchored layout))) (r.nesting layout)
      (t :: (r.written layout ++ Token.closeParen :: rest)) (Token.closeParen :: rest) := by
    rw [← Nat.max_zero (r.nesting layout)]
    exact .infixOp hgoes hright (.stop (continuesAt?_of_none rfl))
  rw [List.append_assoc]
  exact hl (by decide) (.inl hleft) hmore

theorem Expr.readsBack_call {f : Expr} {es : List Expr} (hf : f.ReadsBack layout)
    (hleft : layout.AllowsLeft f) (hopen : t.kind = .lparen)
    (hes : ∀ rest, Reads standard (.arguments (anchoredList layout es)) (nestingList layout es)
      (writtenList layout es ++ Token.closeParen :: rest) rest) :
    (Expr.call t f es).ReadsBack layout := by
  intro power e' m rest rest' hpower _ hmore
  have hrule : standard.continuation t.kind = some ⟨.call, .call⟩ := by
    rw [hopen]
    rfl
  have hsemicolon : t.kind ≠ .semicolon := by
    rw [hopen]
    decide
  have hgoes : standard.continuesAt? power t = some ⟨.call, .call⟩ :=
    continuesAt?_of_some hrule hpower hsemicolon
  have hcall := hf hpower (.inl hleft) (.call hgoes (hes rest) hmore)
  rw [written, List.append_assoc, List.cons_append, List.append_assoc]
  refine hcall.of_depth ?_
  rw [nesting]
  omega

theorem Expr.readsBack_block {ss : List Stmt} (hopen : t.kind = .lbrace)
    (hss : ∀ rest, Reads standard (.statements (Stmt.anchoredList layout ss))
      (Stmt.nestingList layout ss)
      (Stmt.writtenList layout ss ++ Token.closeBrace :: rest) rest) :
    (Expr.block t ss).ReadsBack layout := by
  have hrule : standard.prefixRule t.kind = some .block := by
    rw [hopen]
    rfl
  refine readsBack_of_start (Nat.add_comm 1 _) ?_
  intro rest
  rw [written, List.cons_append, List.append_assoc]
  exact .block hrule (hss rest)

theorem Expr.readsBack_conditional {c k : Expr} {a : Option Expr} (hc : c.ReadsBack layout)
    (hk : k.ReadsBack layout) (hbrace : ∀ rest, (k.written layout ++ rest).current.kind = .lbrace)
    (hword : t.kind = .kwIf)
    (ha : ∀ rest, Reads standard (.alternative (anchoredAlternative layout a))
      (nestingAlternative layout a)
      (writtenAlternative layout a ++ Token.closeParen :: rest) (Token.closeParen :: rest)) :
    (Expr.conditional t c k a).ReadsBack layout := by
  have hdepth : (Expr.conditional t c k a).nesting layout =
      max (c.nesting layout) (max (k.nesting layout) (nestingAlternative layout a)) + 1 + 1 := by
    rw [nesting]
    omega
  have hrule : standard.prefixRule t.kind = some .conditional := by
    rw [hword]
    rfl
  refine readsBack_of_parens hdepth rfl ?_
  intro rest
  rw [List.cons_append, List.append_assoc, List.append_assoc]
  refine .of_start (.conditional hrule (hc.of_stop (by decide) ?_)
    (hk.of_stop (by decide) ?_) (ha rest)) (continuesAt?_of_none rfl)
  · -- the condition ends at the brace that opens the consequence
    refine continuesAt?_of_none ?_
    rw [hbrace]
    rfl
  · -- and the consequence ends at the word `else` or at the parenthesis
    cases a with
    | none => exact continuesAt?_of_none rfl
    | some e => exact continuesAt?_of_none rfl

/-- A function in parentheses is read whatever follows; one that stands free is
read where its body ends. -/
theorem Expr.readsBack_function {xs : List Identifier} {e : Expr}
    (hxs : ∀ x ∈ xs, x.WellFormed) (he : e.ReadsBack layout) (hword : t.kind = .kwFunction) :
    (Expr.function t xs e).ReadsBack layout := by
  have hrule : standard.prefixRule t.kind = some .function := by
    rw [hword]
    rfl
  have hstart {rest : Tokens} (hstop : standard.continuesAt? .lowest rest.current = none) :
      Reads standard (.start (.function t xs (e.anchored layout))) (e.nesting layout)
        (t :: Token.openParen :: (Identifier.writtenList xs ++ Token.closeParen ::
          (e.written layout ++ rest))) rest :=
    .function hrule rfl (Identifier.reads_parameters hxs _)
      (he.of_stop (by decide) hstop)
  cases layout with
  | enclosed =>
    have hdepth : (Expr.function t xs e).nesting .enclosed = e.nesting .enclosed + 1 + 1 := by
      rw [nesting, Layout.functionDepth]
      omega
    refine readsBack_of_parens hdepth rfl ?_
    intro rest
    rw [List.cons_append, List.cons_append, List.append_assoc, List.cons_append]
    exact .of_start (hstart (continuesAt?_of_none rfl)) (continuesAt?_of_none rfl)
  | rendered =>
    intro power e' m rest rest' _ hend hmore
    have hstop : standard.continuesAt? .lowest rest.current = none := by
      rcases hend with hfree | hstop
      · rcases hfree with h | h <;> cases h
      · exact hstop
    rw [written, Layout.function, List.cons_append, List.cons_append, List.append_assoc,
      List.cons_append]
    refine (Reads.expr (hstart hstop) hmore).of_depth ?_
    rw [nesting, Layout.functionDepth]
    omega

theorem Expr.reads_arguments {es : List Expr}
    (hvalues : es ≠ [] → ∀ rest, Reads standard (.values (anchoredList layout es))
      (nestingList layout es) (writtenList layout es ++ Token.closeParen :: rest)
      (Token.closeParen :: rest)) (rest : Tokens) :
    Reads standard (.arguments (anchoredList layout es)) (nestingList layout es)
      (writtenList layout es ++ Token.closeParen :: rest) rest := by
  cases es with
  | nil => exact .noArguments rfl
  | cons e es =>
    have hread := hvalues (List.cons_ne_nil e es) rest
    obtain ⟨rule, hrule⟩ := hread.exists_prefixRule_of_values
    exact .someArguments (standard_first hrule).2.1 hread rfl

/-- An expression that stands alone ends at its `;`, or at the end of the source. -/
theorem Expr.ReadsBack.reads_expressionStmt {e : Expr} (h : e.ReadsBack layout) (t : Token)
    {rest : Tokens} (hrest : layout = .enclosed ∨ rest = []) :
    Reads standard (.statement (Stmt.anchored layout (.expression t e)))
      (Stmt.nesting layout (.expression t e)) (Stmt.written layout (.expression t e) ++ rest)
      rest := by
  have hend : standard.continuesAt? .lowest (layout.ending ++ rest).current = none ∧
      (layout.ending ++ rest).dropSemicolon = rest := by
    rcases hrest with rfl | rfl
    · exact ⟨continuesAt?_of_none rfl, rfl⟩
    · cases layout <;> exact ⟨continuesAt?_of_none rfl, rfl⟩
  have hvalue := h.of_stop (p := .lowest) (by decide) hend.1
  rw [Stmt.written, Stmt.anchored, List.append_assoc]
  have hread := hvalue.expressionStmt repowered_standard
  rwa [hend.2] at hread

end Expressions

/-! ### Trees -/

theorem Expr.current_written_of_isBlock {layout : Layout} {k : Expr} (hblock : k.isBlock = true)
    (hk : k.WellFormed layout) (rest : Tokens) :
    (k.written layout ++ rest).current.kind = .lbrace := by
  cases k with
  | block t ss =>
    rw [WellFormed] at hk
    exact hk.2.1.1
  | _ => cases hblock

mutual

/-- The tokens of a well-formed expression are read as the expression. -/
theorem Expr.readsBack (layout : Layout) : ∀ e : Expr, e.WellFormed layout → e.ReadsBack layout
  | .identifier name, h => by
    rw [Expr.WellFormed] at h
    have hrule : standard.prefixRule name.token.kind = some .identifier := by
      rw [h.1.1]
      rfl
    refine Expr.readsBack_of_start rfl ?_
    intro rest
    rw [Expr.anchored, h.eq_ofToken]
    exact .identifier hrule
  | .integer t v, h => by
    rw [Expr.WellFormed] at h
    have hrule : standard.prefixRule t.kind = some .integer := by
      rw [h.1.1]
      rfl
    exact Expr.readsBack_of_start rfl fun rest => .integer hrule h.2
  | .boolean t v, h => by
    rw [Expr.WellFormed] at h
    have hrule : standard.prefixRule t.kind = some .boolean := by
      rcases h with ⟨⟨ht, -⟩, -⟩ | ⟨⟨ht, -⟩, -⟩ <;> rw [ht] <;> rfl
    have hv : v = t.is .kwTrue := by
      rcases h with ⟨⟨ht, -⟩, rfl⟩ | ⟨⟨ht, -⟩, rfl⟩ <;> simp [Token.is, ht]
    refine Expr.readsBack_of_start rfl ?_
    intro rest
    rw [Expr.anchored, hv]
    exact .boolean hrule
  | .prefixOp t operator r, h => by
    rw [Expr.WellFormed] at h
    obtain ⟨⟨kind, hkind, ht⟩, hoperator, hr⟩ := h
    have hrule : standard.prefixRule t.kind = some .prefixOp := by
      rw [ht.1]
      exact standard_prefix hkind
    exact Expr.readsBack_prefixOp (r.readsBack layout hr) hrule hoperator
  | .infixOp t l operator r, h => by
    rw [Expr.WellFormed] at h
    obtain ⟨⟨kind, hkind, ht⟩, hoperator, hl, hleft, hr⟩ := h
    -- the operator binds tighter than nothing at all, but less tight than a call
    obtain ⟨q, hrule, hlow, hhigh⟩ := standard_infix hkind
    have hlowest : .lowest < q := Nat.lt_of_lt_of_le (Nat.zero_lt_one) hlow
    have hcall : q < .call := Nat.lt_of_le_of_lt hhigh (by decide)
    rw [← ht.1] at hkind hrule
    have hgoes : standard.continuesAt? .lowest t = some ⟨q, .infixOp⟩ :=
      continuesAt?_of_some hrule hlowest (Kind.infixKinds_plain hkind).1
    exact Expr.readsBack_infixOp (l.readsBack layout hl) hleft (r.readsBack layout hr) hgoes hcall
      hoperator
  | .conditional t c k a, h => by
    rw [Expr.WellFormed] at h
    obtain ⟨-, ht, hc, hk, hblock, ha⟩ := h
    exact Expr.readsBack_conditional (c.readsBack layout hc) (k.readsBack layout hk)
      (k.current_written_of_isBlock hblock hk) ht.1 (Expr.reads_alternative layout a ha)
  | .block t ss, h => by
    rw [Expr.WellFormed] at h
    obtain ⟨hlayout, ht, hss⟩ := h
    exact Expr.readsBack_block ht.1 (Stmt.reads_writtenList layout ss hss hlayout)
  | .function t xs e, h => by
    rw [Expr.WellFormed] at h
    obtain ⟨ht, hxs, he⟩ := h
    exact Expr.readsBack_function hxs (e.readsBack layout he) ht.1
  | .call t f es, h => by
    rw [Expr.WellFormed] at h
    obtain ⟨ht, hf, hleft, hes⟩ := h
    exact Expr.readsBack_call (f.readsBack layout hf) hleft ht.1
      (Expr.reads_arguments (Expr.reads_values layout es hes))

theorem Expr.reads_alternative (layout : Layout) : ∀ a : Option Expr,
    Expr.WellFormedAlternative layout a → ∀ rest,
      Reads standard (.alternative (Expr.anchoredAlternative layout a))
        (Expr.nestingAlternative layout a)
        (Expr.writtenAlternative layout a ++ Token.closeParen :: rest) (Token.closeParen :: rest)
  | none, _, rest => .noAlternative (show Token.closeParen.kind ≠ .kwElse by decide)
  | some e, h, rest => by
    rw [Expr.WellFormedAlternative] at h
    exact .someAlternative rfl ((e.readsBack layout h).of_token (by decide) rfl rest)

theorem Expr.reads_values (layout : Layout) : ∀ es : List Expr, Expr.WellFormedList layout es →
    es ≠ [] → ∀ rest,
      Reads standard (.values (Expr.anchoredList layout es)) (Expr.nestingList layout es)
        (Expr.writtenList layout es ++ Token.closeParen :: rest) (Token.closeParen :: rest)
  | [], _, hne, _ => absurd rfl hne
  | [e], h, _, rest => by
    rw [Expr.WellFormedList] at h
    have hvalue := (e.readsBack layout h.1).of_token (p := .lowest) (by decide)
      (t := Token.closeParen) rfl rest
    rw [Expr.writtenList, Expr.writtenMore, List.append_nil]
    exact (Reads.lastValue hvalue (show Token.closeParen.kind ≠ .comma by decide)).of_depth
      (Nat.max_eq_left (Nat.zero_le _)).symm
  | e :: e' :: es, h, _, rest => by
    rw [Expr.WellFormedList] at h
    have hvalue := (e.readsBack layout h.1).of_token (p := .lowest) (by decide)
      (t := Token.comma) rfl (Expr.writtenList layout (e' :: es) ++ Token.closeParen :: rest)
    have hvalues := Expr.reads_values layout (e' :: es) h.2 (List.cons_ne_nil _ _) rest
    rw [Expr.writtenList, Expr.writtenMore, List.append_assoc, List.cons_append]
    exact .moreValues hvalue rfl hvalues

/-- The tokens of a well-formed statement are read as the statement. -/
theorem Stmt.reads_written (layout : Layout) : ∀ s : Stmt, s.WellFormed layout → ∀ rest,
    layout = .enclosed ∨ s.isExpression = false ∨ rest = [] →
      Reads standard (.statement (s.anchored layout)) (s.nesting layout)
        (s.written layout ++ rest) rest
  | .letBinding t x v, h, rest, _ => by
    rw [Stmt.WellFormed] at h
    obtain ⟨ht, hx, hv⟩ := h
    have hrule : standard.statementRule t.kind = some .letBinding := by
      rw [ht.1]
      rfl
    have hvalue := (v.readsBack layout hv).of_token (p := .lowest) (by decide)
      (t := Token.semicolon) rfl rest
    rw [Stmt.written, Stmt.anchored, hx.eq_ofToken, List.cons_append, List.cons_append,
      List.cons_append, List.append_assoc]
    exact .letBinding hrule hx.1.1 rfl hvalue
  | .returnValue t v, h, rest, _ => by
    rw [Stmt.WellFormed] at h
    have hrule : standard.statementRule t.kind = some .returnValue := by
      rw [h.1.1]
      rfl
    have hvalue := (v.readsBack layout h.2).of_token (p := .lowest) (by decide)
      (t := Token.semicolon) rfl rest
    rw [Stmt.written, List.cons_append, List.append_assoc]
    exact .returnValue hrule hvalue
  | .expression t e, h, rest, hrest => by
    rw [Stmt.WellFormed] at h
    have hend : layout = .enclosed ∨ rest = [] := by
      rcases hrest with hlayout | hstmt | hrest
      · exact .inl hlayout
      · cases hstmt
      · exact .inr hrest
    exact (e.readsBack layout h).reads_expressionStmt t hend

theorem Stmt.reads_writtenList (layout : Layout) : ∀ ss : List Stmt,
    Stmt.WellFormedList layout ss → layout = .enclosed → ∀ rest,
      Reads standard (.statements (Stmt.anchoredList layout ss)) (Stmt.nestingList layout ss)
        (Stmt.writtenList layout ss ++ Token.closeBrace :: rest) rest
  | [], _, _, rest => .noStatements rfl
  | s :: ss, h, hlayout, rest => by
    rw [Stmt.WellFormedList] at h
    have hs := s.reads_written layout h.1
      (Stmt.writtenList layout ss ++ Token.closeBrace :: rest) (.inl hlayout)
    rw [Stmt.writtenList, List.append_assoc]
    obtain ⟨hbrace, heof⟩ := hs.current_of_statement repowered_standard
    exact .moreStatements hbrace heof hs (Stmt.reads_writtenList layout ss h.2 hlayout rest)

end

end Script
