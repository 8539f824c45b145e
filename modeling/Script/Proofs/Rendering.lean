import Script.Proofs.Layout.Parsing
import Script.Tree.Render

/-!
# Rendered programs are parsed back

The text that a tree is rendered as is the rendered layout of the tree, spelled out
with just enough blanks: no token of it goes on with the character behind it.  So a
rendered program is parsed as the program, as far as there is room for its statements.

## Main definitions

* `Lexer.EndsWord` — the texts that go on with no name and no number.

## Main results

* `Expr.tokens_render`, `Stmt.tokens_renderList` — a rendered text is read as the
  tokens of the rendered layout.
* `parse_render` — a rendered program is parsed as itself.
-/

namespace Script

/-! ### Pieces of text -/

namespace Lexer

/-- The text goes on with no name and no number that stands before it. -/
def EndsWord (cs : List Char) : Prop := ∀ c ∈ cs.head?, isLetter c = false ∧ c.isDigit = false

theorem endsWord_nil : EndsWord [] := fun _ h => by cases h

theorem endsWord_cons {c : Char} (hletter : isLetter c = false) (hdigit : c.isDigit = false)
    (cs : List Char) : EndsWord (c :: cs) := by
  intro d hd
  obtain rfl : c = d := Option.some.inj hd
  exact ⟨hletter, hdigit⟩

/-- Names, numbers and reserved words are read up to where the word ends. -/
theorem tokens_of_word {t : Token} {kind : Kind} (ht : t.IsA kind)
    (hkind : kind ∈ [Kind.ident, .int, .kwTrue, .kwFalse, .kwLet, .kwReturn, .kwFunction])
    {rest : List Char} (hrest : EndsWord rest) :
    tokens (t.literal.toList ++ rest) = t :: tokens rest := by
  obtain ⟨rfl, ht⟩ := ht
  refine tokens_append ht ?_
  intro c hc
  obtain ⟨hletter, hdigit⟩ := hrest c hc
  simp only [List.mem_cons, List.not_mem_nil, or_false] at hkind
  unfold Token.gluesTo
  rcases hkind with h | h | h | h | h | h | h <;> simp [h, hletter, hdigit]

/-- A sign that no `=` goes on with is read whatever follows. -/
theorem tokens_of_sign {t : Token} (ht : t.Spelled)
    (hkind : t.kind ∈ [Kind.lparen, .rparen, .comma, .semicolon, .minus]) (rest : List Char) :
    tokens (t.literal.toList ++ rest) = t :: tokens rest := by
  refine tokens_append ht ?_
  intro c _
  simp only [List.mem_cons, List.not_mem_nil, or_false] at hkind
  unfold Token.gluesTo
  rcases hkind with h | h | h | h | h <;> rw [h]

/-- Every token is read where a blank follows. -/
theorem tokens_before_blank {t : Token} (ht : t.Spelled) (rest : List Char) :
    tokens (t.literal.toList ++ ' ' :: rest) = t :: tokens rest := by
  have hblank : ∀ c ∈ (' ' :: rest).head?, t.gluesTo c = false := by
    simpa using t.gluesTo_of_isBlank (c := ' ') rfl
  rw [tokens_append ht hblank, tokens_blank]

@[simp] theorem tokens_openParen (rest : List Char) :
    tokens ('(' :: rest) = Token.openParen :: tokens rest :=
  tokens_of_sign Token.spelled_openParen (by decide) rest

@[simp] theorem tokens_closeParen (rest : List Char) :
    tokens (')' :: rest) = Token.closeParen :: tokens rest :=
  tokens_of_sign Token.spelled_closeParen (by decide) rest

@[simp] theorem tokens_comma (rest : List Char) :
    tokens (',' :: rest) = Token.comma :: tokens rest :=
  tokens_of_sign Token.spelled_comma (by decide) rest

@[simp] theorem tokens_semicolon (rest : List Char) :
    tokens (';' :: rest) = Token.semicolon :: tokens rest :=
  tokens_of_sign Token.spelled_semicolon (by decide) rest

@[simp] theorem tokens_assign (rest : List Char) :
    tokens ('=' :: ' ' :: rest) = Token.assign :: tokens rest :=
  tokens_before_blank Token.spelled_assign rest

/-- An operator in front of its operand is read where the operand does not start with
an `=`. -/
theorem tokens_of_prefix {t : Token} {kind : Kind} (ht : t.IsA kind)
    (hkind : kind ∈ Kind.prefixKinds) {rest : List Char} (hrest : ∀ c ∈ rest.head?, c ≠ '=') :
    tokens (t.literal.toList ++ rest) = t :: tokens rest := by
  obtain ⟨rfl, ht⟩ := ht
  refine tokens_append ht ?_
  intro c hc
  simp only [Kind.prefixKinds, List.mem_cons, List.not_mem_nil, or_false] at hkind
  unfold Token.gluesTo
  rcases hkind with h | h <;> simp [h, hrest c hc]

end Lexer

open Lexer

/-- Texts are joined by a comma and a blank. -/
theorem toList_intercalate_comma (a b : String) (texts : List String) (rest : List Char) :
    (", ".intercalate (a :: b :: texts)).toList ++ rest =
      a.toList ++ ',' :: ' ' :: ((", ".intercalate (b :: texts)).toList ++ rest) := by
  rw [String.intercalate_cons_cons, String.toList_append, String.toList_append, List.append_assoc,
    List.append_assoc]
  rfl

/-! ### Names -/

theorem Identifier.WellFormed.tokens_value {x : Identifier} (hx : x.WellFormed) {rest : List Char}
    (hrest : EndsWord rest) : tokens (x.value.toList ++ rest) = x.token :: tokens rest := by
  rw [hx.2]
  exact tokens_of_word hx.1 (by decide) hrest

theorem Identifier.tokens_renderList {xs : List Identifier} (hxs : ∀ x ∈ xs, x.WellFormed)
    {rest : List Char} (hrest : EndsWord rest) :
    tokens ((renderList xs).toList ++ rest) = writtenList xs ++ tokens rest := by
  induction xs with
  | nil => rfl
  | cons x xs ih =>
    rw [List.forall_mem_cons] at hxs
    obtain ⟨hx, hxs⟩ := hxs
    cases xs with
    | nil =>
      rw [renderList, List.map_singleton, String.intercalate_singleton, hx.tokens_value hrest]
      rfl
    | cons y ys =>
      have hmore : tokens ((", ".intercalate ((y :: ys).map value)).toList ++ rest) =
          writtenList (y :: ys) ++ tokens rest := ih hxs
      rw [List.map_cons] at hmore
      rw [renderList, List.map_cons, List.map_cons, toList_intercalate_comma,
        hx.tokens_value (endsWord_cons rfl rfl _), tokens_comma, tokens_blank, hmore]
      rfl

/-! ### Expressions -/

/-- A word does not start with an `=`. -/
theorem Token.Spelled.head_literal {t : Token} (ht : t.Spelled)
    (hkind : t.kind ∈ [Kind.ident, .int, .kwTrue, .kwFalse, .kwFunction]) :
    ∃ c cs, t.literal.toList = c :: cs ∧ c ≠ '=' := by
  cases ht with
  | @word cs hne hletters =>
    cases cs with
    | nil => exact absurd rfl hne
    | cons c cs =>
      refine ⟨c, cs, String.toList_ofList, ?_⟩
      rintro rfl
      exact absurd (hletters '=' List.mem_cons_self) (by decide)
  | @number cs hne hdigits =>
    cases cs with
    | nil => exact absurd rfl hne
    | cons c cs =>
      refine ⟨c, cs, String.toList_ofList, ?_⟩
      rintro rfl
      exact absurd (hdigits '=' List.mem_cons_self) (by decide)
  | @signWithEqual c kind hsign =>
    unfold signWithEqual? at hsign
    split at hsign <;> cases hsign <;> simp at hkind
  | @sign c hblank hletter hdigit =>
    -- the sign `=` is none of the kinds
    refine ⟨c, [], String.toList_singleton _, ?_⟩
    rintro rfl
    simp [sign?] at hkind

/-- The text of an expression does not start with an `=`. -/
theorem Expr.head_render : ∀ e : Expr, e.WellFormed .rendered →
    ∃ c cs, e.render.toList = c :: cs ∧ c ≠ '='
  | .identifier name, h => by
    rw [Expr.WellFormed] at h
    rw [Expr.render, h.2]
    exact h.1.2.head_literal (by rw [h.1.1]; decide)
  | .integer t v, h => by
    rw [Expr.WellFormed] at h
    exact h.1.2.head_literal (by rw [h.1.1]; decide)
  | .boolean t v, h => by
    rw [Expr.WellFormed] at h
    rcases h with ⟨ht, -⟩ | ⟨ht, -⟩
    · exact ht.2.head_literal (by rw [ht.1]; decide)
    · exact ht.2.head_literal (by rw [ht.1]; decide)
  | .prefixOp t operator r, _ => by
    refine ⟨'(', operator.toList ++ (r.render.toList ++ [')']), ?_, by decide⟩
    simp [Expr.render]
  | .infixOp t l operator r, _ => by
    refine ⟨'(', l.render.toList ++ (' ' :: (operator.toList ++ (' ' :: (r.render.toList ++
      [')'])))), ?_, by decide⟩
    simp [Expr.render]
  | .conditional t c k a, h => by
    -- neither choices nor blocks are written in this layout
    rw [Expr.WellFormed] at h
    cases h.1
  | .block t ss, h => by
    rw [Expr.WellFormed] at h
    cases h.1
  | .function t xs e, h => by
    rw [Expr.WellFormed] at h
    obtain ⟨c, cs, htext, hc⟩ := h.1.2.head_literal (by rw [h.1.1]; decide)
    refine ⟨c, cs ++ ('(' :: ((Identifier.renderList xs).toList ++ (')' :: ' ' ::
      e.render.toList))), ?_, hc⟩
    simp [Expr.render, htext]
  | .call t f es, h => by
    rw [Expr.WellFormed] at h
    obtain ⟨c, cs, htext, hc⟩ := f.head_render h.2.1
    refine ⟨c, cs ++ ('(' :: ((", ".intercalate (Expr.renderList es)).toList ++ [')'])), ?_, hc⟩
    simp [Expr.render, htext]

/-- Behind an operator in front of it, the text of an expression starts anew. -/
theorem Expr.head_render_append {e : Expr} (h : e.WellFormed .rendered) (rest : List Char) :
    ∀ c ∈ (e.render.toList ++ rest).head?, c ≠ '=' := by
  obtain ⟨c, cs, htext, hc⟩ := e.head_render h
  intro d hd
  rw [htext] at hd
  obtain rfl : c = d := Option.some.inj hd
  exact hc

/-- The opening parenthesis of an argument list is written as such. -/
theorem Token.IsA.eq_openParen {t : Token} (h : t.IsA .lparen) : t = openParen := by
  obtain ⟨hkind, ht⟩ := h
  cases ht with
  | @word cs hne hletters => exact absurd hkind (ofWord_ne (String.ofList cs) (by decide))
  | number => cases hkind
  | signWithEqual hsign => exact absurd hkind (signWithEqual_ne hsign (by decide))
  | @sign c hblank hletter hdigit =>
    unfold sign? at hkind ⊢
    split at hkind <;> cases hkind
    rfl

mutual

/-- The text of an expression is read as its tokens, if no name or number goes on
behind it. -/
theorem Expr.tokens_render : ∀ e : Expr, e.WellFormed .rendered → ∀ rest, EndsWord rest →
    tokens (e.render.toList ++ rest) = e.written .rendered ++ tokens rest
  | .identifier name, h, rest, hrest => by
    rw [Expr.WellFormed] at h
    exact h.tokens_value hrest
  | .integer t v, h, rest, hrest => by
    rw [Expr.WellFormed] at h
    exact tokens_of_word h.1 (by decide) hrest
  | .boolean t v, h, rest, hrest => by
    rw [Expr.WellFormed] at h
    rcases h with ⟨ht, -⟩ | ⟨ht, -⟩
    · exact tokens_of_word ht (by decide) hrest
    · exact tokens_of_word ht (by decide) hrest
  | .prefixOp t operator r, h, rest, _ => by
    rw [Expr.WellFormed] at h
    obtain ⟨⟨kind, hkind, ht⟩, rfl, hr⟩ := h
    have hright := r.tokens_render hr (')' :: rest) (endsWord_cons rfl rfl rest)
    have htext : (Expr.prefixOp t t.literal r).render.toList ++ rest =
        '(' :: (t.literal.toList ++ (r.render.toList ++ ')' :: rest)) := by
      simp [Expr.render]
    -- with an `=` behind it, the operator would be read as a comparison
    rw [htext, tokens_openParen, tokens_of_prefix ht hkind (Expr.head_render_append hr _), hright,
      tokens_closeParen]
    simp [Expr.written, Tokens.enclosed]
  | .infixOp t l operator r, h, rest, _ => by
    rw [Expr.WellFormed] at h
    obtain ⟨⟨kind, hkind, ht⟩, rfl, hl, -, hr⟩ := h
    have hright := r.tokens_render hr (')' :: rest) (endsWord_cons rfl rfl rest)
    have htext : (Expr.infixOp t l t.literal r).render.toList ++ rest =
        '(' :: (l.render.toList ++ ' ' :: (t.literal.toList ++ ' ' ::
          (r.render.toList ++ ')' :: rest))) := by
      simp [Expr.render]
    rw [htext, tokens_openParen, l.tokens_render hl _ (endsWord_cons rfl rfl _), tokens_blank,
      tokens_before_blank ht.2, hright, tokens_closeParen]
    simp [Expr.written, Tokens.enclosed]
  | .conditional t c k a, h, _, _ => by
    rw [Expr.WellFormed] at h
    cases h.1
  | .block t ss, h, _, _ => by
    rw [Expr.WellFormed] at h
    cases h.1
  | .function t xs e, h, rest, hrest => by
    rw [Expr.WellFormed] at h
    obtain ⟨ht, hxs, he⟩ := h
    have htext : (Expr.function t xs e).render.toList ++ rest =
        t.literal.toList ++ '(' :: ((Identifier.renderList xs).toList ++ ')' :: ' ' ::
          (e.render.toList ++ rest)) := by
      simp [Expr.render]
    -- the body stands at the end of the text, so that it is up to `rest` where it ends
    rw [htext, tokens_of_word ht (by decide) (endsWord_cons rfl rfl _), tokens_openParen,
      Identifier.tokens_renderList hxs (endsWord_cons rfl rfl _), tokens_closeParen, tokens_blank,
      e.tokens_render he rest hrest]
    simp [Expr.written, Layout.function]
  | .call t f es, h, rest, _ => by
    rw [Expr.WellFormed] at h
    obtain ⟨ht, hf, -, hes⟩ := h
    have htext : (Expr.call t f es).render.toList ++ rest =
        f.render.toList ++ '(' :: ((", ".intercalate (Expr.renderList es)).toList ++
          ')' :: rest) := by
      simp [Expr.render]
    rw [htext, f.tokens_render hf _ (endsWord_cons rfl rfl _), tokens_openParen,
      Expr.tokens_renderList es hes _ (endsWord_cons rfl rfl _), tokens_closeParen,
      ht.eq_openParen]
    simp [Expr.written]

/-- The texts of expressions with commas between them are read as their tokens. -/
theorem Expr.tokens_renderList : ∀ es : List Expr, Expr.WellFormedList .rendered es →
    ∀ rest, EndsWord rest →
      tokens ((", ".intercalate (Expr.renderList es)).toList ++ rest) =
        Expr.writtenList .rendered es ++ tokens rest
  | [], _, _, _ => rfl
  | [e], h, rest, hrest => by
    rw [Expr.WellFormedList] at h
    rw [Expr.renderList, Expr.renderList, String.intercalate_singleton,
      e.tokens_render h.1 rest hrest, Expr.writtenList, Expr.writtenMore, List.append_nil]
  | e :: e' :: es, h, rest, hrest => by
    rw [Expr.WellFormedList] at h
    have hmore := Expr.tokens_renderList (e' :: es) h.2 rest hrest
    rw [Expr.renderList] at hmore
    rw [Expr.renderList, Expr.renderList, toList_intercalate_comma,
      e.tokens_render h.1 _ (endsWord_cons rfl rfl _), tokens_comma, tokens_blank, hmore]
    simp [Expr.writtenList, Expr.writtenMore]

end

theorem Expr.tokenize_render {e : Expr} (h : e.WellFormed .rendered) :
    tokenize e.render = e.written .rendered ++ [Token.eof] := by
  have hread := e.tokens_render h [] endsWord_nil
  rw [List.append_nil, tokens_nil, List.append_nil] at hread
  rw [← hread]
  rfl

/-! ### Statements -/

/-- The text of a statement is read as its tokens; behind an expression there is
nothing more. -/
theorem Stmt.tokens_render {s : Stmt} (h : s.WellFormed .rendered) {rest : List Char}
    (hrest : s.isExpression = false ∨ rest = []) :
    tokens (s.render.toList ++ rest) = s.written .rendered ++ tokens rest := by
  cases s with
  | letBinding t x v =>
    rw [WellFormed] at h
    obtain ⟨ht, hx, hv⟩ := h
    have htext : (letBinding t x v).render.toList ++ rest =
        t.literal.toList ++ ' ' :: (x.value.toList ++ ' ' :: '=' :: ' ' ::
          (v.render.toList ++ ';' :: rest)) := by
      simp [render]
    rw [htext, tokens_before_blank ht.2, hx.tokens_value (endsWord_cons rfl rfl _), tokens_blank,
      tokens_assign, v.tokens_render hv _ (endsWord_cons rfl rfl _), tokens_semicolon]
    simp [written]
  | returnValue t v =>
    rw [WellFormed] at h
    have htext : (returnValue t v).render.toList ++ rest =
        t.literal.toList ++ ' ' :: (v.render.toList ++ ';' :: rest) := by
      simp [render]
    rw [htext, tokens_before_blank h.1.2, v.tokens_render h.2 _ (endsWord_cons rfl rfl _),
      tokens_semicolon]
    simp [written]
  | expression t e =>
    rcases hrest with hrest | rfl
    · cases hrest
    · rw [WellFormed] at h
      rw [render, e.tokens_render h [] endsWord_nil, written, Layout.ending, List.append_nil]

theorem Stmt.tokens_renderList {ss : List Stmt} (hss : WellFormedList .rendered ss)
    (hlast : ∀ s ∈ ss.dropLast, s.isExpression = false) :
    tokens (renderList ss).toList = writtenList .rendered ss := by
  induction ss with
  | nil => exact tokens_nil
  | cons s ss ih =>
    rw [WellFormedList] at hss
    rw [renderList, String.toList_append, writtenList]
    cases ss with
    | nil =>
      have hend : (renderList []).toList = [] := rfl
      rw [hend, tokens_render hss.1 (.inr rfl), tokens_nil]
      rfl
    | cons s' ss =>
      rw [List.dropLast_cons_cons, List.forall_mem_cons] at hlast
      rw [tokens_render hss.1 (.inl hlast.1), ih hss.2 hlast.2]

/-! ### First tokens -/

mutual

/-- Without blocks there is no statement in an expression to be anchored. -/
theorem Expr.anchored_rendered : ∀ e : Expr, e.WellFormed .rendered → e.anchored .rendered = e
  | .identifier _, _ => rfl
  | .integer _ _, _ => rfl
  | .boolean _ _, _ => rfl
  | .prefixOp t operator r, h => by
    rw [Expr.WellFormed] at h
    rw [Expr.anchored, r.anchored_rendered h.2.2]
  | .infixOp t l operator r, h => by
    rw [Expr.WellFormed] at h
    obtain ⟨-, -, hl, -, hr⟩ := h
    rw [Expr.anchored, l.anchored_rendered hl, r.anchored_rendered hr]
  | .conditional t c k a, h => by
    rw [Expr.WellFormed] at h
    cases h.1
  | .block t ss, h => by
    rw [Expr.WellFormed] at h
    cases h.1
  | .function t xs e, h => by
    rw [Expr.WellFormed] at h
    rw [Expr.anchored, e.anchored_rendered h.2.2]
  | .call t f es, h => by
    rw [Expr.WellFormed] at h
    obtain ⟨-, hf, -, hes⟩ := h
    rw [Expr.anchored, f.anchored_rendered hf, Expr.anchoredList_rendered es hes]

theorem Expr.anchoredList_rendered : ∀ es : List Expr, Expr.WellFormedList .rendered es →
    Expr.anchoredList .rendered es = es
  | [], _ => rfl
  | e :: es, h => by
    rw [Expr.WellFormedList] at h
    rw [Expr.anchoredList, e.anchored_rendered h.1, Expr.anchoredList_rendered es h.2]

end

/-- The statement has the first token of its text, if it is an expression. -/
def Stmt.FirstToken : Stmt → Prop
  | .expression t e => (tokenize e.render).head? = some t
  | _ => True

theorem Stmt.anchored_rendered {s : Stmt} (h : s.WellFormed .rendered) (hfirst : s.FirstToken) :
    s.anchored .rendered = s := by
  cases s with
  | letBinding t x v =>
    rw [WellFormed] at h
    rw [anchored, v.anchored_rendered h.2.2]
  | returnValue t v =>
    rw [WellFormed] at h
    rw [anchored, v.anchored_rendered h.2]
  | expression t e =>
    rw [WellFormed] at h
    have hcurrent : Tokens.current (e.written .rendered) = t := by
      rw [FirstToken, Expr.tokenize_render h] at hfirst
      cases hwritten : e.written .rendered with
      | nil => rw [hwritten] at hfirst; exact Option.some.inj hfirst
      | cons u us => rw [hwritten] at hfirst; exact Option.some.inj hfirst
    rw [anchored, hcurrent, e.anchored_rendered h]

theorem Stmt.anchoredList_rendered {ss : List Stmt} (h : WellFormedList .rendered ss)
    (hfirst : ∀ s ∈ ss, s.FirstToken) (keep : Stmt → Bool) :
    anchoredList .rendered (ss.filter keep) = ss.filter keep := by
  induction ss with
  | nil => rfl
  | cons s ss ih =>
    rw [WellFormedList] at h
    rw [List.forall_mem_cons] at hfirst
    have hmore := ih h.2 hfirst.2
    rw [List.filter_cons]
    split
    · rw [anchoredList, anchored_rendered h.1 hfirst.1, hmore]
    · exact hmore

/-! ### Programs -/

/-- A rendered program is parsed as those of its statements for which there is room,
and each other statement gives rise to one diagnostic: at one of its tokens, and with
the fault that the nesting is too deep. -/
theorem parse_render {p : Program} (hp : Stmt.WellFormedList .rendered p.statements)
    (hlast : ∀ s ∈ p.statements.dropLast, s.isExpression = false)
    (hfirst : ∀ s ∈ p.statements, s.FirstToken) :
    ∃ log, parse p.render =
        (⟨p.statements.filter fun s => s.nesting .rendered ≤ maxNesting⟩, log) ∧
      List.Forall₂ (Stmt.TooDeep .rendered)
        (p.statements.filter fun s => maxNesting < s.nesting .rendered) log := by
  have htokens : tokens p.render.toList = Stmt.writtenList .rendered p.statements :=
    Stmt.tokens_renderList hp hlast
  obtain ⟨log, hparse, hlog⟩ := parse_of_tokens_written htokens hp (.inr hlast)
    fun hlayout => by cases hlayout
  rw [Stmt.anchoredList_rendered hp hfirst] at hparse
  exact ⟨log, hparse, hlog⟩

/-- The program `let x = 007;(!x)`. -/
def Program.negation : Program :=
  ⟨[.letBinding ⟨.kwLet, "let"⟩ (.ofToken ⟨.ident, "x"⟩) (.integer ⟨.int, "007"⟩ 7),
    .expression ⟨.lparen, "("⟩
      (.prefixOp ⟨.bang, "!"⟩ "!" (.identifier (.ofToken ⟨.ident, "x"⟩)))]⟩

theorem Program.wellFormed_negation :
    Stmt.WellFormedList .rendered negation.statements := by
  have hlet : Token.IsA ⟨.kwLet, "let"⟩ .kwLet :=
    ⟨rfl, Token.spelled_word "let" (by decide) (by decide)⟩
  have hname : Identifier.WellFormed (.ofToken ⟨.ident, "x"⟩) :=
    ⟨⟨rfl, Token.spelled_word "x" (by decide) (by decide)⟩, rfl⟩
  have hnumber : Token.IsA ⟨.int, "007"⟩ .int :=
    ⟨rfl, Token.spelled_number "007" (by decide) (by decide)⟩
  have hbang : Token.IsA ⟨.bang, "!"⟩ .bang := ⟨rfl, .sign (c := '!') rfl rfl rfl⟩
  have hvalue : Text.integer? "007" = some 7 := by decide
  simp [negation, Stmt.WellFormedList, Stmt.WellFormed, Expr.WellFormed, hlet, hname, hnumber,
    hvalue, Kind.prefixKinds, hbang]

/-- A program of a binding and an expression is read back from its text. -/
theorem parse_render_negation :
    Program.negation.render = "let x = 007;(!x)" ∧
      ∃ log, parse Program.negation.render =
        (⟨Program.negation.statements.filter fun s => s.nesting .rendered ≤ maxNesting⟩, log) ∧
      List.Forall₂ (Stmt.TooDeep .rendered)
        (Program.negation.statements.filter fun s => maxNesting < s.nesting .rendered) log := by
  have hexpression : Stmt.FirstToken (.expression ⟨.lparen, "("⟩
      (.prefixOp ⟨.bang, "!"⟩ "!" (.identifier (.ofToken ⟨.ident, "x"⟩)))) := by
    have hwellFormed := Program.wellFormed_negation
    rw [Program.negation, Stmt.WellFormedList, Stmt.WellFormedList, Stmt.WellFormed] at hwellFormed
    rw [Stmt.FirstToken, Expr.tokenize_render hwellFormed.2.1]
    rfl
  refine ⟨by decide, parse_render Program.wellFormed_negation ?_ ?_⟩
  · simp [Program.negation, Stmt.isExpression]
  · intro s hs
    simp only [Program.negation, List.mem_cons, List.not_mem_nil, or_false] at hs
    rcases hs with rfl | rfl
    · trivial
    · exact hexpression

end Script
