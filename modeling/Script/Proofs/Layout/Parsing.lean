import Mathlib.Data.List.Forall2
import Script.Proofs.Layout.Reading
import Script.Proofs.Program

/-!
# Written programs are parsed back

Every token that is written for a well-formed tree is spelled, and in the rendered
layout no token inside a statement could end or start one.  So the tokens of a program
are read statement by statement, and a statement that is nested too deeply is skipped
without a trace in the others.

## Main definitions

* `Layout.Admits` — the tokens that expressions are written with.

## Main results

* `Expr.admits_written`, `Stmt.spelled_writtenList` — what trees are written with.
* `Grammar.programStatements_written` — the loop that reads a program reads every
  written statement for which there is room, and records one fault for each other.
* `parse_of_tokens_written` — the same for a source that is read as written tokens.
* `parse_spaced_written` — a program in the enclosed layout is parsed as itself.
-/

namespace Script

open Grammar

/-! ### The tokens of a tree -/

namespace Token

theorem spelled_openParen : openParen.Spelled := .sign (c := '(') rfl rfl rfl

theorem spelled_closeParen : closeParen.Spelled := .sign (c := ')') rfl rfl rfl

theorem spelled_closeBrace : closeBrace.Spelled := .sign (c := '}') rfl rfl rfl

theorem spelled_comma : comma.Spelled := .sign (c := ',') rfl rfl rfl

theorem spelled_semicolon : semicolon.Spelled := .sign (c := ';') rfl rfl rfl

theorem spelled_assign : assign.Spelled := .sign (c := '=') rfl rfl rfl

theorem spelled_elseWord : elseWord.Spelled := spelled_word "else" (by decide) (by decide)

end Token

/-- The token may stand in an expression: it is spelled, and where there are no blocks
it neither ends a statement nor starts one with a word. -/
def Layout.Admits (layout : Layout) (t : Token) : Prop :=
  t.Spelled ∧ (layout = .enclosed ∨ t.kind ≠ .semicolon ∧ Tokens.startsStatement t.kind = false)

/-- All of the tokens may stand in an expression. -/
def Layout.AdmitsAll (layout : Layout) (ts : Tokens) : Prop := ∀ t ∈ ts, layout.Admits t

namespace Layout

variable {layout : Layout} {t : Token} {ts us : Tokens} {kind : Kind}

theorem Admits.of_kind (ht : t.Spelled) (hsemicolon : t.kind ≠ .semicolon)
    (hstart : Tokens.startsStatement t.kind = false) : layout.Admits t :=
  ⟨ht, .inr ⟨hsemicolon, hstart⟩⟩

theorem Admits.of_isA (ht : t.IsA kind) (hsemicolon : kind ≠ .semicolon)
    (hstart : Tokens.startsStatement kind = false) : layout.Admits t := by
  obtain ⟨rfl, ht⟩ := ht
  exact .of_kind ht hsemicolon hstart

theorem admits_openParen : layout.Admits Token.openParen :=
  .of_kind Token.spelled_openParen (by decide) rfl

theorem admits_closeParen : layout.Admits Token.closeParen :=
  .of_kind Token.spelled_closeParen (by decide) rfl

theorem admits_comma : layout.Admits Token.comma :=
  .of_kind Token.spelled_comma (by decide) rfl

@[simp] theorem admitsAll_nil : layout.AdmitsAll [] := List.forall_mem_nil _

@[simp] theorem admitsAll_cons :
    layout.AdmitsAll (t :: ts) ↔ layout.Admits t ∧ layout.AdmitsAll ts :=
  List.forall_mem_cons

@[simp] theorem admitsAll_append :
    layout.AdmitsAll (ts ++ us) ↔ layout.AdmitsAll ts ∧ layout.AdmitsAll us :=
  List.forall_mem_append

theorem AdmitsAll.enclosed (h : layout.AdmitsAll ts) : layout.AdmitsAll ts.enclosed := by
  rw [Tokens.enclosed, admitsAll_cons, admitsAll_append, admitsAll_cons]
  exact ⟨admits_openParen, h, admits_closeParen, admitsAll_nil⟩

theorem AdmitsAll.function (h : layout.AdmitsAll ts) : layout.AdmitsAll (layout.function ts) := by
  cases layout with
  | enclosed => exact h.enclosed
  | rendered => exact h

theorem admitsAll_enclosed (h : ∀ t ∈ ts, t.Spelled) : Layout.enclosed.AdmitsAll ts :=
  fun t ht => ⟨h t ht, .inl rfl⟩

/-- The tokens of expressions without blocks are skipped as a whole. -/
theorem AdmitsAll.plain (h : Layout.rendered.AdmitsAll ts) : ts.Plain := by
  intro t ht
  rcases (h t ht).2 with hlayout | hkind
  · cases hlayout
  · exact hkind

end Layout

section Writing

variable {layout : Layout} {xs : List Identifier}

theorem Identifier.admits_writtenMore (h : ∀ x ∈ xs, x.WellFormed) :
    layout.AdmitsAll (writtenMore xs) := by
  induction xs with
  | nil => exact Layout.admitsAll_nil
  | cons x xs ih =>
    rw [List.forall_mem_cons] at h
    rw [writtenMore, Layout.admitsAll_cons, Layout.admitsAll_cons]
    exact ⟨Layout.admits_comma, .of_isA h.1.1 (by decide) rfl, ih h.2⟩

theorem Identifier.admits_writtenList (h : ∀ x ∈ xs, x.WellFormed) :
    layout.AdmitsAll (writtenList xs) := by
  cases xs with
  | nil => exact Layout.admitsAll_nil
  | cons x xs =>
    rw [List.forall_mem_cons] at h
    rw [writtenList, Layout.admitsAll_cons]
    exact ⟨.of_isA h.1.1 (by decide) rfl, admits_writtenMore h.2⟩

end Writing

mutual

/-- Well-formed expressions are written with tokens that may stand in expressions. -/
theorem Expr.admits_written (layout : Layout) : ∀ e : Expr, e.WellFormed layout →
    layout.AdmitsAll (e.written layout)
  | .identifier name, h => by
    rw [Expr.WellFormed] at h
    rw [Expr.written, Layout.admitsAll_cons]
    exact ⟨.of_isA h.1 (by decide) rfl, Layout.admitsAll_nil⟩
  | .integer t v, h => by
    rw [Expr.WellFormed] at h
    rw [Expr.written, Layout.admitsAll_cons]
    exact ⟨.of_isA h.1 (by decide) rfl, Layout.admitsAll_nil⟩
  | .boolean t v, h => by
    rw [Expr.WellFormed] at h
    rw [Expr.written, Layout.admitsAll_cons]
    rcases h with ⟨ht, -⟩ | ⟨ht, -⟩
    · exact ⟨.of_isA ht (by decide) rfl, Layout.admitsAll_nil⟩
    · exact ⟨.of_isA ht (by decide) rfl, Layout.admitsAll_nil⟩
  | .prefixOp t operator r, h => by
    rw [Expr.WellFormed] at h
    obtain ⟨⟨kind, hkind, ht⟩, -, hr⟩ := h
    -- no operator ends a statement or starts one
    obtain ⟨hsemicolon, hstart⟩ := Kind.prefixKinds_plain hkind
    refine Layout.AdmitsAll.enclosed ?_
    rw [Layout.admitsAll_cons]
    exact ⟨.of_isA ht hsemicolon hstart, r.admits_written layout hr⟩
  | .infixOp t l operator r, h => by
    rw [Expr.WellFormed] at h
    obtain ⟨⟨kind, hkind, ht⟩, -, hl, -, hr⟩ := h
    obtain ⟨hsemicolon, hstart⟩ := Kind.infixKinds_plain hkind
    refine Layout.AdmitsAll.enclosed ?_
    rw [Layout.admitsAll_append, Layout.admitsAll_cons]
    exact ⟨l.admits_written layout hl, .of_isA ht hsemicolon hstart, r.admits_written layout hr⟩
  | .conditional t c k a, h => by
    rw [Expr.WellFormed] at h
    obtain ⟨-, ht, hc, hk, -, ha⟩ := h
    refine Layout.AdmitsAll.enclosed ?_
    rw [Layout.admitsAll_cons, Layout.admitsAll_append, Layout.admitsAll_append]
    exact ⟨.of_isA ht (by decide) rfl, c.admits_written layout hc, k.admits_written layout hk,
      Expr.admits_writtenAlternative layout a ha⟩
  | .block t ss, h => by
    rw [Expr.WellFormed] at h
    -- blocks are written in the enclosed layout only, in which every token may stand
    obtain ⟨rfl, ht, hss⟩ := h
    rw [Expr.written, Layout.admitsAll_cons, Layout.admitsAll_append, Layout.admitsAll_cons]
    exact ⟨.of_isA ht (by decide) rfl,
      Layout.admitsAll_enclosed (Stmt.spelled_writtenList .enclosed ss hss),
      .of_kind Token.spelled_closeBrace (by decide) rfl, Layout.admitsAll_nil⟩
  | .function t xs e, h => by
    rw [Expr.WellFormed] at h
    obtain ⟨ht, hxs, he⟩ := h
    -- whether there are parentheses around it depends on the layout
    refine Layout.AdmitsAll.function ?_
    rw [Layout.admitsAll_cons, Layout.admitsAll_cons, Layout.admitsAll_append,
      Layout.admitsAll_cons]
    exact ⟨.of_isA ht (by decide) rfl, Layout.admits_openParen, Identifier.admits_writtenList hxs,
      Layout.admits_closeParen, e.admits_written layout he⟩
  | .call t f es, h => by
    rw [Expr.WellFormed] at h
    obtain ⟨ht, hf, -, hes⟩ := h
    rw [Expr.written, Layout.admitsAll_append, Layout.admitsAll_cons, Layout.admitsAll_append,
      Layout.admitsAll_cons]
    exact ⟨f.admits_written layout hf, .of_isA ht (by decide) rfl,
      Expr.admits_writtenList layout es hes, Layout.admits_closeParen, Layout.admitsAll_nil⟩

theorem Expr.admits_writtenAlternative (layout : Layout) : ∀ a : Option Expr,
    Expr.WellFormedAlternative layout a → layout.AdmitsAll (Expr.writtenAlternative layout a)
  | none, _ => Layout.admitsAll_nil
  | some e, h => by
    rw [Expr.WellFormedAlternative] at h
    rw [Expr.writtenAlternative, Layout.admitsAll_cons]
    exact ⟨.of_kind Token.spelled_elseWord (by decide) rfl, e.admits_written layout h⟩

theorem Expr.admits_writtenMore (layout : Layout) : ∀ es : List Expr,
    Expr.WellFormedList layout es → layout.AdmitsAll (Expr.writtenMore layout es)
  | [], _ => Layout.admitsAll_nil
  | e :: es, h => by
    rw [Expr.WellFormedList] at h
    rw [Expr.writtenMore, Layout.admitsAll_cons, Layout.admitsAll_append]
    exact ⟨Layout.admits_comma, e.admits_written layout h.1, Expr.admits_writtenMore layout es h.2⟩

theorem Expr.admits_writtenList (layout : Layout) : ∀ es : List Expr,
    Expr.WellFormedList layout es → layout.AdmitsAll (Expr.writtenList layout es)
  | [], _ => Layout.admitsAll_nil
  | e :: es, h => by
    rw [Expr.WellFormedList] at h
    rw [Expr.writtenList, Layout.admitsAll_append]
    exact ⟨e.admits_written layout h.1, Expr.admits_writtenMore layout es h.2⟩

/-- Well-formed statements are written with spelled tokens. -/
theorem Stmt.spelled_written (layout : Layout) : ∀ s : Stmt, s.WellFormed layout →
    ∀ t ∈ s.written layout, t.Spelled
  | .letBinding t x v, h => by
    rw [Stmt.WellFormed] at h
    obtain ⟨ht, hx, hv⟩ := h
    rw [Stmt.written, List.forall_mem_cons, List.forall_mem_cons, List.forall_mem_cons,
      List.forall_mem_append, List.forall_mem_singleton]
    exact ⟨ht.2, hx.1.2, Token.spelled_assign, fun u hu => (v.admits_written layout hv u hu).1,
      Token.spelled_semicolon⟩
  | .returnValue t v, h => by
    rw [Stmt.WellFormed] at h
    rw [Stmt.written, List.forall_mem_cons, List.forall_mem_append, List.forall_mem_singleton]
    exact ⟨h.1.2, fun u hu => (v.admits_written layout h.2 u hu).1, Token.spelled_semicolon⟩
  | .expression t e, h => by
    rw [Stmt.WellFormed] at h
    rw [Stmt.written, List.forall_mem_append]
    refine ⟨fun u hu => (e.admits_written layout h u hu).1, ?_⟩
    cases layout with
    | enclosed => exact List.forall_mem_singleton.2 Token.spelled_semicolon
    | rendered => exact List.forall_mem_nil _

theorem Stmt.spelled_writtenList (layout : Layout) : ∀ ss : List Stmt,
    Stmt.WellFormedList layout ss → ∀ t ∈ Stmt.writtenList layout ss, t.Spelled
  | [], _ => List.forall_mem_nil _
  | s :: ss, h => by
    rw [Stmt.WellFormedList] at h
    rw [Stmt.writtenList, List.forall_mem_append]
    exact ⟨s.spelled_written layout h.1, Stmt.spelled_writtenList layout ss h.2⟩

end

/-! ### Programs -/

/-- The statements can be told apart: behind an expression without a `;` there is
nothing more. -/
def Layout.Separates (layout : Layout) (ss : List Stmt) : Prop :=
  layout = .enclosed ∨ ∀ s ∈ ss.dropLast, s.isExpression = false

theorem Layout.Separates.of_cons {layout : Layout} {s : Stmt} {ss : List Stmt}
    (h : layout.Separates (s :: ss)) :
    (layout = .enclosed ∨ s.isExpression = false ∨ ss = []) ∧ layout.Separates ss := by
  rcases h with rfl | h
  · exact ⟨.inl rfl, .inl rfl⟩
  · cases ss with
    | nil => exact ⟨.inr (.inr rfl), .inr (List.forall_mem_nil _)⟩
    | cons s' ss =>
      rw [List.dropLast_cons_cons, List.forall_mem_cons] at h
      exact ⟨.inr (.inl h.1), .inr h.2⟩

/-- Wherever reading has stopped in a statement of the rendered layout, the rest of
the statement is skipped, and nothing else. -/
theorem Stmt.recover_written {s : Stmt} (hs : s.WellFormed .rendered) {rest us : Tokens}
    (hrest : s.isExpression = false ∨ rest = []) {t : Token}
    (h : t :: us <:+ s.written .rendered) : Tokens.recover false (t :: (us ++ rest)) = rest := by
  cases s with
  | letBinding w x v =>
    rw [WellFormed] at hs
    obtain ⟨hw, hx, hv⟩ := hs
    have hplain : Tokens.Plain (x.token :: Token.assign :: v.written .rendered) := by
      rw [Tokens.plain_cons, Tokens.plain_cons, hx.1.1]
      exact ⟨by decide, by decide, (v.admits_written .rendered hv).plain⟩
    have hsemicolon : w.kind ≠ .semicolon := by
      rw [hw.1]
      decide
    exact Tokens.recover_suffix_of_statement hsemicolon hplain rfl h rest
  | returnValue w v =>
    rw [WellFormed] at hs
    have hsemicolon : w.kind ≠ .semicolon := by
      rw [hs.1.1]
      decide
    have hplain := (v.admits_written .rendered hs.2).plain
    exact Tokens.recover_suffix_of_statement hsemicolon hplain rfl h rest
  | expression w e =>
    rcases hrest with hrest | rfl
    · cases hrest
    · rw [WellFormed] at hs
      rw [written, Layout.ending, List.append_nil] at h
      have hplain := ((e.admits_written .rendered hs).plain).of_suffix h
      rw [Tokens.plain_cons] at hplain
      rw [List.append_nil]
      exact Tokens.recover_plain hplain.1.1 hplain.2

/-- The fault that is recorded for a statement for which there is no room: it is found
at one of the statement's tokens. -/
def Stmt.TooDeep (layout : Layout) (s : Stmt) (d : Diagnostic) : Prop :=
  d.fault = .nestingTooDeep maxNesting ∧ d.token ∈ s.written layout

/-- The statements for which there is room are read, and the others are recorded and
skipped. -/
theorem Grammar.programStatements_written {layout : Layout} {room : Nat} {ss : List Stmt}
    (hss : Stmt.WellFormedList layout ss) (hseparates : layout.Separates ss)
    (hroom : layout = .enclosed → ∀ s ∈ ss, s.nesting layout ≤ room) (rounds : Nat)
    (hrounds : (Stmt.writtenList layout ss).length < rounds) :
    ∃ log, programStatements (standard.statement room) rounds (Stmt.writtenList layout ss) =
        .ok (Stmt.anchoredList layout (ss.filter fun s => s.nesting layout ≤ room)) [] log ∧
      List.Forall₂ (Stmt.TooDeep layout) (ss.filter fun s => room < s.nesting layout) log := by
  induction ss generalizing rounds with
  | nil =>
    cases rounds with
    | zero => cases hrounds
    | succ rounds => exact ⟨[], programStatements_nil rounds, .nil⟩
  | cons s ss ih =>
    rw [Stmt.WellFormedList] at hss
    obtain ⟨hend, hseparates⟩ := hseparates.of_cons
    have hrest : layout = .enclosed ∨ s.isExpression = false ∨ Stmt.writtenList layout ss = [] := by
      rcases hend with hend | hend | rfl
      · exact .inl hend
      · exact .inr (.inl hend)
      · exact .inr (.inr rfl)
    have hread := s.reads_written layout hss.1 (Stmt.writtenList layout ss) hrest
    have hlength := hread.length_lt_of_statement
    have heof := (hread.current_of_statement repowered_standard).2
    cases rounds with
    | zero => cases hrounds
    | succ rounds =>
      rw [Stmt.writtenList] at hrounds ⊢
      obtain ⟨log, hok, hlog⟩ := ih hss.2 hseparates
        (fun hlayout s' hs' => hroom hlayout s' (List.mem_cons_of_mem s hs'))
        rounds (by omega)
      have hreply : (standard.statement room (s.written layout ++ Stmt.writtenList layout ss)).Meets
          (s.nesting layout) room (s.anchored layout)
          (s.written layout ++ Stmt.writtenList layout ss) (Stmt.writtenList layout ss) :=
        hread.meets room
      generalize hstep : standard.statement room _ = reply at hreply
      -- the statement stays if it is read, and gives rise to a diagnostic if it is not
      cases hreply with
      | reads hdepth last =>
        have hkeep : decide (s.nesting layout ≤ room) = true := decide_eq_true hdepth
        have hdrop : ¬decide (room < s.nesting layout) = true := by simpa using hdepth
        refine ⟨log, ?_, ?_⟩
        · rw [programStatements_of_ok heof hstep, Step.bind_of_ok hok, List.filter_cons,
            if_pos hkeep, Stmt.anchoredList, Step.pure_apply, Reply.after_ok, List.append_nil]
        · rwa [List.filter_cons, if_neg hdrop]
      | tooDeep hdepth t us hleft =>
        -- in the enclosed layout there is room for every statement
        have hlayout : layout = .rendered := by
          cases layout with
          | enclosed => exact absurd (hroom rfl s List.mem_cons_self) (Nat.not_le.2 hdepth)
          | rendered => rfl
        subst hlayout
        have hinside : t :: us <:+ s.written .rendered := List.suffix_append_self_iff.1 hleft
        have hdrop : ¬decide (s.nesting .rendered ≤ room) = true := by simpa using hdepth
        have hkeep : decide (room < s.nesting .rendered) = true := decide_eq_true hdepth
        refine ⟨⟨.nestingTooDeep maxNesting, t⟩ :: log, ?_, ?_⟩
        · rw [programStatements_of_fail heof hstep,
            Stmt.recover_written hss.1 (hrest.resolve_left (by decide)) hinside, hok,
            List.filter_cons, if_neg hdrop]
          rfl
        · rw [List.filter_cons, if_pos hkeep]
          exact .cons ⟨rfl, hinside.subset List.mem_cons_self⟩ hlog

/-- A source that is read as the tokens of a program is parsed as the statements of the
program for which there is room, and gives rise to one diagnostic for each other. -/
theorem parse_of_tokens_written {layout : Layout} {source : String} {ss : List Stmt}
    (htokens : Lexer.tokens source.toList = Stmt.writtenList layout ss)
    (hss : Stmt.WellFormedList layout ss) (hseparates : layout.Separates ss)
    (hroom : layout = .enclosed → ∀ s ∈ ss, s.nesting layout ≤ maxNesting) :
    ∃ log, parse source =
        (⟨Stmt.anchoredList layout (ss.filter fun s => s.nesting layout ≤ maxNesting)⟩, log) ∧
      List.Forall₂ (Stmt.TooDeep layout) (ss.filter fun s => maxNesting < s.nesting layout)
        log := by
  obtain ⟨log, hok, hlog⟩ :=
    programStatements_written hss hseparates hroom _ (Nat.lt_succ_self _)
  rw [← htokens] at hok
  exact ⟨log, parse_of_statements hok, hlog⟩

/-- A program in the enclosed layout is parsed as itself, without a diagnostic. -/
theorem parse_spaced_written {ss : List Stmt} (hss : Stmt.WellFormedList .enclosed ss)
    (hnesting : ∀ s ∈ ss, s.nesting .enclosed ≤ maxNesting) :
    parse (Tokens.spaced (Stmt.writtenList .enclosed ss)) =
      (⟨Stmt.anchoredList .enclosed ss⟩, []) := by
  have htokens := Lexer.tokens_spaced (Stmt.spelled_writtenList .enclosed ss hss)
  obtain ⟨log, hparse, hlog⟩ := parse_of_tokens_written htokens hss (.inl rfl) fun _ => hnesting
  have hall : ss.filter (fun s => s.nesting .enclosed ≤ maxNesting) = ss := by
    rw [List.filter_eq_self]
    intro s hs
    exact decide_eq_true (hnesting s hs)
  have hnone : ss.filter (fun s => maxNesting < s.nesting .enclosed) = [] := by
    rw [List.filter_eq_nil_iff]
    intro s hs
    simpa using hnesting s hs
  rw [hnone] at hlog
  cases hlog
  rw [hparse, hall]

/-- The statement of the source `return (if x {});`. -/
def Stmt.returnChoice : Stmt :=
  .returnValue ⟨.kwReturn, "return"⟩ (.conditional ⟨.kwIf, "if"⟩
    (.identifier (.ofToken ⟨.ident, "x"⟩)) (.block ⟨.lbrace, "\x7b"⟩ []) none)

theorem Stmt.wellFormed_returnChoice : WellFormedList .enclosed [returnChoice] := by
  have hreturn : Token.IsA ⟨.kwReturn, "return"⟩ .kwReturn :=
    ⟨rfl, Token.spelled_word "return" (by decide) (by decide)⟩
  have hif : Token.IsA ⟨.kwIf, "if"⟩ .kwIf :=
    ⟨rfl, Token.spelled_word "if" (by decide) (by decide)⟩
  have hname : Identifier.WellFormed (.ofToken ⟨.ident, "x"⟩) :=
    ⟨⟨rfl, Token.spelled_word "x" (by decide) (by decide)⟩, rfl⟩
  have hbrace : Token.IsA ⟨.lbrace, "\x7b"⟩ .lbrace := ⟨rfl, .sign (c := '\x7b') rfl rfl rfl⟩
  simp [returnChoice, WellFormedList, WellFormed, Expr.WellFormed, Expr.WellFormedAlternative,
    Expr.isBlock, hreturn, hif, hname, hbrace]

/-- A choice without an alternative is read back from its tokens. -/
theorem parse_spaced_returnChoice :
    Tokens.spaced (Stmt.writtenList .enclosed [Stmt.returnChoice]) =
        "return ( if x \x7b \x7d ) ;" ∧
      parse (Tokens.spaced (Stmt.writtenList .enclosed [Stmt.returnChoice])) =
        (⟨[Stmt.returnChoice]⟩, []) :=
  ⟨by decide, parse_spaced_written Stmt.wellFormed_returnChoice (by
    simp [Stmt.returnChoice, Stmt.nesting, Expr.nesting, Expr.nestingAlternative,
      Stmt.nestingList, maxNesting])⟩

end Script
