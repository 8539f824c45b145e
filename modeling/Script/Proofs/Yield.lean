import Mathlib.Data.List.Forall2
import Script.Proofs.Phrase.Inversion
import Script.Proofs.Program
import Script.Proofs.Spelling

/-!
# Yields

A tree yields a list of tokens if the tokens, read from left to right, are those of
its nodes with the punctuation that the grammar puts between them.  Parentheses may
stand around every expression and leave no node.  Whatever is read without a
diagnostic has been read from a yield of it: no token is lost on the way, none is
used twice or out of order, and none is made up.

## Main definitions

* `Tokens.CommaSeparated` — pieces of a token list with commas between them.
* `Expr.Yields`, `Stmt.Yields` — the tokens are those of the tree.

## Main results

* `Reads.yields` — a phrase is read from its tokens.
* `parseStatement_parse_yields` — a statement that is read without a diagnostic
  yields the tokens that it was read from, and a source that is parsed without one is
  the yields of its statements, one after the other.
-/

namespace Script

/-! ### The tokens of a tree -/

/-- The pieces, with one comma between neighbours, make up the tokens. -/
inductive Tokens.CommaSeparated : List Tokens → Tokens → Prop where
  /-- No piece at all. -/
  | nil : CommaSeparated [] []
  /-- The last piece. -/
  | last (ts : Tokens) : CommaSeparated [ts] ts
  /-- A piece with a comma and more pieces behind it. -/
  | more (ts : Tokens) {us vs : Tokens} {pieces : List Tokens} {c : Token}
      (hcomma : c.kind = .comma) (hmore : CommaSeparated (us :: pieces) vs) :
      CommaSeparated (ts :: us :: pieces) (ts ++ c :: vs)

mutual

/-- The tokens are those of the expression, in their order. -/
inductive Expr.Yields : Expr → Tokens → Prop where
  /-- A name. -/
  | identifier (name : Identifier) : Expr.Yields (.identifier name) [name.token]
  /-- A number. -/
  | integer (t : Token) (v : Int64) : Expr.Yields (.integer t v) [t]
  /-- A truth value. -/
  | boolean (t : Token) (v : Bool) : Expr.Yields (.boolean t v) [t]
  /-- Parentheses around an expression. -/
  | parens {e : Expr} {ts : Tokens} {o c : Token} (hopen : o.kind = .lparen)
      (hclose : c.kind = .rparen) (h : e.Yields ts) : Expr.Yields e (o :: (ts ++ [c]))
  /-- An operator in front of its operand. -/
  | prefixOp (t : Token) (operator : String) {r : Expr} {rs : Tokens} (hright : r.Yields rs) :
      Expr.Yields (.prefixOp t operator r) (t :: rs)
  /-- An operator between its operands. -/
  | infixOp (t : Token) (operator : String) {l r : Expr} {ls rs : Tokens} (hleft : l.Yields ls)
      (hright : r.Yields rs) : Expr.Yields (.infixOp t l operator r) (ls ++ t :: rs)
  /-- A choice. -/
  | conditional (t : Token) {c k : Expr} {a : Option Expr} {cs ks as : Tokens}
      (hcondition : c.Yields cs) (hconsequence : k.Yields ks)
      (halternative : Expr.YieldsAlternative a as) :
      Expr.Yields (.conditional t c k a) (t :: (cs ++ (ks ++ as)))
  /-- A block. -/
  | block (t : Token) {ss : List Stmt} {pieces : List Tokens} {c : Token}
      (hbody : List.Forall₂ Stmt.Yields ss pieces) (hclose : c.kind = .rbrace) :
      Expr.Yields (.block t ss) (t :: (pieces.flatten ++ [c]))
  /-- A function. -/
  | function (t : Token) {xs : List Identifier} {e : Expr} {o c : Token} {ps es : Tokens}
      (hopen : o.kind = .lparen)
      (hparameters : Tokens.CommaSeparated (xs.map fun x => [x.token]) ps)
      (hclose : c.kind = .rparen) (hbody : e.Yields es) :
      Expr.Yields (.function t xs e) (t :: o :: (ps ++ c :: es))
  /-- A call. -/
  | call (t : Token) {f : Expr} {es : List Expr} {fs as : Tokens} {pieces : List Tokens}
      {c : Token} (hcallee : f.Yields fs) (hvalues : List.Forall₂ Expr.Yields es pieces)
      (harguments : Tokens.CommaSeparated pieces as) (hclose : c.kind = .rparen) :
      Expr.Yields (.call t f es) (fs ++ t :: (as ++ [c]))

/-- The tokens are those of the alternative of a choice, with the word `else`. -/
inductive Expr.YieldsAlternative : Option Expr → Tokens → Prop where
  /-- There is no alternative. -/
  | none : Expr.YieldsAlternative none []
  /-- The word and the alternative. -/
  | some {t : Token} {e : Expr} {es : Tokens} (hword : t.kind = .kwElse) (h : e.Yields es) :
      Expr.YieldsAlternative (some e) (t :: es)

/-- The tokens are those of the statement, in their order.  An expression that is a
statement has the first of them as its own. -/
inductive Stmt.Yields : Stmt → Tokens → Prop where
  /-- A binding of a name. -/
  | letBinding (t : Token) (x : Identifier) {v : Expr} {a : Token} {vs ending : Tokens}
      (hassign : a.kind = .assign) (hvalue : v.Yields vs) (hending : ending.IsEnding) :
      Stmt.Yields (.letBinding t x v) (t :: x.token :: a :: (vs ++ ending))
  /-- A value that is handed back. -/
  | returnValue (t : Token) {v : Expr} {vs ending : Tokens} (hvalue : v.Yields vs)
      (hending : ending.IsEnding) : Stmt.Yields (.returnValue t v) (t :: (vs ++ ending))
  /-- An expression that stands alone. -/
  | expression {t : Token} {e : Expr} {es ending : Tokens} (hvalue : e.Yields es)
      (hfirst : es.head? = some t) (hending : ending.IsEnding) :
      Stmt.Yields (.expression t e) (es ++ ending)

end

theorem Stmt.Yields.head_eq {t : Token} {e : Expr} {ts : Tokens}
    (h : (Stmt.expression t e).Yields ts) : ts.head? = some t := by
  cases h with
  | expression hvalue hfirst hending => rw [List.head?_append, hfirst, Option.some_or]

/-! ### Phrases -/

/-- The tokens that the phrase takes off the front of `ts` are those of what it is
understood as.  Operators are understood together with the expression they continue. -/
def Phrase.Yields (ts rest : Tokens) : Phrase → Prop
  | .expr _ e | .start e => ∃ used, ts = used ++ rest ∧ e.Yields used
  | .operators _ left e => ∃ used, ts = used ++ rest ∧ ∀ ls, left.Yields ls → e.Yields (ls ++ used)
  | .alternative a => ∃ used, ts = used ++ rest ∧ Expr.YieldsAlternative a used
  | .names xs => ∃ used, ts = used ++ rest ∧ xs ≠ [] ∧
      Tokens.CommaSeparated (xs.map fun x => [x.token]) used
  | .parameters xs => ∃ used c, ts = used ++ c :: rest ∧ c.kind = .rparen ∧
      Tokens.CommaSeparated (xs.map fun x => [x.token]) used
  | .values es => ∃ used pieces, ts = used ++ rest ∧ es ≠ [] ∧
      List.Forall₂ Expr.Yields es pieces ∧ Tokens.CommaSeparated pieces used
  | .arguments es => ∃ used pieces c, ts = used ++ c :: rest ∧ c.kind = .rparen ∧
      List.Forall₂ Expr.Yields es pieces ∧ Tokens.CommaSeparated pieces used
  | .statement s => ∃ used, ts = used ++ rest ∧ s.Yields used
  | .statements ss => ∃ pieces c, ts = pieces.flatten ++ c :: rest ∧ c.kind = .rbrace ∧
      List.Forall₂ Stmt.Yields ss pieces

/-- Expressions in parentheses start with a parenthesis. -/
theorem Grammar.standard_grouping {kind : Kind} (h : standard.prefixRule kind = some .grouping) :
    kind = .lparen := by
  cases kind <;> first | rfl | cases h

/-- A phrase is read from its tokens. -/
theorem Reads.yields {φ : Phrase} {n : Nat} {ts rest : Tokens}
    (h : Reads Grammar.standard φ n ts rest) : φ.Yields ts rest := by
  -- each part yields the tokens that it takes, and the rule takes those in between
  induction h with
  | @identifier t ts hrule => exact ⟨[t], rfl, .identifier (.ofToken t)⟩
  | @integer t ts v hrule hvalue => exact ⟨[t], rfl, .integer t v⟩
  | @boolean t ts hrule => exact ⟨[t], rfl, .boolean t _⟩
  | @prefixOp t ts rest r n hrule hright ih =>
    obtain ⟨rs, rfl, hr⟩ := ih
    exact ⟨t :: rs, rfl, .prefixOp t t.literal hr⟩
  | @grouping t c ts rest e n hrule hinner hclose ih =>
    obtain ⟨es, rfl, he⟩ := ih
    refine ⟨t :: (es ++ [c]), ?_, .parens (Grammar.standard_grouping hrule) hclose he⟩
    simp
  | @block t ts rest ss n hrule hbody ih =>
    obtain ⟨pieces, c, rfl, hclose, hss⟩ := ih
    refine ⟨t :: (pieces.flatten ++ [c]), ?_, .block t hss hclose⟩
    simp
  | @conditional t ts us vs rest c k a n m l hrule _ _ _ ihc ihk iha =>
    obtain ⟨cs, rfl, hc⟩ := ihc
    obtain ⟨ks, rfl, hk⟩ := ihk
    obtain ⟨as, rfl, ha⟩ := iha
    refine ⟨t :: (cs ++ (ks ++ as)), ?_, .conditional t hc hk ha⟩
    simp
  | @function t o ts us rest xs e n hrule hopen hparameters hbody ihp ihb =>
    obtain ⟨ps, c, rfl, hclose, hp⟩ := ihp
    obtain ⟨es, rfl, he⟩ := ihb
    refine ⟨t :: o :: (ps ++ c :: es), ?_, .function t hopen hp hclose he⟩
    simp
  | noAlternative hahead => exact ⟨[], rfl, .none⟩
  | @someAlternative t ts rest e n hword hvalue ih =>
    obtain ⟨es, rfl, he⟩ := ih
    exact ⟨t :: es, rfl, .some hword he⟩
  | @lastName t rest hname hahead => exact ⟨[t], rfl, List.cons_ne_nil _ _, .last [t]⟩
  | @moreNames t c ts rest xs hname hcomma hnames ih =>
    obtain ⟨used, rfl, hne, hxs⟩ := ih
    refine ⟨t :: c :: used, rfl, List.cons_ne_nil _ _, ?_⟩
    -- behind a comma there is a name
    cases xs with
    | nil => exact absurd rfl hne
    | cons x xs => exact .more [t] hcomma hxs
  | @noParameters c rest hclose => exact ⟨[], c, rfl, hclose, .nil⟩
  | @someParameters c ts rest xs hnames hclose ih =>
    obtain ⟨used, rfl, -, hxs⟩ := ih
    exact ⟨used, c, rfl, hclose, hxs⟩
  | @lastValue ts rest e n hvalue hahead ih =>
    obtain ⟨es, rfl, he⟩ := ih
    exact ⟨es, [es], rfl, List.cons_ne_nil _ _, .cons he .nil, .last es⟩
  | @moreValues c ts us rest e es n m hvalue hcomma hvalues ihe ihes =>
    obtain ⟨used, rfl, he⟩ := ihe
    obtain ⟨more, pieces, rfl, hne, hes, hseparated⟩ := ihes
    refine ⟨used ++ c :: more, used :: pieces, by simp, List.cons_ne_nil _ _, .cons he hes, ?_⟩
    cases hes with
    | nil => exact absurd rfl hne
    | cons hfirst hes => exact .more used hcomma hseparated
  | @noArguments c rest hclose => exact ⟨[], [], c, rfl, hclose, .nil, .nil⟩
  | @someArguments c ts rest es n hfirst hvalues hclose ih =>
    obtain ⟨used, pieces, rfl, -, hes, hseparated⟩ := ih
    exact ⟨used, pieces, c, rfl, hclose, hes, hseparated⟩
  | stop hstop =>
    refine ⟨[], rfl, ?_⟩
    intro ls hls
    rwa [List.append_nil]
  | @infixOp power q left r e t ts us rest n m hgoes hright hmore ihr ihe =>
    obtain ⟨rs, rfl, hr⟩ := ihr
    obtain ⟨used, rfl, he⟩ := ihe
    refine ⟨t :: (rs ++ used), by simp, ?_⟩
    intro ls hls
    -- the operator and its right operand are taken first, and belong to `left` from then on
    have hleft := he (ls ++ t :: rs) (.infixOp t t.literal hls hr)
    rwa [List.append_assoc] at hleft
  | @call power q left e es t ts us rest n m hgoes harguments hmore ihes ihe =>
    obtain ⟨as, pieces, c, rfl, hclose, hes, hseparated⟩ := ihes
    obtain ⟨used, rfl, he⟩ := ihe
    refine ⟨t :: (as ++ c :: used), by simp, ?_⟩
    intro ls hls
    -- so are the arguments of a call
    have hleft := he (ls ++ t :: (as ++ [c])) (.call t hls hes hseparated hclose)
    simpa using hleft
  | @expr power left e ts us rest n m hstart hmore ihs ihm =>
    obtain ⟨ls, rfl, hl⟩ := ihs
    obtain ⟨used, rfl, he⟩ := ihm
    exact ⟨ls ++ used, (List.append_assoc ls used _).symm, he ls hl⟩
  | @letBinding t x a ts us v n hrule hname hassign hvalue ih =>
    obtain ⟨vs, rfl, hv⟩ := ih
    obtain ⟨ending, hending, hus⟩ := us.exists_ending
    refine ⟨t :: x :: a :: (vs ++ ending), ?_, .letBinding t (.ofToken x) hassign hv hending⟩
    rw [List.cons_append, List.cons_append, List.cons_append, List.append_assoc, ← hus]
  | @returnValue t ts us v n hrule hvalue ih =>
    obtain ⟨vs, rfl, hv⟩ := ih
    obtain ⟨ending, hending, hus⟩ := us.exists_ending
    refine ⟨t :: (vs ++ ending), ?_, .returnValue t hv hending⟩
    rw [List.cons_append, List.append_assoc, ← hus]
  | @expression t ts us e n hrule hvalue ih =>
    obtain ⟨es, hes, he⟩ := ih
    obtain ⟨ending, hending, hus⟩ := us.exists_ending
    -- the expression takes a token, which is the first one of the statement
    have hlength := hvalue.length_lt_of_expr
    have hfirst : es.head? = some t := by
      cases es with
      | nil =>
        rw [List.nil_append] at hes
        rw [hes] at hlength
        exact absurd hlength (Nat.lt_irrefl _)
      | cons u es => exact congrArg some (List.cons.inj hes).1.symm
    refine ⟨es ++ ending, ?_, .expression he hfirst hending⟩
    rw [List.append_assoc, ← hus, hes]
  | @noStatements c rest hclose => exact ⟨[], c, rfl, hclose, .nil⟩
  | @moreStatements ts us rest s ss n m hbrace heof hstatement hstatements ihs ihss =>
    obtain ⟨used, rfl, hs⟩ := ihs
    obtain ⟨pieces, c, rfl, hclose, hss⟩ := ihss
    refine ⟨used :: pieces, c, ?_, hclose, .cons hs hss⟩
    rw [List.flatten_cons, List.append_assoc]

/-! ### Statements and programs -/

namespace Grammar

/-- What is read as a statement without a diagnostic are the tokens of the statement,
and the last of them is the token at which the statement is left. -/
theorem statement_yields {room : Nat} {ts out : Tokens} {s : Stmt}
    (h : standard.statement room ts = .ok s out []) :
    ∃ before last rest, ts = before ++ last :: rest ∧ out = last :: rest ∧
      s.Yields (before ++ [last]) := by
  obtain ⟨n, last, rest, rfl, hread⟩ := statement_readTo stopsAtEof_standard room h
  obtain ⟨used, hts, hs⟩ := hread.yields
  -- nothing but the front of the tokens has been dropped
  have hsuffix : last :: rest <:+ ts := by
    have hleaves := settles_statement wellFounded_standard room ts
    rwa [h] at hleaves
  obtain ⟨before, hbefore⟩ := hsuffix
  have hused : used ++ rest = (before ++ [last]) ++ rest := by
    rw [← hts, ← hbefore, List.append_assoc]
    rfl
  rw [List.append_cancel_right hused] at hs
  exact ⟨before, last, rest, hbefore.symm, rfl, hs⟩

/-- What is read as statements without a diagnostic are the tokens of the statements. -/
theorem programStatements_yields {room rounds : Nat} {ts out : Tokens} {ss : List Stmt}
    (hts : ∀ t ∈ ts, t.kind ≠ .eof)
    (h : programStatements (standard.statement room) rounds ts = .ok ss out []) :
    ∃ pieces : List Tokens, ts = pieces.flatten ∧ List.Forall₂ Stmt.Yields ss pieces := by
  induction rounds generalizing ts ss with
  | zero => cases h
  | succ rounds ih =>
    rw [programStatements, Step.current_bind] at h
    by_cases heof : ts.current.kind = .eof
    · rw [if_pos heof] at h
      obtain ⟨rfl, -⟩ := Step.pure_eq_ok h
      cases ts with
      | nil => exact ⟨[], rfl, .nil⟩
      | cons t ts => exact absurd heof (hts t List.mem_cons_self)
    · rw [if_neg heof] at h
      obtain ⟨result, mid, hattempt, hmore⟩ := Step.bind_eq_ok h
      -- a statement that cannot be read would have been recorded
      rcases Step.attempt_eq_ok hattempt with ⟨s, rfl, hs⟩ | ⟨diagnostic, rfl⟩
      · obtain ⟨before, last, rest, rfl, rfl, hyields⟩ := statement_yields hs
        dsimp only at hmore
        rw [Step.advance_bind, List.tail_cons] at hmore
        obtain ⟨ss, mid, hss, hpure⟩ := Step.bind_eq_ok hmore
        obtain ⟨rfl, rfl⟩ := Step.pure_eq_ok hpure
        obtain ⟨pieces, rfl, hpieces⟩ :=
          ih (fun t ht => hts t (List.mem_append_right _ (List.mem_cons_of_mem _ ht))) hss
        refine ⟨(before ++ [last]) :: pieces, ?_, .cons hyields hpieces⟩
        rw [List.flatten_cons, List.append_assoc]
        rfl
      · dsimp only at hmore
        obtain ⟨_, mid, hrecord, -⟩ := Step.bind_eq_ok hmore
        cases hrecord

end Grammar

/-- A statement that any parser for the language reads without a diagnostic yields the
tokens from the one at which the parser starts to the one at which it stops. -/
theorem Parser.parseStatement_yields {p q : Parser} {s : Stmt} (hp : p.grammar = .standard)
    (h : p.parseStatement = some (.ok s, q)) (hq : q.diagnostics = p.diagnostics) :
    ∃ before last after, p.tokens = before ++ last :: after ∧ q.tokens = last :: after ∧
      s.Yields (before ++ [last]) := by
  rw [parseStatement, run, hp] at h
  cases hstep : Grammar.standard.statement p.room p.tokens with
  | ok v out log =>
    simp only [hstep, Option.some.injEq, Prod.mk.injEq, Except.ok.injEq] at h
    obtain ⟨rfl, rfl⟩ := h
    -- the diagnostics are the same, so that none has been recorded
    have hlog : log = [] := List.append_right_eq_self.1 hq
    subst hlog
    obtain ⟨before, last, after, hts, hout, hyields⟩ := Grammar.statement_yields hstep
    exact ⟨before, last, after, hts, hout, hyields⟩
  | fail diagnostic out log =>
    simp only [hstep, Option.some.injEq, Prod.mk.injEq] at h
    cases h.1
  | diverges =>
    simp only [hstep] at h
    cases h

/-- A source that is parsed without a diagnostic is the yields of its statements. -/
theorem parse_yields {source : String} {program : Program} (h : parse source = (program, [])) :
    ∃ pieces : List Tokens, tokenize source = pieces.flatten ++ [Token.eof] ∧
      List.Forall₂ Stmt.Yields program.statements pieces := by
  obtain ⟨rest, hok⟩ := exists_programStatements_of_parse h
  have hkinds : ∀ t ∈ Lexer.tokens source.toList, t.kind ≠ .eof :=
    fun t ht => (Lexer.spelled_of_mem_tokens ht).kind_ne_eof
  obtain ⟨pieces, hpieces, hyields⟩ := Grammar.programStatements_yields hkinds hok
  exact ⟨pieces, congrArg (· ++ [Token.eof]) hpieces, hyields⟩

/-- **Reading is sound.**  A statement that is read without a diagnostic yields the
tokens that it was read from, with the first of them as its own if it is an expression;
and a source that is parsed without a diagnostic is the yields of its statements. -/
theorem parseStatement_parse_yields :
    (∀ (p q : Parser) (s : Stmt), p.grammar = .standard → p.parseStatement = some (.ok s, q) →
      q.diagnostics = p.diagnostics →
      ∃ before last after, p.tokens = before ++ last :: after ∧ q.tokens = last :: after ∧
        s.Yields (before ++ [last]) ∧
        ∀ t e, s = .expression t e → (before ++ [last]).head? = some t) ∧
    ∀ (source : String) (program : Program), parse source = (program, []) →
      ∃ pieces : List Tokens, tokenize source = pieces.flatten ++ [Token.eof] ∧
        List.Forall₂ Stmt.Yields program.statements pieces := by
  constructor
  · intro p q s hp h hq
    obtain ⟨before, last, after, hbefore, hafter, hyields⟩ := p.parseStatement_yields hp h hq
    refine ⟨before, last, after, hbefore, hafter, hyields, ?_⟩
    rintro t e rfl
    exact hyields.head_eq
  · intro source program h
    exact parse_yields h

/-- The tokens of the source `let x = y;`. -/
def Tokens.copying : Tokens :=
  [⟨.kwLet, "let"⟩, ⟨.ident, "x"⟩, ⟨.assign, "="⟩, ⟨.ident, "y"⟩, ⟨.semicolon, ";"⟩]

/-- The statement of the source `let x = y;`. -/
def Stmt.copying : Stmt :=
  .letBinding ⟨.kwLet, "let"⟩ (.ofToken ⟨.ident, "x"⟩) (.identifier (.ofToken ⟨.ident, "y"⟩))

theorem Tokens.tokens_copying : Lexer.tokens "let x = y ;".toList = copying := by
  have hspelled : ∀ t ∈ copying, t.Spelled := by
    simp only [copying, List.forall_mem_cons]
    exact ⟨Token.spelled_word "let" (by decide) (by decide),
      Token.spelled_word "x" (by decide) (by decide), .sign (c := '=') rfl rfl rfl,
      Token.spelled_word "y" (by decide) (by decide), .sign (c := ';') rfl rfl rfl,
      List.forall_mem_nil _⟩
  exact Lexer.tokens_spaced hspelled

theorem parse_copying : parse "let x = y ;" = (⟨[.copying]⟩, []) := by
  have hread : Grammar.programStatements (Grammar.standard.statement maxNesting)
      (Tokens.copying.length + 1) Tokens.copying = .ok [.copying] [] [] := rfl
  rw [← Tokens.tokens_copying] at hread
  exact parse_of_statements hread

/-- A binding is read from its tokens, by a parser for them and as a source. -/
theorem parseStatement_parse_yields_copying :
    let p : Parser := ⟨Tokens.copying, [], 0, .standard⟩
    let q : Parser := ⟨[⟨.semicolon, ";"⟩], [], 0, .standard⟩
    (p.parseStatement = some (.ok .copying, q) ∧
      ∃ before last after, p.tokens = before ++ last :: after ∧ q.tokens = last :: after ∧
        Stmt.copying.Yields (before ++ [last]) ∧
        ∀ t e, Stmt.copying = .expression t e → (before ++ [last]).head? = some t) ∧
    parse "let x = y ;" = (⟨[.copying]⟩, []) ∧
      ∃ pieces : List Tokens, tokenize "let x = y ;" = pieces.flatten ++ [Token.eof] ∧
        List.Forall₂ Stmt.Yields [Stmt.copying] pieces := by
  intro p q
  have hstatement : p.parseStatement = some (.ok .copying, q) := rfl
  refine ⟨⟨hstatement, parseStatement_parse_yields.1 p q .copying rfl hstatement rfl⟩, ?_⟩
  exact ⟨parse_copying, parseStatement_parse_yields.2 "let x = y ;" ⟨[.copying]⟩ parse_copying⟩

end Script
