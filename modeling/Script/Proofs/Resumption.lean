import Script.Proofs.Block
import Script.Tree.Equality

/-!
# Reading on behind a broken statement

A statement that cannot be read is skipped up to the next `;`, `let` or `return`, and in a block
at most up to a closing brace.  What stands behind is then read as it is alone, with two
exceptions.  Recovery moves on at least once, so that a `let` or `return` is lost on which the
broken statement has already ended.  And in a block it stops at every closing brace, be it that
of a block inside the broken statement, so that the block ends there.

## Main definitions

* `Tokens.Balanced` — every closing brace closes a block, and every block is closed.
* `Parser.GivesUp` — where a parser gives up the statements of a program.
* `Grammar.Confined` — what is left of a text is given up behind its last closing brace.

## Main results

* `Step.collect_append_starting` — a program goes on at the `let` or `return` behind a text.
* `parse_append_starting` — a text, and another one that starts with such a word.
* `Grammar.splices_of_confined` — recovery from a confined text does not end the block.
* `parse_braced_append` — a block goes on behind a text and a `;`.
* `parse_braced_resumes` — so it does behind a broken statement.
-/

namespace Script

open Tokens

/-! ### Words that start statements -/

namespace Tokens

variable {ts us : Tokens}

theorem border_of_startsStatement (hus : startsStatement us.current.kind = true) :
    Border us [] := by
  have hnil : Token.eof.kind ∈ Kind.borders := by decide
  rcases startsStatement_iff.1 hus with hkind | hkind
  · exact ⟨by rw [hkind]; decide, hnil, by rw [hkind]; decide⟩
  · exact ⟨by rw [hkind]; decide, hnil, by rw [hkind]; decide⟩

/-- Recovery stops in front of such a word, unless it starts there. -/
theorem recover_append_starting (hus : startsStatement us.current.kind = true) (hts : ts ≠ []) :
    recover false (ts ++ us) = recover false ts ++ us := by
  induction ts with
  | nil => exact absurd rfl hts
  | cons t ts ih =>
    rw [List.cons_append]
    by_cases hsemicolon : t.kind = .semicolon
    · rw [recover_semicolon hsemicolon, recover_semicolon hsemicolon]
    · by_cases hnil : ts = []
      · subst hnil
        rw [recover_plain hsemicolon plain_nil, List.nil_append, recover,
          if_neg (by simp), if_neg hsemicolon, if_pos hus]
      · have hgo : ¬(false && t.kind = .rbrace) = true := by simp
        rw [recover, recover, if_neg hgo, if_neg hgo, if_neg hsemicolon, if_neg hsemicolon,
          current_append_of_ne_nil hnil, ih hnil]
        split <;> rfl

end Tokens

/-- The diagnostic is not raised at the end of the source, or because something else had been
expected there. -/
def Diagnostic.BeforeEnd (diagnostic : Diagnostic) : Prop :=
  diagnostic.token.kind = .eof →
    ∃ expected found, diagnostic.fault = .unexpectedToken expected found

section

variable {ts us rest : Tokens} {room : Nat} {value : Round} {log : List Diagnostic}

/-- In front of a word that starts a statement, a round reads or skips the same statement as at
the end of the source, unless it moves on to the end. -/
theorem Grammar.programRound_append_starting (hus : startsStatement us.current.kind = true)
    (hts : Closed 0 ts) (heof : ts.current.kind ≠ .eof)
    (hround : programRound (standard.statement room) ts = .ok value rest log)
    (hlog : ∀ d ∈ log, d.BeforeEnd) :
    ∃ log', programRound (standard.statement room) (ts ++ us) = .ok value (rest ++ us) log' := by
  have hne := ne_nil_of_current_kind heof
  have heof' : (current (ts ++ us)).kind ≠ .eof := by rwa [current_append_of_ne_nil hne]
  have hreplies : Reply.Bordered us [] False 0 (fun _ => Over us 0)
      (standard.statement room (ts ++ us)) (standard.statement room (ts ++ [])) :=
    bordered_statement (border_of_startsStatement hus) (Nat.le_refl room)
      (Nat.lt_irrefl room) hts fun hnil => absurd hnil hne
  rw [List.append_nil] at hreplies
  generalize hfirst : standard.statement room (ts ++ us) = reply₁ at hreplies
  generalize hsecond : standard.statement room ts = reply₂ at hreplies
  cases hreplies with
  | @ok s out log' hout =>
    rw [programRound_of_ok heof hsecond, List.append_nil] at hround
    cases hround
    have hreached := hout.resolve_right fun hover => by
      rw [hover.2.2] at hus
      cases hus
    exact ⟨_, by rw [programRound_of_ok heof' hfirst, tail_append hreached.ne_nil]⟩
  | @fail d₁ d₂ out log' hout hdiagnostic =>
    rw [programRound_of_fail heof hsecond, List.append_nil] at hround
    cases hround
    have hout : out ≠ [] := by
      intro hnil
      obtain ⟨htoken, hfault⟩ := hdiagnostic.atEnd hnil
      obtain ⟨expected, found, hunexpected⟩ := hlog d₂ (by simp) (by rw [htoken]; rfl)
      exact hfault expected found hunexpected
    exact ⟨_, by rw [programRound_of_fail heof' hfirst, recover_append_starting hus hout]⟩
  | tooDeep hloose hnesting => exact hloose.elim

/-- So do all of them, and the program goes on with the word. -/
theorem Step.collect_append_starting (hus : startsStatement us.current.kind = true)
    (hts : Closed 0 ts) (heof : ∀ t ∈ ts, t.kind ≠ .eof) {ss : List Stmt} {out : Tokens}
    {m n : Nat}
    (hown : collect (Grammar.programRound (Grammar.standard.statement room)) m ts = .ok ss out log)
    (hlog : ∀ d ∈ log, d.BeforeEnd) (hn : (ts ++ us).length < n) :
    ∃ log', collect (Grammar.programRound (Grammar.standard.statement room)) n (ts ++ us) =
      ((bounded (collect (Grammar.programRound (Grammar.standard.statement room))) >>=
        fun more => pure (ss ++ more)) us).after log' := by
  have hsettles := Grammar.settles_statement Grammar.wellFounded_standard room
  have hprogress := Grammar.progresses_programRound hsettles
  induction m generalizing ts ss log n with
  | zero => cases hown
  | succ m ih =>
    cases n with
    | zero => omega
    | succ n =>
      by_cases hnil : ts = []
      · -- the second text starts here, and there are as many rounds left as it needs
        subst hnil
        rw [collect, bind_of_ok (Grammar.programRound_of_eof rfl)] at hown
        cases hown
        have hbounded : collect (Grammar.programRound (Grammar.standard.statement room)) (n + 1)
            us = bounded (collect (Grammar.programRound (Grammar.standard.statement room))) us :=
          collect_eq_of_lt hprogress hn (Nat.lt_succ_self _)
        refine ⟨[], ?_⟩
        simp only [List.nil_append, bind_pure, Reply.after_nil, hbounded]
      · -- a round leaves the same with the second text behind it
        have hcurrent := heof _ (current_mem hnil)
        obtain ⟨value, rest, log₁, hround, hgoes, hrest⟩ :=
          Grammar.exists_programRound hsettles hcurrent
        obtain ⟨more, log₂, hmore, rfl, rfl⟩ := exists_of_collect_of_goesOn hround hgoes hown
        rw [List.forall_mem_append] at hlog
        obtain ⟨log₁', hround'⟩ :=
          Grammar.programRound_append_starting hus hts hcurrent hround hlog.1
        have hlt := hprogress.length_lt hround hgoes
        have hlength : (rest ++ us).length < n := by
          rw [List.length_append] at hn ⊢
          omega
        obtain ⟨log₂', hmore'⟩ := ih (hts.of_suffix hrest)
          (fun t ht => heof t (hrest.subset ht)) hmore hlog.2 hlength
        exact ⟨log₁' ++ log₂', collect_append_of_goesOn hround' hgoes hmore'⟩

end

/-- **Recovery keeps the statement that follows.**  If a text opens no block, and the next one
starts with `let` or `return`, then the statements of both are those of the one and of the
other.  The one must not be given up where it has already ended: then recovery, which moves on
at least once, skips the word with which the other one starts. -/
theorem parse_append_starting {a b : String} (hbrace : ∀ t ∈ tokenize a, t.kind ≠ .lbrace)
    (hstart : (current (tokenize b)).kind = .kwLet ∨ (current (tokenize b)).kind = .kwReturn)
    (hfound : ∀ d ∈ (parse a).2, d.token.kind = .eof →
      ∃ expected found, d.fault = .unexpectedToken expected found) :
    (parse (a ++ " " ++ b)).1.statements =
      (parse a).1.statements ++ (parse b).1.statements := by
  have hus : startsStatement (current (Lexer.tokens b.toList)).kind = true := by
    rw [tokenize_eq] at hstart
    cases hb : Lexer.tokens b.toList with
    | nil =>
      rw [hb] at hstart
      rcases hstart with hkind | hkind <;> cases hkind
    | cons t ts =>
      rw [hb] at hstart
      rcases hstart with hkind | hkind <;> simp [startsStatement, show t.kind = _ from hkind]
  obtain ⟨out, hown⟩ := exists_collect_of_parse a
  obtain ⟨rest, hb⟩ := exists_collect_of_parse b
  obtain ⟨log, hboth⟩ := Step.collect_append_starting hus
    (closed_of_ne_lbrace (ne_of_mem_tokenize hbrace)) Lexer.kind_ne_eof hown hfound
    (Nat.lt_succ_self _)
  rw [Step.bind_of_ok hb, Step.pure_apply, Reply.after_ok, Reply.after_ok,
    ← Lexer.tokens_append_space] at hboth
  rw [parse_of_collect (Nat.lt_succ_self _) hboth]

/-- A binding that ends behind its name does not hide the one that follows. -/
theorem parse_append_starting_binding :
    ((∀ t ∈ tokenize "let x", t.kind ≠ .lbrace) ∧
      (current (tokenize "let y = 5;")).kind = .kwLet ∧
      ∀ d ∈ (parse "let x").2, d.token.kind = .eof →
        ∃ expected found, d.fault = .unexpectedToken expected found) ∧
    (parse ("let x" ++ " " ++ "let y = 5;")).1.statements =
      (parse "let x").1.statements ++ (parse "let y = 5;").1.statements := by
  have hbrace : ∀ t ∈ tokenize "let x", t.kind ≠ .lbrace := by decide +kernel
  have hstart : (current (tokenize "let y = 5;")).kind = .kwLet := by decide +kernel
  have hlog : (parse "let x").2 = [⟨.unexpectedToken .assign .eof, Token.eof⟩] := by
    decide +kernel
  have hfound : ∀ d ∈ (parse "let x").2, d.token.kind = .eof →
      ∃ expected found, d.fault = .unexpectedToken expected found := by
    rw [hlog, List.forall_mem_singleton]
    exact fun _ => ⟨.assign, .eof, rfl⟩
  exact ⟨⟨hbrace, hstart, hfound⟩, parse_append_starting hbrace (.inl hstart) hfound⟩

/-- One that ends behind the sign does hide it: the value that is missing is noticed on the
word that follows, and recovery moves on from there. -/
theorem parse_append_starting_lost :
    (∀ t ∈ tokenize "let x =", t.kind ≠ .lbrace) ∧
    (∀ t ∈ (tokenize "let x =").tail, t.kind ∉ [Kind.semicolon, .kwLet, .kwReturn]) ∧
    (current (tokenize "let y = 5;")).kind = .kwLet ∧
    (parse ("let x =" ++ " " ++ "let y = 5;")).1.statements ≠
      (parse "let x =").1.statements ++ (parse "let y = 5;").1.statements := by
  decide +kernel

/-! ### Blocks -/

namespace Tokens

/-- Whether every closing brace closes a block, where so many are open, and every block is
closed. -/
def balanced : Nat → Tokens → Bool
  | level, [] => level == 0
  | level, t :: ts =>
    if t.kind = .lbrace then balanced (level + 1) ts
    else if t.kind = .rbrace then level != 0 && balanced (level - 1) ts
    else balanced level ts

/-- Every closing brace closes a block, and every block is closed. -/
def Balanced (ts : Tokens) : Prop := balanced 0 ts = true

instance (ts : Tokens) : Decidable ts.Balanced := inferInstanceAs (Decidable (_ = true))

variable {level : Nat} {t : Token} {ts us rest : Tokens}

theorem closed_of_balanced (h : balanced level ts = true) : Closed level ts := by
  induction ts generalizing level with
  | nil => exact beq_iff_eq.1 h
  | cons t ts ih =>
    rw [balanced] at h
    by_cases hopen : t.kind = .lbrace
    · rw [if_pos hopen] at h
      exact (closed_lbrace hopen).2 (ih h)
    · rw [if_neg hopen] at h
      by_cases hclose : t.kind = .rbrace
      · rw [if_pos hclose, Bool.and_eq_true] at h
        exact (closed_rbrace hclose).2 (ih h.2)
      · rw [if_neg hclose] at h
        exact (closed_cons hopen hclose).2 (ih h)

/-- A last token that is no brace makes no difference. -/
theorem Closed.of_concat (hopen : t.kind ≠ .lbrace) (hclose : t.kind ≠ .rbrace)
    (h : Closed level (ts ++ [t])) : Closed level ts := by
  induction ts generalizing level with
  | nil => exact (closed_cons hopen hclose).1 h
  | cons u us ih =>
    by_cases hu : u.kind = .lbrace
    · exact (closed_lbrace hu).2 (ih ((closed_lbrace hu).1 h))
    · by_cases hv : u.kind = .rbrace
      · exact (closed_rbrace hv).2 (ih ((closed_rbrace hv).1 h))
      · exact (closed_cons hu hv).2 (ih ((closed_cons hu hv).1 h))

end Tokens

/-! ### Where statements are given up -/

namespace Parser

/-- Reading a program from `p` on, the parser gives up a statement and stands at `q`. -/
inductive GivesUp : Parser → Parser → Prop where
  /-- It gives up the first statement. -/
  | here {p q : Parser} {diagnostic : Diagnostic} (heof : p.current.kind ≠ .eof)
      (h : p.parseStatement = some (.error diagnostic, q)) : GivesUp p q
  /-- It gives up another one behind a statement that has been given up. -/
  | afterError {p q r : Parser} {diagnostic : Diagnostic} (heof : p.current.kind ≠ .eof)
      (h : p.parseStatement = some (.error diagnostic, q))
      (hmore : GivesUp ((q.record diagnostic).synchronize false) r) : GivesUp p r
  /-- It gives up another one behind a statement that has been read. -/
  | afterStatement {p q r : Parser} {statement : Stmt} (heof : p.current.kind ≠ .eof)
      (h : p.parseStatement = some (.ok statement, q)) (hmore : GivesUp q.advance.2 r) : GivesUp p r

variable {p : Parser} {rest : Tokens} {log : List Diagnostic}

theorem parseStatement_of_ok {s : Stmt} (hgrammar : p.grammar = .standard) (hdepth : p.depth = 0)
    (h : Grammar.standard.statement maxNesting p.tokens = .ok s rest log) :
    p.parseStatement =
      some (.ok s, { p with tokens := rest, diagnostics := p.diagnostics ++ log }) := by
  rw [parseStatement, run, room, hgrammar, hdepth, Nat.sub_zero, h]

theorem parseStatement_of_fail {diagnostic : Diagnostic} (hgrammar : p.grammar = .standard)
    (hdepth : p.depth = 0)
    (h : Grammar.standard.statement maxNesting p.tokens = .fail diagnostic rest log) :
    p.parseStatement =
      some (.error diagnostic, { p with tokens := rest, diagnostics := p.diagnostics ++ log }) := by
  rw [parseStatement, run, room, hgrammar, hdepth, Nat.sub_zero, h]

/-- If recovery from the first statement leads to the end of the source, this is the only one
that is given up. -/
theorem GivesUp.tokens_eq {q : Parser} {diagnostic : Diagnostic} (hgrammar : p.grammar = .standard)
    (hdepth : p.depth = 0)
    (hfail : Grammar.standard.statement maxNesting p.tokens = .fail diagnostic rest log)
    (hend : rest.recover false = []) (h : p.GivesUp q) : q.tokens = rest := by
  have hparse := parseStatement_of_fail hgrammar hdepth hfail
  cases h with
  | here _ h =>
    rw [hparse] at h
    cases h
    rfl
  | afterError _ h hmore =>
    rw [hparse] at h
    cases h
    have hnone (r : Parser) (hr : r.tokens = []) : ¬r.GivesUp q := by
      have heof : r.current.kind = .eof := by rw [current, hr]; rfl
      rintro (⟨hne, -⟩ | ⟨hne, -, -⟩ | ⟨hne, -, -⟩) <;> exact hne heof
    exact absurd hmore (hnone _ hend)
  | afterStatement _ h hmore =>
    rw [hparse] at h
    cases h

end Parser

namespace Grammar

/-- What is left of a text that closes its blocks and ends in a `;`, where a parser gives up
statements only after it has passed the last closing brace. -/
structure Confined (ts : Tokens) : Prop where
  /-- Unless there is nothing left, the last token is a `;`, and the blocks are closed. -/
  ended : ts ≠ [] → ∃ front s, ts = front ++ [s] ∧ s.kind = .semicolon ∧ Closed 0 front
  /-- The source has not ended. -/
  ne_eof : ∀ t ∈ ts, t.kind ≠ .eof
  /-- No closing brace is left where a statement is given up. -/
  passed : ∃ p : Parser, p.grammar = .standard ∧ p.depth = 0 ∧ p.tokens = ts ∧
    ∀ q, p.GivesUp q → ∀ t ∈ q.tokens, t.kind ≠ .rbrace

variable {ts rest : Tokens} {room : Nat}

theorem Confined.of_suffix (h : Confined ts) (hrest : rest <:+ ts)
    (hpassed : ∃ p : Parser, p.grammar = .standard ∧ p.depth = 0 ∧ p.tokens = rest ∧
      ∀ q, p.GivesUp q → ∀ t ∈ q.tokens, t.kind ≠ .rbrace) : Confined rest where
  ended hne := by
    have hts : ts ≠ [] := by
      rintro rfl
      exact hne (List.suffix_nil.1 hrest)
    obtain ⟨front, s, rfl, hs, hfront⟩ := h.ended hts
    obtain ⟨front', rfl, hsuffix⟩ := (List.suffix_concat_iff.1 hrest).resolve_left hne
    exact ⟨front', s, rfl, hs, hfront.of_suffix hsuffix⟩
  ne_eof t ht := h.ne_eof t (hrest.subset ht)
  passed := hpassed

/-- Where neither a statement nor an expression starts, a statement is given up at once. -/
theorem statement_of_none (hstatement : standard.statementRule ts.current.kind = none)
    (hrule : standard.prefixRule ts.current.kind = none) :
    standard.statement (room + 1) ts =
      .fail ⟨.noPrefixRule ts.current.kind, ts.current⟩ ts [] := by
  have hexpr : standard.expression (room + 1) .lowest ts =
      .fail ⟨.noPrefixRule ts.current.kind, ts.current⟩ ts [] := by
    rw [expression_succ, expressionWith, Step.current_bind, hrule]
    rfl
  rw [statement, statementWith, Step.current_bind, hstatement]
  change Rule.expressionStmt (standard.expression (room + 1)) ts = _
  rw [Rule.expressionStmt, Step.current_bind, Step.bind_of_fail hexpr]

/-- A statement that is read leaves such a text behind. -/
theorem Confined.of_ok {s : Stmt} {log : List Diagnostic} (h : Confined ts)
    (heof : ts.current.kind ≠ .eof) (hstmt : standard.statement maxNesting ts = .ok s rest log) :
    Confined rest.tail := by
  have hrest := (settles_statement wellFounded_standard maxNesting).suffix_of_ok hstmt
  obtain ⟨p, hgrammar, hdepth, htokens, hpassed⟩ := h.passed
  subst htokens
  have hparse := Parser.parseStatement_of_ok hgrammar hdepth hstmt
  refine h.of_suffix ((List.tail_suffix rest).trans hrest)
    ⟨(Parser.advance { p with tokens := rest, diagnostics := p.diagnostics ++ log }).2,
      hgrammar, hdepth, rfl, ?_⟩
  exact fun q hq => hpassed q (.afterStatement heof hparse hq)

/-- So does recovery from one that is given up. -/
theorem Confined.of_fail {diagnostic : Diagnostic} {log : List Diagnostic} (h : Confined ts)
    (heof : ts.current.kind ≠ .eof)
    (hstmt : standard.statement maxNesting ts = .fail diagnostic rest log) :
    Confined (rest.recover false) := by
  have hrest := (settles_statement wellFounded_standard maxNesting).suffix_of_fail hstmt
  obtain ⟨p, hgrammar, hdepth, htokens, hpassed⟩ := h.passed
  subst htokens
  have hparse := Parser.parseStatement_of_fail hgrammar hdepth hstmt
  refine h.of_suffix ((rest.recover_suffix false).trans hrest)
    ⟨(Parser.record { p with tokens := rest, diagnostics := p.diagnostics ++ log }
      diagnostic).synchronize false, hgrammar, hdepth, rfl, ?_⟩
  exact fun q hq => hpassed q (.afterError heof hparse hq)

/-- There is no closing brace where one is given up. -/
theorem Confined.ne_rbrace {diagnostic : Diagnostic} {log : List Diagnostic} (h : Confined ts)
    (heof : ts.current.kind ≠ .eof)
    (hstmt : standard.statement maxNesting ts = .fail diagnostic rest log) :
    ∀ t ∈ rest, t.kind ≠ .rbrace := by
  obtain ⟨p, hgrammar, hdepth, htokens, hpassed⟩ := h.passed
  subst htokens
  exact hpassed _ (.here heof (Parser.parseStatement_of_fail hgrammar hdepth hstmt))

/-- The statements of such a text are read in a block as they are in a program. -/
theorem splices_of_confined (us : Tokens) (hroom : room ≤ maxNesting) (hts : Confined ts)
    (hne : ts ≠ []) :
    Splices true us (room < maxNesting) Confined (standard.statement maxNesting)
      (standard.statement room) ts := by
  have heof := hts.ne_eof _ (current_mem hne)
  refine ⟨heof, fun _ hbrace => ?_, ?_, ?_⟩
  · -- a closing brace would be where its statement is given up
    have hfail : standard.statement maxNesting ts =
        .fail ⟨.noPrefixRule ts.current.kind, ts.current⟩ ts [] :=
      statement_of_none (by rw [hbrace]; rfl) (by rw [hbrace]; rfl)
    exact hts.ne_rbrace heof hfail _ (current_mem hne) hbrace
  · cases hstmt : standard.statement maxNesting ts with
    | ok statement rest log =>
      exact ⟨_, _, _, programRound_of_ok heof hstmt, Round.goesOn_read statement,
        hts.of_ok heof hstmt⟩
    | fail diagnostic rest log =>
      exact ⟨_, _, _, programRound_of_fail heof hstmt, Round.goesOn_skipped,
        hts.of_fail heof hstmt⟩
    | diverges =>
      exact absurd hstmt (settles_statement wellFounded_standard maxNesting ts).ne_diverges
  · obtain ⟨front, s, rfl, hs, hclosed⟩ := hts.ended hne
    exact spliced_of_closed hs hclosed us hroom true fun _ _ _ _ => hts.ne_rbrace heof

end Grammar

/-! ### Broken statements in blocks -/

theorem Lexer.tokens_append_semicolon (source : String) :
    Lexer.tokens (source ++ " ;").toList = Lexer.tokens source.toList ++ [⟨.semicolon, ";"⟩] := by
  have hsemicolon : Lexer.tokens [';'] = [⟨.semicolon, ";"⟩] := by cbv
  rw [String.toList_append, ← hsemicolon]
  exact tokens_append_blank _ _

theorem Lexer.tokens_append_semicolon_append (a b : String) :
    Lexer.tokens (a ++ " ; " ++ b).toList =
      Lexer.tokens (a ++ " ;").toList ++ Lexer.tokens b.toList := by
  have hspace : a ++ " ;" ++ " " = a ++ " ; " := String.append_assoc
  rw [← hspace, tokens_append_space]

/-- A block goes on behind a text and a `;`, if no closing brace is left where a statement of
the text is given up: its statements are those of the text and those of what follows, which is
read without a diagnostic. -/
theorem parse_braced_append {g s : String} (hbalanced : Balanced (tokenize g))
    (hclean : (parse s).2 = [])
    (hpassed : ∀ q, (Parser.ofString (g ++ " ;")).GivesUp q → ∀ t ∈ q.tokens, t.kind ≠ .rbrace)
    (hnesting : ∀ d ∈ (parse ("\x7b " ++ (g ++ " ; " ++ s) ++ " \x7d")).2,
      d.fault.isNesting = false) :
    parse ("\x7b " ++ (g ++ " ; " ++ s) ++ " \x7d") =
      (⟨[.expression ⟨.lbrace, "\x7b"⟩ (.block ⟨.lbrace, "\x7b"⟩
        ((parse (g ++ " ;")).1.statements ++ (parse s).1.statements))]⟩,
        (parse (g ++ " ;")).2) := by
  have hroom : maxNesting - 1 ≤ maxNesting := Nat.sub_le maxNesting 1
  have hconfined : Grammar.Confined (Lexer.tokens (g ++ " ;").toList) := by
    refine ⟨fun _ => ⟨Lexer.tokens g.toList, ⟨.semicolon, ";"⟩,
      Lexer.tokens_append_semicolon g, rfl, ?_⟩, Lexer.kind_ne_eof,
      ⟨Parser.ofString (g ++ " ;"), rfl, rfl, rfl, hpassed⟩⟩
    exact (closed_of_balanced hbalanced).of_concat (by decide) (by decide)
  have hunbroken : Grammar.Unbroken maxNesting [⟨.rbrace, "\x7d"⟩] (Lexer.tokens s.toList) :=
    Grammar.unbroken_of_parse hclean fun _ => .inr (Grammar.closes_rbrace rfl)
  have htokens : Lexer.tokens (g ++ " ; " ++ s).toList ++ [⟨.rbrace, "\x7d"⟩] =
      Lexer.tokens (g ++ " ;").toList ++ (Lexer.tokens s.toList ++ [⟨.rbrace, "\x7d"⟩]) := by
    rw [Lexer.tokens_append_semicolon_append, List.append_assoc]
  -- a block that is given up would be reported
  have hread : ¬(Step.bounded (Rule.blockStatements (Grammar.standard.statement (maxNesting - 1)))
      (Lexer.tokens (g ++ " ;").toList ++
        (Lexer.tokens s.toList ++ [⟨.rbrace, "\x7d"⟩]))).IsTooDeep := by
    rw [← htokens]
    intro hdeep
    obtain ⟨d, hd, hdeep⟩ := exists_isNesting_of_braced hdeep
    rw [hnesting d hd] at hdeep
    cases hdeep
  have hfirst := (Grammar.blockStatements_append_of_splices
    (fun ts hts hne => Grammar.splices_of_confined _ hroom hts hne) hconfined).resolve_right hread
  have hsecond := (Grammar.blockStatements_append_of_splices
    (fun ts hts hne => Grammar.splices_of_unbroken hroom true hts hne) hunbroken).resolve_right
      fun hdeep => hread (hfirst ▸ (hdeep.bind _).after _)
  rw [Step.bind_of_ok (Grammar.blockStatements_rbrace _), Step.pure_apply, Reply.after_nil,
    Reply.after_ok, List.append_nil, List.append_nil, hclean] at hsecond
  rw [Step.bind_of_ok hsecond, Step.pure_apply, Reply.after_nil, Reply.after_ok, List.append_nil,
    ← htokens] at hfirst
  exact parse_braced_of_ok hfirst

/-- **A broken statement does not end the block.**  If a text whose braces are balanced gives no
statement, and no closing brace is left where it is given up, then a block goes on behind it
with the statements of what follows, and is all there is. -/
theorem parse_braced_resumes {g s : String} (hbalanced : Balanced (tokenize g))
    (hbroken : (parse (g ++ " ;")).1.statements = []) (hclean : (parse s).2 = [])
    (hpassed : ∀ q, (Parser.ofString (g ++ " ;")).GivesUp q → ∀ t ∈ q.tokens, t.kind ≠ .rbrace)
    (hnesting : ∀ d ∈ (parse ("\x7b " ++ (g ++ " ; " ++ s) ++ " \x7d")).2,
      d.fault.isNesting = false) :
    (parse ("\x7b " ++ (g ++ " ; " ++ s) ++ " \x7d")).1.statements =
      [.expression ⟨.lbrace, "\x7b"⟩ (.block ⟨.lbrace, "\x7b"⟩ (parse s).1.statements)] := by
  rw [parse_braced_append hbalanced hclean hpassed hnesting, hbroken, List.nil_append]

/-- The operand that is missing behind a block does not end the block around them. -/
theorem parse_braced_resumes_operand :
    (Balanced (tokenize "!\x7bx\x7d + )") ∧
      (parse ("!\x7bx\x7d + )" ++ " ;")).1.statements = [] ∧ (parse "y z;").2 = [] ∧
      (∀ q, (Parser.ofString ("!\x7bx\x7d + )" ++ " ;")).GivesUp q →
        ∀ t ∈ q.tokens, t.kind ≠ .rbrace) ∧
      ∀ d ∈ (parse ("\x7b " ++ ("!\x7bx\x7d + )" ++ " ; " ++ "y z;") ++ " \x7d")).2,
        d.fault.isNesting = false) ∧
    (parse ("\x7b " ++ ("!\x7bx\x7d + )" ++ " ; " ++ "y z;") ++ " \x7d")).1.statements =
      [.expression ⟨.lbrace, "\x7b"⟩ (.block ⟨.lbrace, "\x7b"⟩ (parse "y z;").1.statements)] := by
  have hbalanced : Balanced (tokenize "!\x7bx\x7d + )") := by decide +kernel
  have hbroken : (parse ("!\x7bx\x7d + )" ++ " ;")).1.statements = [] := by decide +kernel
  have hclean : (parse "y z;").2 = [] := by decide +kernel
  have hpassed : ∀ q, (Parser.ofString ("!\x7bx\x7d + )" ++ " ;")).GivesUp q →
      ∀ t ∈ q.tokens, t.kind ≠ .rbrace := by
    have hfail : Grammar.standard.statement maxNesting
        (Parser.ofString ("!\x7bx\x7d + )" ++ " ;")).tokens =
          .fail ⟨.noPrefixRule .rparen, ⟨.rparen, ")"⟩⟩ [⟨.rparen, ")"⟩, ⟨.semicolon, ";"⟩] [] := by
      decide +kernel
    intro q hq
    rw [hq.tokens_eq rfl rfl hfail rfl]
    decide
  have hnesting : ∀ d ∈ (parse ("\x7b " ++ ("!\x7bx\x7d + )" ++ " ; " ++ "y z;") ++ " \x7d")).2,
      d.fault.isNesting = false := by decide +kernel
  exact ⟨⟨hbalanced, hbroken, hclean, hpassed, hnesting⟩,
    parse_braced_resumes hbalanced hbroken hclean hpassed hnesting⟩

/-- A block in the part that is skipped does end it: recovery stops at the brace that closes the
inner block, and what follows is read outside. -/
theorem parse_braced_resumes_outside :
    Balanced (tokenize ") \x7b x \x7d") ∧
    (∀ t ∈ (tokenize ") \x7b x \x7d").tail, t.kind ∉ [Kind.semicolon, .kwLet, .kwReturn]) ∧
    (parse (") \x7b x \x7d" ++ " ;")).1.statements = [] ∧ (parse "y").2 = [] ∧
    (∀ d ∈ (parse ("\x7b " ++ (") \x7b x \x7d" ++ " ; " ++ "y") ++ " \x7d")).2,
      d.fault.isNesting = false) ∧
    (parse ("\x7b " ++ (") \x7b x \x7d" ++ " ; " ++ "y") ++ " \x7d")).1.statements ≠
      [.expression ⟨.lbrace, "\x7b"⟩ (.block ⟨.lbrace, "\x7b"⟩ (parse "y").1.statements)] := by
  decide +kernel

end Script
