import Script.Proofs.Boundary

/-!
# Blocks and programs

The statements of a block and those of a program are read by two loops, which differ in where
they end, in how they recover, and in what they do about a nesting that is too deep.  Still a
text between braces comes to the same as the text alone, as long as nothing is nested too
deeply.

## Main results

* `Grammar.statement_block`, `Grammar.statement_block_of_isTooDeep` — what the loop over a
  block comes to is what the statement that consists of the block comes to.
* `Grammar.blockStatements_append_of_splices` — the statements of a block that starts with a
  text are those of the text and those behind it.
* `parse_block` — the two loops agree.
-/

namespace Script

open Tokens

namespace Grammar

variable {lb rb : Token} {ts : Tokens}

/-- A statement that starts with a brace is a block and what goes on with it. -/
theorem statement_lbrace (room : Nat) (hlb : lb.kind = .lbrace) :
    standard.statement (room + 1) (lb :: ts) =
      (Step.bounded (Rule.blockStatements (standard.statement room)) >>= fun ss => do
        let e ← Step.bounded fun rounds =>
          standard.operators (standard.expression room) .lowest rounds (.block lb ss)
        Step.skipSemicolon
        pure (.expression lb e)) ts := by
  have hstatement : standard.statementRule lb.kind = none := by rw [hlb]; rfl
  have hprefix : standard.prefixRule lb.kind = some .block := by rw [hlb]; rfl
  have hexpr : standard.expression (room + 1) .lowest (lb :: ts) =
      (Step.bounded (Rule.blockStatements (standard.statement room)) >>= fun ss =>
        Step.bounded fun rounds =>
          standard.operators (standard.expression room) .lowest rounds (.block lb ss)) ts := by
    simp only [expression_succ, expressionWith, Step.current_bind, current_cons, hprefix]
    change ((Rule.block (standard.statement room)) >>= _) (lb :: ts) = _
    simp only [Rule.block, bind_assoc, pure_bind, Step.advance_bind, current_cons, List.tail_cons]
  rw [statement, statementWith, Step.current_bind, current_cons, hstatement]
  change Rule.expressionStmt (standard.expression (room + 1)) (lb :: ts) = _
  rw [Rule.expressionStmt, Step.current_bind, current_cons, Step.bind_apply, hexpr,
    ← Step.bind_apply, bind_assoc]

/-- A block that ends at the last token is a statement. -/
theorem statement_block (room : Nat) {ss : List Stmt} {log : List Diagnostic}
    (hlb : lb.kind = .lbrace)
    (h : Step.bounded (Rule.blockStatements (standard.statement room)) ts = .ok ss [rb] log) :
    standard.statement (room + 1) (lb :: ts) =
      .ok (.expression lb (.block lb ss)) [rb] log := by
  rw [statement_lbrace room hlb, Step.bind_of_ok h]
  have hstop : Step.bounded (fun rounds => standard.operators (standard.expression room) .lowest
      rounds (.block lb ss)) [rb] = .ok (.block lb ss) [rb] [] := by
    rw [Step.bounded_apply, operators, Step.peek_bind]
    rfl
  rw [Step.bind_of_ok hstop, Reply.after_nil]
  show (Reply.ok (Stmt.expression lb (.block lb ss)) [rb] []).after log = _
  rw [Reply.after_ok, List.append_nil]

/-- A block that is given up gives the statement up. -/
theorem statement_block_of_isTooDeep (room : Nat) (hlb : lb.kind = .lbrace)
    (h : (Step.bounded (Rule.blockStatements (standard.statement room)) ts).IsTooDeep) :
    (standard.statement (room + 1) (lb :: ts)).IsTooDeep := by
  rw [statement_lbrace room hlb]
  exact h.bind _

theorem closes_rbrace (h : rb.kind = .rbrace) : standard.Closes rb where
  continuesAt? _ := continuesAt?_of_none (by rw [h]; rfl)
  ne_comma := by rw [h]; decide
  ne_else := by rw [h]; decide
  ne_semicolon := by rw [h]; decide

end Grammar

/-! ### A text between braces -/

/-- A statement of a program that is nested too deeply is reported as such. -/
theorem Grammar.exists_isNesting_of_parse {source : String}
    (heof : (current (Lexer.tokens source.toList)).kind ≠ .eof)
    (h : (standard.statement maxNesting (Lexer.tokens source.toList)).IsTooDeep) :
    ∃ d ∈ (parse source).2, d.fault.isNesting = true := by
  obtain ⟨diagnostic, rest, log, hstmt, hnesting⟩ := h
  obtain ⟨rest', hparse⟩ := exists_collect_of_parse source
  rw [Step.bounded_apply, Step.collect_of_goesOn (programRound_of_fail heof hstmt)
    Round.goesOn_skipped] at hparse
  obtain ⟨more, hlog⟩ := Reply.log_of_after_eq_ok hparse
  exact ⟨diagnostic, by simp [hlog], hnesting⟩

/-- The tokens of a text between braces. -/
theorem Lexer.tokens_braced (source : String) :
    Lexer.tokens ("\x7b " ++ source ++ " \x7d").toList =
      ⟨.lbrace, "\x7b"⟩ :: (Lexer.tokens source.toList ++ [⟨.rbrace, "\x7d"⟩]) := by
  have hopen : Lexer.tokens ['\x7b'] = [⟨.lbrace, "\x7b"⟩] := by cbv
  have hclose : Lexer.tokens ['\x7d'] = [⟨.rbrace, "\x7d"⟩] := by cbv
  have htoList : ("\x7b " ++ source ++ " \x7d").toList =
      ['\x7b'] ++ ' ' :: (source.toList ++ ' ' :: ['\x7d']) := by
    rw [String.toList_append, String.toList_append]
    rfl
  rw [htoList, tokens_append_blank, tokens_append_blank, hopen, hclose]
  rfl

/-- The loop over the statements of a block that starts with a text goes on behind the text, if
the statements do not look past its end. -/
theorem Grammar.blockStatements_append_of_splices {source : String} {us : Tokens}
    {part : Tokens → Prop}
    (hsplices : ∀ ts, part ts → ts ≠ [] →
      Splices true us (maxNesting - 1 < maxNesting) part (standard.statement maxNesting)
        (standard.statement (maxNesting - 1)) ts)
    (hpart : part (Lexer.tokens source.toList)) :
    Step.bounded (Rule.blockStatements (standard.statement (maxNesting - 1)))
        (Lexer.tokens source.toList ++ us) =
      ((Step.bounded (Rule.blockStatements (standard.statement (maxNesting - 1))) >>=
        fun more => pure ((parse source).1.statements ++ more)) us).after (parse source).2 ∨
    (Step.bounded (Rule.blockStatements (standard.statement (maxNesting - 1)))
      (Lexer.tokens source.toList ++ us)).IsTooDeep := by
  have hsettles (room : Nat) := settles_statement wellFounded_standard room
  obtain ⟨ss, log, hown, hblock⟩ := Step.collect_append (programRound_of_eof rfl)
    (progresses_programRound (hsettles maxNesting))
    (Rule.progresses_blockRound (hsettles (maxNesting - 1)))
    (blockRoundsAlong_of_splices hsplices) hpart (Nat.lt_succ_self _) (Nat.lt_succ_self _)
  rw [parse_of_collect (Nat.lt_succ_self _) hown]
  rw [← Rule.blockStatements_eq_collect] at hblock
  exact hblock.imp_right And.right

/-- A block that is read up to its closing brace, and is all there is, makes up the program. -/
theorem parse_braced_of_ok {source : String} {ss : List Stmt} {log : List Diagnostic}
    (h : Step.bounded (Rule.blockStatements (Grammar.standard.statement (maxNesting - 1)))
      (Lexer.tokens source.toList ++ [⟨.rbrace, "\x7d"⟩]) = .ok ss [⟨.rbrace, "\x7d"⟩] log) :
    parse ("\x7b " ++ source ++ " \x7d") =
      (⟨[.expression ⟨.lbrace, "\x7b"⟩ (.block ⟨.lbrace, "\x7b"⟩ ss)]⟩, log) := by
  have hstmt := Grammar.statement_block (maxNesting - 1)
    (show (⟨.lbrace, "\x7b"⟩ : Token).kind = .lbrace from rfl) h
  have hround := Grammar.programRound_of_ok
    (show (current (⟨.lbrace, "\x7b"⟩ :: _)).kind ≠ .eof by rw [current_cons]; decide) hstmt
  rw [← Lexer.tokens_braced] at hround
  -- the first round reads the statement, and the second one finds the end
  have hcollect (rounds : Nat) : Step.collect
      (Grammar.programRound (Grammar.standard.statement maxNesting)) (rounds + 2)
      (Lexer.tokens ("\x7b " ++ source ++ " \x7d").toList) =
        .ok [.expression ⟨.lbrace, "\x7b"⟩ (.block ⟨.lbrace, "\x7b"⟩ ss)] [] log := by
    have hend : Step.collect (Grammar.programRound (Grammar.standard.statement maxNesting))
        (rounds + 1) [] = .ok [] [] [] := by
      rw [Step.collect, Step.bind_of_ok (Grammar.programRound_of_eof rfl)]
      rfl
    have hall := Step.collect_eq_ok_of_goesOn hround (Round.goesOn_read _) hend
    rwa [List.append_nil] at hall
  exact parse_of_collect (Nat.lt_add_of_pos_right Nat.two_pos) (hcollect _)

/-- A block that is given up is reported. -/
theorem exists_isNesting_of_braced {source : String}
    (h : (Step.bounded (Rule.blockStatements (Grammar.standard.statement (maxNesting - 1)))
      (Lexer.tokens source.toList ++ [⟨.rbrace, "\x7d"⟩])).IsTooDeep) :
    ∃ d ∈ (parse ("\x7b " ++ source ++ " \x7d")).2, d.fault.isNesting = true := by
  have hstmt := Grammar.statement_block_of_isTooDeep (maxNesting - 1)
    (show (⟨.lbrace, "\x7b"⟩ : Token).kind = .lbrace from rfl) h
  rw [← Lexer.tokens_braced] at hstmt
  refine Grammar.exists_isNesting_of_parse ?_ hstmt
  rw [Lexer.tokens_braced, current_cons]
  decide

/-- The closing brace ends the loop over the statements of a block. -/
theorem Grammar.blockStatements_rbrace (room : Nat) :
    Step.bounded (Rule.blockStatements (standard.statement room)) [⟨.rbrace, "\x7d"⟩] =
      .ok [] [⟨.rbrace, "\x7d"⟩] [] := by
  rw [Step.bounded_apply, Rule.blockStatements_eq_collect, Step.collect,
    Step.bind_of_ok (Rule.blockRound_of_rbrace rfl)]
  rfl

/-- A text whose statements do not look past the brace behind it is read as it is alone. -/
theorem parse_block_of_splices {source : String} {part : Tokens → Prop}
    (hsplices : ∀ ts, part ts → ts ≠ [] →
      Grammar.Splices true [⟨.rbrace, "\x7d"⟩] (maxNesting - 1 < maxNesting) part
        (Grammar.standard.statement maxNesting) (Grammar.standard.statement (maxNesting - 1)) ts)
    (hpart : part (Lexer.tokens source.toList))
    (hnesting : ∀ d ∈ (parse ("\x7b " ++ source ++ " \x7d")).2, d.fault.isNesting = false) :
    parse ("\x7b " ++ source ++ " \x7d") =
      (⟨[.expression ⟨.lbrace, "\x7b"⟩ (.block ⟨.lbrace, "\x7b"⟩ (parse source).1.statements)]⟩,
        (parse source).2) := by
  rcases Grammar.blockStatements_append_of_splices hsplices hpart with hblock | hdeep
  · rw [Step.bind_of_ok (Grammar.blockStatements_rbrace _), Step.pure_apply, Reply.after_nil,
      Reply.after_ok, List.append_nil, List.append_nil] at hblock
    exact parse_braced_of_ok hblock
  · obtain ⟨d, hd, hdeep⟩ := exists_isNesting_of_braced hdeep
    rw [hnesting d hd] at hdeep
    cases hdeep

/-- **The two loops agree.**  If a text is read without a diagnostic, or if it is empty or ends
in a `;` and has no braces, then the block of it is read as the text is alone, unless the
block makes the nesting too deep. -/
theorem parse_block {source : String}
    (h : (parse source).2 = [] ∨
      (∀ t ∈ tokenize source, t.kind ≠ .lbrace ∧ t.kind ≠ .rbrace) ∧
      (tokenize source = [Token.eof] ∨
        ∃ ts s, tokenize source = ts ++ [s, Token.eof] ∧ s.kind = .semicolon))
    (hnesting : ∀ d ∈ (parse ("\x7b " ++ source ++ " \x7d")).2, d.fault.isNesting = false) :
    parse ("\x7b " ++ source ++ " \x7d") =
      (⟨[.expression ⟨.lbrace, "\x7b"⟩ (.block ⟨.lbrace, "\x7b"⟩ (parse source).1.statements)]⟩,
        (parse source).2) := by
  have hroom : maxNesting - 1 ≤ maxNesting := Nat.sub_le maxNesting 1
  rcases h with hclean | ⟨hbraces, hlast⟩
  · refine parse_block_of_splices
      (fun ts hts hne => Grammar.splices_of_unbroken hroom true hts hne) ?_ hnesting
    exact Grammar.unbroken_of_parse hclean fun _ => .inr (Grammar.closes_rbrace rfl)
  · refine parse_block_of_splices
      (fun ts hts hne => Grammar.splices_of_sentences _ hroom true hts.1 hts.2 hne) ?_ hnesting
    have hlbrace := ne_of_mem_tokenize fun t ht => (hbraces t ht).1
    have hrbrace := ne_of_mem_tokenize fun t ht => (hbraces t ht).2
    refine ⟨⟨hlbrace, fun hne => ?_⟩, fun t ht =>
      ⟨Lexer.kind_ne_eof t ht, fun _ => hrbrace t ht⟩⟩
    rcases hlast with hempty | ⟨ts, s, htokens, hs⟩
    · exact absurd (List.append_cancel_right (hempty : _ ++ [Token.eof] = [] ++ [Token.eof])) hne
    · exact ended_of_tokenize htokens hs

/-- Between braces the same is kept and reported as there is alone, of a text with a statement that
is broken and of one whose last statement has no `;` of its own. -/
theorem parse_block_broken :
    let broken := "let x 5; y; !;"
    let opened := "let x = 1; x"
    (((parse broken).1.statements.length = 1 ∧ (parse broken).2.length = 2) ∧
      (parse opened).1.statements.length = 2) ∧
    ((((∀ t ∈ tokenize broken, t.kind ≠ .lbrace ∧ t.kind ≠ .rbrace) ∧
          ∃ ts s, tokenize broken = ts ++ [s, Token.eof] ∧ s.kind = .semicolon) ∧
        ∀ d ∈ (parse ("\x7b " ++ broken ++ " \x7d")).2, d.fault.isNesting = false) ∧
      parse ("\x7b " ++ broken ++ " \x7d") =
        (⟨[.expression ⟨.lbrace, "\x7b"⟩
          (.block ⟨.lbrace, "\x7b"⟩ (parse broken).1.statements)]⟩, (parse broken).2)) ∧
    ((parse opened).2 = [] ∧
        ∀ d ∈ (parse ("\x7b " ++ opened ++ " \x7d")).2, d.fault.isNesting = false) ∧
      parse ("\x7b " ++ opened ++ " \x7d") =
        (⟨[.expression ⟨.lbrace, "\x7b"⟩
          (.block ⟨.lbrace, "\x7b"⟩ (parse opened).1.statements)]⟩, (parse opened).2) := by
  intro broken opened
  have hbraces : ∀ t ∈ tokenize broken, t.kind ≠ .lbrace ∧ t.kind ≠ .rbrace := by
    decide +kernel
  have hlast : ∃ ts s, tokenize broken = ts ++ [s, Token.eof] ∧ s.kind = .semicolon :=
    ⟨[⟨.kwLet, "let"⟩, ⟨.ident, "x"⟩, ⟨.int, "5"⟩, ⟨.semicolon, ";"⟩, ⟨.ident, "y"⟩,
      ⟨.semicolon, ";"⟩, ⟨.bang, "!"⟩], ⟨.semicolon, ";"⟩, by cbv, rfl⟩
  have hnesting : ∀ d ∈ (parse ("\x7b " ++ broken ++ " \x7d")).2, d.fault.isNesting = false := by
    decide +kernel
  have hclean : (parse opened).2 = [] := by decide +kernel
  have hnesting' : ∀ d ∈ (parse ("\x7b " ++ opened ++ " \x7d")).2, d.fault.isNesting = false := by
    decide +kernel
  refine ⟨by decide +kernel, ?_, ⟨hclean, hnesting'⟩, parse_block (.inl hclean) hnesting'⟩
  exact ⟨⟨⟨hbraces, hlast⟩, hnesting⟩, parse_block (.inr ⟨hbraces, .inr hlast⟩) hnesting⟩

end Script
