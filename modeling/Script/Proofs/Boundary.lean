import Mathlib
import Script.Proofs.Spelling
import Script.Proofs.Splicing

/-!
# Boundaries between texts

A `;` outside of blocks is a boundary: a text that ends in one is read the same whatever
follows, and what follows is read the same as it would be alone.  This holds of texts that are
read without a diagnostic, and of texts without blocks however broken they are.

## Main results

* `Lexer.tokens_append_space` — the tokens of two texts.
* `parse_of_collect`, `exists_collect_of_parse` — parsing a source is the loop over its rounds.
* `parse_append` — a text that ends in a `;`, and another one behind it.
-/

namespace Script

open Tokens

/-! ### Sources and their tokens -/

theorem tokenize_eq (source : String) :
    tokenize source = Lexer.tokens source.toList ++ [Token.eof] := rfl

/-- No token of a source is its end. -/
theorem Lexer.kind_ne_eof {cs : List Char} : ∀ t ∈ Lexer.tokens cs, t.kind ≠ .eof :=
  fun _ ht => (spelled_of_mem_tokens ht).kind_ne_eof

theorem Lexer.tokens_append_space (a b : String) :
    tokens (a ++ " " ++ b).toList = tokens a.toList ++ tokens b.toList := by
  rw [String.toList_append, String.toList_append, List.append_assoc]
  exact tokens_append_blank _ _

/-- The last token before the end of the source is a `;`. -/
theorem Tokens.ended_of_tokenize {source : String} {ts : Tokens} {s : Token}
    (h : tokenize source = ts ++ [s, Token.eof]) (hs : s.kind = .semicolon) :
    Ended (Lexer.tokens source.toList) := by
  have heq : Lexer.tokens source.toList ++ [Token.eof] = (ts ++ [s]) ++ [Token.eof] := by
    rw [List.append_assoc]
    exact h
  exact ⟨s, hs, ts, (List.append_cancel_right heq).symm⟩

theorem ne_of_mem_tokenize {source : String} {kind : Kind}
    (h : ∀ t ∈ tokenize source, t.kind ≠ kind) : ∀ t ∈ Lexer.tokens source.toList, t.kind ≠ kind :=
  fun t ht => h t (List.mem_append_left _ ht)

/-- What the loop over the rounds comes to is what the source is parsed as. -/
theorem parse_of_collect {source : String} {ss : List Stmt} {rest : Tokens} {log : List Diagnostic}
    {rounds : Nat} (hrounds : (Lexer.tokens source.toList).length < rounds)
    (h : Step.collect (Grammar.programRound (Grammar.standard.statement maxNesting)) rounds
      (Lexer.tokens source.toList) = .ok ss rest log) : parse source = (⟨ss⟩, log) := by
  have hsettles := Grammar.settles_statement Grammar.wellFounded_standard maxNesting
  rw [Step.collect_eq_of_lt (Grammar.progresses_programRound hsettles) hrounds
    (Nat.lt_succ_self _), ← Grammar.programStatements_eq_collect] at h
  exact parse_of_statements h

/-- What a source is parsed as is what the loop over the rounds comes to. -/
theorem exists_collect_of_parse (source : String) :
    ∃ rest, Step.bounded (Step.collect
        (Grammar.programRound (Grammar.standard.statement maxNesting)))
      (Lexer.tokens source.toList) = .ok (parse source).1.statements rest (parse source).2 := by
  have hparse : parse source = ((parse source).1, (parse source).2) := rfl
  obtain ⟨rest, h⟩ := exists_programStatements_of_parse hparse
  rw [Grammar.programStatements_eq_collect] at h
  exact ⟨rest, h⟩

/-- A source without diagnostics is read as such where nothing goes on behind it. -/
theorem Grammar.unbroken_of_parse {source : String} {us : Tokens} (h : (parse source).2 = [])
    (hcloses : Lexer.tokens source.toList ≠ [] →
      Ended (Lexer.tokens source.toList) ∨ standard.Closes us.current) :
    Unbroken maxNesting us (Lexer.tokens source.toList) where
  reads := by
    obtain ⟨rest, hcollect⟩ := exists_collect_of_parse source
    rw [h] at hcollect
    exact ⟨_, _, rest, hcollect⟩
  ne_eof := Lexer.kind_ne_eof
  closes := hcloses

/-! ### A `;` between two texts -/

/-- A text whose statements do not look past its end is read the same with another behind it. -/
theorem parse_append_of_splices {a b : String} {part : Tokens → Prop}
    (hsplices : ∀ ts, part ts → ts ≠ [] →
      Grammar.Splices false (Lexer.tokens b.toList) (maxNesting < maxNesting) part
        (Grammar.standard.statement maxNesting) (Grammar.standard.statement maxNesting) ts)
    (ha : part (Lexer.tokens a.toList)) :
    parse (a ++ " " ++ b) = (⟨(parse a).1.statements ++ (parse b).1.statements⟩,
      (parse a).2 ++ (parse b).2) := by
  have halong := Grammar.roundsAlong_of_splices (Nat.lt_irrefl maxNesting) hsplices
  have hprogress := Grammar.progresses_programRound
    (Grammar.settles_statement Grammar.wellFounded_standard maxNesting)
  obtain ⟨ss, log, hown, hboth⟩ := Step.collect_append
    (Grammar.programRound_of_eof rfl) hprogress hprogress halong ha (Nat.lt_succ_self _)
    (Nat.lt_succ_self _)
  obtain ⟨rest, hb⟩ := exists_collect_of_parse b
  rw [parse_of_collect (Nat.lt_succ_self _) hown]
  rcases hboth with hboth | ⟨hfalse, -⟩
  · rw [Step.bind_of_ok hb, Step.pure_apply, Reply.after_ok, Reply.after_ok, List.append_nil,
      ← Lexer.tokens_append_space] at hboth
    exact parse_of_collect (Nat.lt_succ_self _) hboth
  · exact hfalse.elim

/-- **A `;` is a boundary.**  If the last token of a text is a `;`, and the text opens no
block or is read without a diagnostic, then what stands behind it makes no difference to how
it is read, and neither does it to what stands behind it. -/
theorem parse_append {a b : String}
    (hlast : ∃ ts s, tokenize a = ts ++ [s, Token.eof] ∧ s.kind = .semicolon)
    (ha : (∀ t ∈ tokenize a, t.kind ≠ .lbrace) ∨ (parse a).2 = []) :
    parse (a ++ " " ++ b) = (⟨(parse a).1.statements ++ (parse b).1.statements⟩,
      (parse a).2 ++ (parse b).2) := by
  obtain ⟨ts, s, htokens, hs⟩ := hlast
  have hended := ended_of_tokenize htokens hs
  rcases ha with hbrace | hclean
  · refine parse_append_of_splices (fun ts hts hne => Grammar.splices_of_sentences _
      (Nat.le_refl maxNesting) false hts.1 hts.2 hne) ?_
    exact ⟨⟨ne_of_mem_tokenize hbrace, fun _ => hended⟩, fun t ht =>
      ⟨Lexer.kind_ne_eof t ht, nofun⟩⟩
  · refine parse_append_of_splices (fun ts hts hne => Grammar.splices_of_unbroken
      (Nat.le_refl maxNesting) false hts hne) ?_
    exact Grammar.unbroken_of_parse hclean fun _ => .inl hended

/-- A binding without a `=` and an operand that is missing do not reach across the `;`, whatever
is read before and after them; and neither does a block that is read without a diagnostic. -/
theorem parse_append_broken :
    let broken := "let x 5; y;"
    let clean := "\x7b y \x7d;"
    let next := "!; \x7b z; let \x7d"
    (((parse broken).1.statements.length = 1 ∧ (parse broken).2.length = 1) ∧
      ((parse next).1.statements.length = 1 ∧ (parse next).2.length = 2)) ∧
    (((∃ ts s, tokenize broken = ts ++ [s, Token.eof] ∧ s.kind = .semicolon) ∧
        ∀ t ∈ tokenize broken, t.kind ≠ .lbrace) ∧
      parse (broken ++ " " ++ next) =
        (⟨(parse broken).1.statements ++ (parse next).1.statements⟩,
          (parse broken).2 ++ (parse next).2)) ∧
    ((∃ ts s, tokenize clean = ts ++ [s, Token.eof] ∧ s.kind = .semicolon) ∧
        (parse clean).2 = []) ∧
      parse (clean ++ " " ++ next) =
        (⟨(parse clean).1.statements ++ (parse next).1.statements⟩,
          (parse clean).2 ++ (parse next).2) := by
  intro broken clean next
  have hlast : ∃ ts s, tokenize broken = ts ++ [s, Token.eof] ∧ s.kind = .semicolon :=
    ⟨[⟨.kwLet, "let"⟩, ⟨.ident, "x"⟩, ⟨.int, "5"⟩, ⟨.semicolon, ";"⟩, ⟨.ident, "y"⟩],
      ⟨.semicolon, ";"⟩, by cbv, rfl⟩
  have hbrace : ∀ t ∈ tokenize broken, t.kind ≠ .lbrace := by decide +kernel
  have hlast' : ∃ ts s, tokenize clean = ts ++ [s, Token.eof] ∧ s.kind = .semicolon :=
    ⟨[⟨.lbrace, "\x7b"⟩, ⟨.ident, "y"⟩, ⟨.rbrace, "\x7d"⟩], ⟨.semicolon, ";"⟩, by cbv, rfl⟩
  have hclean : (parse clean).2 = [] := by decide +kernel
  refine ⟨by decide +kernel, ⟨⟨hlast, hbrace⟩, parse_append hlast (.inl hbrace)⟩, ?_⟩
  exact ⟨⟨hlast', hclean⟩, parse_append hlast' (.inr hclean)⟩

end Script
