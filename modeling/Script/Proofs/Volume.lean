import Script.Proofs.Attempts

/-!
# How much is found wrong

A diagnostic is paid for by a token.  A step that records something has moved on, and it has
moved on by more tokens than it records: a statement that a block gives up starts behind the
brace of the block, and what it has recorded itself and the diagnostic that it ends with are
paid for by the tokens up to where recovery stops.  An attempt at a statement of the program
leaves one token more, which pays for the statement or for the diagnostic over which it is given
up.  So there are no more statements and diagnostics than tokens, however deep the blocks are
nested; and no attempt is for nothing.

## Main definitions

* `Law.bounded` — a way that is longer than what is recorded on it.

## Main results

* `Grammar.upholds_bounded` — every grammar upholds it.
* `Attempts.length_le` — no more statements and diagnostics than tokens.
* `parse_volume` — so it is for every source.
-/

namespace Script

open Tokens Step

/-! ### The law -/

/-- On a way there are fewer diagnostics recorded than there are tokens, or none of either. -/
def Law.bounded : Law := fun ts rest log _ => log.length ≤ ts.length - rest.length - 1

/-- A statement that a block gives up is paid for: it starts behind the brace of the block, and
recovery drops one of its tokens at least. -/
theorem Law.allowsSkip_bounded (ts : Tokens) : Law.bounded.AllowsSkip ts := by
  intro us rest log log' diagnostic hus hbrace heof hlog hrest hlog' _
  have hstart : us.length < ts.length := by
    have hpos := List.length_pos_iff.2 (ne_nil_of_current_kind heof)
    have hle := hus.length_le
    rw [List.length_tail] at hle
    omega
  have hrecover := length_recover_lt_of_suffix true hrest heof (.inr hbrace)
  have hstop := (rest.recover_suffix true).length_le
  simp only [Law.bounded, List.length_append, List.length_singleton] at hlog hlog' ⊢
  omega

/-- Every grammar upholds the bound. -/
theorem Grammar.upholds_bounded (g : Grammar) : g.Upholds Law.bounded where
  stay _ := Nat.zero_le _
  advance _ := Nat.zero_le _
  trans {ts us vs log log' ending} hus hvs hlog hlog' := by
    have hus := hus.length_le
    have hvs := hvs.length_le
    simp only [Law.bounded, List.length_append] at hlog hlog' ⊢
    omega
  found _ := Nat.zero_le _
  skip _ := Law.allowsSkip_bounded _

/-! ### Attempts -/

/-- What an attempt reads and records is paid for by the tokens that it uses up. -/
theorem Attempt.length_le {a : Attempt} (heof : a.start.current.kind ≠ .eof)
    (hstop : a.stop <:+ a.start) (hlog : Law.bounded a.start a.stop a.log a.error?) :
    a.statements.length + a.diagnostics.length + a.next.length ≤ a.start.length := by
  have hpos := List.length_pos_iff.2 (ne_nil_of_current_kind heof)
  have hle := hstop.length_le
  obtain ⟨ts, rest, log, result⟩ := a
  simp only [Law.bounded] at hlog
  cases result with
  | ok statement =>
    simp only [statements, diagnostics, error?, next, List.length_append, List.length_tail,
      List.length_singleton, Option.toList_none, List.length_nil] at *
    omega
  | error diagnostic =>
    have hrecover := length_recover_lt_of_suffix false hstop heof (.inl rfl)
    have hskip := (rest.recover_suffix false).length_le
    simp only [statements, diagnostics, error?, next, List.length_append,
      List.length_singleton, Option.toList_some, List.length_nil] at *
    omega

namespace Attempts

variable {g : Grammar} {room : Nat} {ts : Tokens} {as : List Attempt}

/-- **There are no more statements and diagnostics than tokens.** -/
theorem length_le (h : Attempts (g.statement room) ts as) (hg : g.WellFounded) :
    (as.flatMap Attempt.statements).length + (as.flatMap Attempt.diagnostics).length ≤
      ts.length := by
  induction h with
  | done => exact Nat.zero_le _
  | @cons a as heof hreply hmore ih =>
    have hstop := Attempt.stop_suffix (g.settles_statement hg room) hreply
    have hle := Attempt.length_le heof hstop (Attempt.obeys g.upholds_bounded hreply)
    rw [List.flatMap_cons, List.flatMap_cons, List.length_append, List.length_append]
    omega

/-- Where a token is left there is an attempt, and it comes to something. -/
theorem length_pos {stmt : Step Stmt} (h : Attempts stmt ts as) (heof : ts.current.kind ≠ .eof) :
    0 < (as.flatMap Attempt.statements).length + (as.flatMap Attempt.diagnostics).length := by
  cases h with
  | done hdone => exact absurd hdone heof
  | @cons a as =>
    have hpos := a.length_pos
    rw [List.flatMap_cons, List.flatMap_cons, List.length_append, List.length_append]
    omega

end Attempts

/-! ### Sources -/

/-- The tokens in front of the end of a source. -/
theorem countP_tokenize (source : String) :
    (tokenize source).countP (·.kind ≠ .eof) = (Lexer.tokens source.toList).length := by
  have hall : ∀ t ∈ Lexer.tokens source.toList, decide (t.kind ≠ .eof) = true := fun t ht =>
    decide_eq_true (Lexer.spelled_of_mem_tokens ht).kind_ne_eof
  rw [tokenize_eq, List.countP_append, List.countP_eq_length.2 hall]
  rfl

/-- **The diagnostics of a source are bounded, and nothing is dropped silently.**  The
statements of a program and the diagnostics, those from inside its blocks included, are no more
than the tokens in front of the end of the source; and there is one of them at least if there is
a token. -/
theorem parse_volume (source : String) :
    (parse source).1.statements.length + (parse source).2.length ≤
        (tokenize source).countP (·.kind ≠ .eof) ∧
      (1 ≤ (tokenize source).countP (·.kind ≠ .eof) →
        1 ≤ (parse source).1.statements.length + (parse source).2.length) := by
  obtain ⟨as, has, hparse⟩ := exists_attempts_of_parse source
  rw [hparse, countP_tokenize]
  refine ⟨has.length_le Grammar.wellFounded_standard, fun hpos => has.length_pos ?_⟩
  have hmem := current_mem (List.length_pos_iff.1 hpos)
  exact (Lexer.spelled_of_mem_tokens hmem).kind_ne_eof

/-- Three blocks that are not closed, each inside the one before, and in the last of them
something that no statement starts with. -/
theorem parse_volume_braces :
    let source := "\x7b \x7b \x7b )"
    1 ≤ (tokenize source).countP (·.kind ≠ .eof) ∧
      (parse source).1.statements.length + (parse source).2.length ≤ 4 ∧
      1 ≤ (parse source).1.statements.length + (parse source).2.length := by
  intro source
  have hcount : (tokenize source).countP (·.kind ≠ .eof) = 4 := by decide +kernel
  have hpos : 1 ≤ (tokenize source).countP (·.kind ≠ .eof) := by rw [hcount]; decide
  refine ⟨hpos, ?_, (parse_volume source).2 hpos⟩
  rw [← hcount]
  exact (parse_volume source).1

/-- The bound is reached there: the `)` is reported, and so is each of the braces. -/
example : (parse "\x7b \x7b \x7b )").2.length = 4 := by decide +kernel

end Script
