import Script.Proofs.Boundary
import Script.Proofs.Finding.Reading
import Script.Tree.Equality

/-!
# Diagnostics in the order of the source

A statement that is given up over what is wrong with it is skipped from there, a block is
closed where recovery has stopped, and a diagnostic that is found in a block stands before
the one over which the statement around the block is given up.  So the diagnostics of a
source are reported in the order of the tokens that they are raised at, although some of them
are raised at the current token and others at the one ahead.

## Main results

* `parse_ordered` — the diagnostics of a source are in its order.
-/

namespace Script

open Tokens

/-- What is reported of the tokens of a source is the token with the index of the finding; the
end of the source stands behind them, however far one goes on. -/
theorem Finding.getD_index {g : Grammar} {f : Finding} {source : String}
    (h : f.diagnostic.RaisedAt g f.rest) (hrest : f.rest <:+ Lexer.tokens source.toList) :
    (tokenize source).getD (f.index (Lexer.tokens source.toList).length) Token.eof =
      f.diagnostic.token := by
  have hreported : f.reported <:+ Lexer.tokens source.toList := by
    unfold reported
    split
    · exact (List.tail_suffix _).trans hrest
    · exact hrest
  rw [f.index_eq h hrest, f.token_eq h, tokenize_eq]
  obtain ⟨before, hbefore⟩ := hreported
  rw [← hbefore, List.length_append, Nat.add_sub_cancel, List.append_assoc]
  cases f.reported with
  | nil => simp
  | cons t ts => simp

/-- **The diagnostics of a source are in its order.**  Each of them has been raised at some
point of reading, which whoever observes it can tell by what is left of the source; its token
is the current one or the one ahead at that point, depending on the fault; and the indices of
these tokens do not decrease. -/
theorem parse_ordered (source : String) :
    ∃ findings : List Finding,
      (parse source).2 = findings.map Finding.diagnostic ∧
      (∀ note : Tokens → Token, ∃ rest,
        Grammar.standard.observedProgram (some note) maxNesting (Lexer.tokens source.toList) =
          .ok (parse source).1.statements rest
            (findings.map fun f => ⟨f.diagnostic.fault, note f.rest⟩)) ∧
      (∀ f ∈ findings, f.rest <:+ Lexer.tokens source.toList ∧
        f.diagnostic.RaisedAt .standard f.rest ∧
        (tokenize source).getD (f.index (Lexer.tokens source.toList).length) Token.eof =
          f.diagnostic.token) ∧
      (findings.map (Finding.index (Lexer.tokens source.toList).length)).Pairwise (· ≤ ·) := by
  obtain ⟨ss, rest, findings, htrace, hrun⟩ := Grammar.exists_trace_of_program
    Grammar.stopsAtEof_standard rfl maxNesting (Lexer.tokens source.toList)
  have hmodel := hrun none
  rw [Grammar.observedProgram_none, Step.bounded_apply] at hmodel
  have hparse : parse source = (⟨ss⟩, findings.map Finding.diagnostic) := parse_of_statements hmodel
  rw [hparse]
  refine ⟨findings, rfl, fun note => ⟨rest, hrun (some note)⟩, fun f hf => ?_, ?_⟩
  · obtain ⟨hraised, hsuffix⟩ := htrace.raised f hf
    exact ⟨hsuffix, hraised, f.getD_index hraised hsuffix⟩
  · rw [List.pairwise_map]
    refine htrace.sorted.imp_of_mem fun {f f'} hf hf' hle => ?_
    obtain ⟨hraised, hsuffix⟩ := htrace.raised f hf
    obtain ⟨hraised', hsuffix'⟩ := htrace.raised f' hf'
    rw [f.index_eq hraised hsuffix, f'.index_eq hraised' hsuffix']
    omega

/-- Of five tokens four are left when a name is missed behind the word `let`, and none when an
operand is missed at the end. -/
example : Grammar.standard.observedProgram (some fun ts => ⟨.int, toString ts.length⟩) maxNesting
    (Lexer.tokens "\x7b let 5 \x7d !".toList) =
      .ok [.expression ⟨.lbrace, "\x7b"⟩ (.block ⟨.lbrace, "\x7b"⟩ [])] []
        [⟨.unexpectedToken .ident .int, ⟨.int, "4"⟩⟩, ⟨.noPrefixRule .eof, ⟨.int, "0"⟩⟩] := by
  decide +kernel

end Script
