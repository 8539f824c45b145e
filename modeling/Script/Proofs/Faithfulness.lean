import Script.Proofs.Agreement.Reading
import Script.Proofs.Attempts
import Script.Proofs.Classification

/-!
# Diagnostics tell the truth

A diagnostic carries the token that it is reported at, and beside it says something about that
token: its kind, its literal, or what is missed in its place.  The rules of the grammar raise
their diagnostics at the current token or at the one ahead, and what they say holds of it; a
block that records a diagnostic, and the rules around it, hand it on as it is.

## Main definitions

* `Kind.leading` — the kinds of token that expressions start with.
* `Diagnostic.IsFaithful` — what a diagnostic says holds of its token.
* `Law.faithful` — only faithful diagnostics are recorded.

## Main results

* `Diagnostic.FoundAt.isFaithful` — the rules find nothing wrong that is not.
* `Grammar.upholds_faithful` — the grammar of the language upholds the law.
* `parse_faithful` — **every diagnostic of every source is faithful.**
-/

namespace Script

open Step

/-! ### What diagnostics say -/

/-- The kinds of token that an expression starts with. -/
def Kind.leading : List Kind :=
  [.ident, .int, .kwTrue, .kwFalse, .bang, .minus, .lparen, .lbrace, .kwIf, .kwFunction]

/-- They are those that the grammar has a rule for. -/
theorem Kind.mem_leading_iff {kind : Kind} :
    kind ∈ Kind.leading ↔ (Grammar.standard.prefixRule kind).isSome = true := by
  cases kind <;> decide

/-- What the diagnostic says holds of its token. -/
def Diagnostic.IsFaithful (diagnostic : Diagnostic) : Prop :=
  match diagnostic.fault with
  | .unexpectedToken expected found =>
    found = diagnostic.token.kind ∧ expected ≠ found ∧
      expected ∈ [Kind.ident, .assign, .lparen, .rparen, .rbrace] ∧
      (expected = .rbrace → found = .eof)
  | .noPrefixRule kind => kind = diagnostic.token.kind ∧ kind ∉ Kind.leading
  | .invalidInteger literal =>
    diagnostic.token.kind = .int ∧ literal = diagnostic.token.literal ∧ IsDigitRun literal ∧
      2 ^ 63 ≤ Text.decimalValue literal.toList
  | .nestingTooDeep limit => limit = 64

instance : DecidablePred Diagnostic.IsFaithful
  | ⟨.unexpectedToken .., _⟩ => inferInstanceAs (Decidable (_ ∧ _ ∧ _ ∧ (_ → _)))
  | ⟨.noPrefixRule _, _⟩ => inferInstanceAs (Decidable (_ ∧ _))
  | ⟨.invalidInteger _, _⟩ => inferInstanceAs (Decidable (_ ∧ _ ∧ _ ∧ _))
  | ⟨.nestingTooDeep _, _⟩ => inferInstanceAs (Decidable (_ = _))

/-- The greatest integer may not be reported. -/
example : ¬Diagnostic.IsFaithful ⟨.invalidInteger "9223372036854775807",
    ⟨.int, "9223372036854775807"⟩⟩ := by decide

/-! ### What the rules find wrong -/

/-- A number that is no integer is too great. -/
theorem Text.le_decimalValue_of_integer? {literal : String} (hdigits : IsDigitRun literal)
    (h : Text.integer? literal = none) : 2 ^ 63 ≤ Text.decimalValue literal.toList := by
  obtain ⟨hne, hall⟩ := isDigitRun_iff.1 hdigits
  by_contra hlt
  have hle : decimalValue literal.toList ≤ maxInteger :=
    Nat.le_of_lt_succ (Nat.lt_of_not_le hlt)
  rw [integer?, if_pos ⟨hne, List.all_eq_true.2 hall, hle⟩] at h
  cases h

theorem Grammar.standard_integer {kind : Kind} (h : standard.prefixRule kind = some .integer) :
    kind = .int := by
  cases kind <;> first | rfl | cases h

/-- The rules find nothing wrong with the tokens of a source that is not. -/
theorem Diagnostic.FoundAt.isFaithful {ts : Tokens} {diagnostic : Diagnostic}
    (h : diagnostic.FoundAt .standard ts) (hts : ts.Spelled) : diagnostic.IsFaithful := by
  cases h with
  | @unexpectedToken kind hkind hahead =>
    have hdemanded : ∀ k ∈ Kind.demanded,
        k ∈ [Kind.ident, .assign, .lparen, .rparen, .rbrace] ∧ k ≠ .rbrace := by decide
    obtain ⟨hmem, hbrace⟩ := hdemanded kind hkind
    exact ⟨rfl, Ne.symm hahead, hmem, fun h => absurd h hbrace⟩
  | unclosedBlock heof => exact ⟨heof.symm, by decide, by decide, fun _ => rfl⟩
  | noPrefixRule hrule =>
    refine ⟨rfl, fun hmem => ?_⟩
    have hsome := Kind.mem_leading_iff.1 hmem
    rw [hrule] at hsome
    cases hsome
  | invalidInteger hrule hvalue =>
    have hkind := Grammar.standard_integer hrule
    have hspelled := hts.current (by rw [hkind]; decide)
    have hdigits := hspelled.classified.kind_iff.2.1.1 hkind
    exact ⟨hkind, rfl, hdigits, Text.le_decimalValue_of_integer? hdigits hvalue⟩
  | nestingTooDeep => exact rfl

/-! ### What is recorded -/

/-- On the way from the tokens of a source only faithful diagnostics are recorded, and the one
that the way ends with is faithful, too. -/
def Law.faithful : Law := fun ts _ log ending =>
  ts.Spelled → ∀ d ∈ log ++ ending.toList, d.IsFaithful

theorem Grammar.upholds_faithful : Grammar.standard.Upholds Law.faithful where
  stay _ _ := List.forall_mem_nil _
  advance _ _ := List.forall_mem_nil _
  trans {ts us vs log log' ending} hus _ hlog hlog' hts := by
    have hstart := hlog hts
    rw [Option.toList_none, List.append_nil] at hstart
    rw [List.append_assoc]
    exact List.forall_mem_append.2 ⟨hstart, hlog' fun t ht => hts t (hus.mem ht)⟩
  found hfound hts := List.forall_mem_singleton.2 (hfound.isFaithful hts)
  skip _ := by
    intro us rest log log' diagnostic hus _ _ hlog _ hlog' _ hts
    have hstart := hlog hts
    rw [Option.toList_none, List.append_nil] at hstart ⊢
    exact List.forall_mem_append.2 ⟨hstart, hlog' fun t ht => hts.tail t (hus.mem ht)⟩

/-- **Diagnostics are faithful.**  Whatever the source is, each of its diagnostics describes the
token that it is reported at: the kind that is found instead of another one, or that no
expression starts with, is the kind of the token, only a brace that the source ends without is
missed as such, the literal of a number that is no integer is too great for one, and the limit of
nesting is the one that there is. -/
theorem parse_faithful (source : String) : ∀ d ∈ (parse source).2, d.IsFaithful := by
  obtain ⟨as, has, hparse⟩ := exists_attempts_of_parse source
  rw [hparse]
  intro d hd
  obtain ⟨a, ha, hd⟩ := List.mem_flatMap.1 hd
  obtain ⟨hstart, hlaw⟩ := has.obeys Grammar.wellFounded_standard Grammar.upholds_faithful a ha
  exact hlaw (fun t ht => Lexer.spelled_of_mem_tokens (hstart.mem ht)) d hd

/-- The least number that is too great, in a block that is not closed. -/
theorem parse_faithful_number :
    let d : Diagnostic := ⟨.invalidInteger "9223372036854775808", ⟨.int, "9223372036854775808"⟩⟩
    d ∈ (parse "\x7b -9223372036854775808").2 ∧ d.IsFaithful := by
  intro d
  have hd : d ∈ (parse "\x7b -9223372036854775808").2 := by decide +kernel
  exact ⟨hd, parse_faithful _ d hd⟩

end Script
