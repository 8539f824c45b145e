import Script.Proofs.Segmentation

/-!
# Literals that are read again

A token is lexable when its literal, standing alone, is read as the token again.  Every token
that is read from a source is, whatever stood around it there; and the literals of lexable
tokens are read back as these tokens from any text in which there is a gap between every two
of them, whatever blanks the gaps are made of.

## Main definitions

* `Token.Lexable` — the token is what its literal alone is read as.
* `Segmentation.IsSpaced` — lexable tokens with gaps between them.

## Main results

* `Token.lexable_iff_spelled` — the lexable tokens are those that a text can be read as.
* `Segmentation.IsSpaced.isMaximalMunch` — a text with gaps between its tokens is cut right.
* `tokenize_relexed` — tokens are lexable, and lexable tokens are read back.
-/

namespace Script

open Lexer

/-- The token is what its literal alone is read as. -/
def Token.Lexable (t : Token) : Prop := tokenize t.literal = [t, Token.eof]

instance (t : Token) : Decidable t.Lexable := inferInstanceAs (Decidable (_ = _))

/-- The literal of a lexable token is read as this token and no other. -/
theorem Token.lexable_iff {t : Token} : t.Lexable ↔ Lexer.tokens t.literal.toList = [t] := by
  have hone : [t, Token.eof] = [t] ++ [Token.eof] := rfl
  rw [Lexable, hone]
  exact List.append_left_inj [Token.eof]

/-- The lexable tokens are those that a text can be read as. -/
theorem Token.lexable_iff_spelled {t : Token} : t.Lexable ↔ t.Spelled := by
  rw [lexable_iff]
  constructor
  · intro hread
    exact spelled_of_mem_tokens (hread ▸ List.mem_singleton_self t)
  · intro ht
    -- nothing stands behind the literal that could go on with it
    have hread : Lexer.tokens (t.literal.toList ++ []) = t :: Lexer.tokens [] :=
      tokens_append ht (by simp)
    rwa [List.append_nil, tokens_nil] at hread

namespace Segmentation

/-- Lexable tokens with any blanks around them, where there is at least one between every two
neighbours. -/
structure IsSpaced (s : Segmentation) : Prop where
  /-- Only blanks stand in front of the first token, -/
  gap : IsGap s.gap
  /-- and only blanks stand behind each token. -/
  gaps : ∀ part ∈ s.parts, IsGap part.2
  /-- Every token is lexable. -/
  lexable : ∀ part ∈ s.parts, part.1.Lexable
  /-- Something stands behind each token that is not the last one. -/
  apart : s.parts.IsChain fun part _ => part.2 ≠ ""

/-- A text with gaps between its tokens is cut right: no two tokens meet in it. -/
theorem IsSpaced.isMaximalMunch {s : Segmentation} (h : s.IsSpaced) : s.IsMaximalMunch where
  gap := h.gap
  gaps := h.gaps
  classified part hpart := (Token.lexable_iff_spelled.1 (h.lexable part hpart)).classified
  longest := h.apart.imp fun _ _ hgap hnone => absurd hnone hgap

end Segmentation

/-- **Tokens are read again from their literals.**  Every token of a source, apart from its
end, is lexable.  And whatever lexable tokens are written down, with any blanks in front of
them and behind them and at least one between every two, the text is read as exactly these
tokens, kinds and literals, and then as the end of the source. -/
theorem tokenize_relexed :
    (∀ source : String, ∀ t ∈ tokenize source, t.kind ≠ .eof → t.Lexable) ∧
      ∀ s : Segmentation, s.IsSpaced → tokenize s.text = s.tokens ++ [Token.eof] := by
  constructor
  · intro source t ht hkind
    rw [Token.lexable_iff_spelled]
    rcases List.mem_append.1 ht with ht | ht
    · exact spelled_of_mem_tokens ht
    · obtain rfl := List.mem_singleton.1 ht
      exact absurd rfl hkind
  · intro s hs
    rw [← hs.isMaximalMunch.tokens_text]
    rfl

/-- A character that belongs to nothing is lexable, be it in the middle of a name; and NUL, a
sign, a reserved word and a number are read back from between blanks of all four kinds. -/
theorem tokenize_relexed_blanks :
    let t : Token := ⟨.illegal, "é"⟩
    let s : Segmentation := ⟨"\r\n", [(⟨.illegal, "\x00"⟩, " "), (⟨.lessThanOrEqual, "<="⟩, "\t\n"),
      (⟨.kwLet, "let"⟩, "\r"), (⟨.int, "007"⟩, "")]⟩
    (t ∈ tokenize "caféine" ∧ t.kind ≠ .eof ∧ s.IsSpaced) ∧
      t.Lexable ∧ tokenize s.text = s.tokens ++ [Token.eof] := by
  intro t s
  have ht : t ∈ tokenize "caféine" := by decide +kernel
  have hkind : t.kind ≠ .eof := by decide
  have hs : s.IsSpaced :=
    ⟨by decide, by decide, by decide +kernel, by simp [s]⟩
  exact ⟨⟨ht, hkind, hs⟩, tokenize_relexed.1 "caféine" t ht hkind, tokenize_relexed.2 s hs⟩

end Script
