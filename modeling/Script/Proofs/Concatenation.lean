import Script.Proofs.Segmentation

/-!
# Texts that stand one behind the other

The tokens of two texts that stand one right behind the other are those of the one and then
those of the other, unless the first text ends with a token that the second one goes on with.
Then the two glue, and that last token is not read as it stands any more.

## Main definitions

* `lastToken?` — the last token of a text.
* `Glues` — the second text goes on with the last token of the first.

## Main results

* `Segmentation.IsMaximalMunch.tokens_append_iff` — when the tokens of two texts are read one
  after the other, in terms of how the first one is cut.
* `tokenize_append_iff` — the same in terms of the texts.
-/

namespace Script

open Lexer

/-- The last token of a text, apart from its end. -/
def lastToken? (text : String) : Option Token := (tokenize text).dropLast.getLast?

/-- The second text goes on with the last token of the first, behind which there is no blank. -/
structure Glues (text next : String) : Prop where
  /-- The first text does not end in a blank. -/
  last : ∃ c ∈ text.toList.getLast?, ¬IsBlank c
  /-- It ends with a token, and the second one starts with a character that goes on with it. -/
  goesOn : ∃ t ∈ lastToken? text, ∃ c ∈ next.toList.head?,
    (t.kind ∈ Kind.words ∧ IsLetter c) ∨ (t.kind = .int ∧ IsDigit c) ∨
      (t.kind ∈ Kind.extensible ∧ c = '=')

theorem lastToken?_eq (text : String) : lastToken? text = (Lexer.tokens text.toList).getLast? := by
  rw [lastToken?, tokenize, List.dropLast_concat]
  rfl

/-! ### Two texts, the first of them cut -/

/-- A token is not read as it stands in front of a character that goes on with it. -/
theorem Lexer.head_tokens_ne {t : Token} (ht : t.Spelled) {c : Char} (hglue : t.gluesTo c = true)
    (cs : List Char) : (Lexer.tokens (t.literal.toList ++ c :: cs)).head? ≠ some t := by
  obtain ⟨d, ds, hd, hblank⟩ := ht.exists_cons
  rw [hd, List.cons_append, tokens_cons hblank, List.head?_cons]
  intro hfirst
  -- otherwise it would end in front of the character, which no token does
  have hscan := Option.some.inj hfirst
  have hsplit := literal_append_scan d (ds ++ c :: cs)
  rw [hscan, ← List.cons_append, ← hd] at hsplit
  have hrest := List.append_cancel_left hsplit
  have hends := gluesTo_scan d (ds ++ c :: cs) c (by rw [hrest]; rfl)
  rw [hscan, hglue] at hends
  cases hends

namespace Segmentation

variable {s : Segmentation}

theorem toList_text_eq_nil {gap : String} {parts : List (Token × String)}
    (h : IsMaximalMunch ⟨gap, parts⟩) :
    (⟨gap, parts⟩ : Segmentation).text.toList = [] ↔ gap = "" ∧ parts = [] := by
  cases parts with
  | nil => rw [toList_text_nil, String.toList_eq_nil_iff, eq_self, and_true]
  | cons part parts =>
    obtain ⟨t, after⟩ := part
    obtain ⟨d, ds, hd, -⟩ := h.spelled.exists_cons
    rw [toList_text_cons, hd]
    simp

/-- The tokens of two texts are read one after the other if and only if nothing goes on with
the last token of the first one, or there is a gap behind it. -/
theorem IsMaximalMunch.tokens_append_iff (h : s.IsMaximalMunch) (cs : List Char) :
    Lexer.tokens (s.text.toList ++ cs) = s.tokens ++ Lexer.tokens cs ↔
      ∀ t, s.parts.getLast? = some (t, "") → ∀ c ∈ cs.head?, t.gluesTo c = false := by
  obtain ⟨gap, parts⟩ := s
  induction parts generalizing gap with
  | nil =>
    -- nothing but blanks, which are skipped
    have hskip : Lexer.tokens ((⟨gap, []⟩ : Segmentation).text.toList ++ cs) = Lexer.tokens cs := by
      rw [toList_text_nil]
      exact tokens_congr (List.dropWhile_append_of_pos (isGap_iff.1 h.gap))
    rw [hskip]
    exact ⟨fun _ t => nofun, fun _ => rfl⟩
  | cons part parts ih =>
    obtain ⟨t, after⟩ := part
    -- the blanks before the first token are skipped
    have hskip : Lexer.tokens ((⟨gap, (t, after) :: parts⟩ : Segmentation).text.toList ++ cs) =
        Lexer.tokens (t.literal.toList ++
          ((⟨after, parts⟩ : Segmentation).text.toList ++ cs)) := by
      rw [toList_text_cons, List.append_assoc, List.append_assoc]
      exact tokens_congr (List.dropWhile_append_of_pos (isGap_iff.1 h.gap))
    have htokens : (⟨gap, (t, after) :: parts⟩ : Segmentation).tokens =
        t :: (⟨after, parts⟩ : Segmentation).tokens := rfl
    rw [hskip, htokens, List.cons_append]
    by_cases hend : (⟨after, parts⟩ : Segmentation).text.toList = []
    · -- the first text ends with this token
      obtain ⟨rfl, rfl⟩ := (toList_text_eq_nil h.tail).1 hend
      rw [hend, List.nil_append]
      constructor
      · -- if the second text went on with it, a longer token would be read
        rintro hread _ ⟨⟩ c hc
        obtain ⟨ds, rfl⟩ : ∃ ds, cs = c :: ds := ⟨cs.tail, List.eq_cons_of_mem_head? hc⟩
        refine Bool.eq_false_iff.2 fun hglue => head_tokens_ne h.spelled hglue ds ?_
        rw [hread, List.head?_cons]
      · intro hglue
        rw [tokens_append h.spelled (hglue t rfl)]
        rfl
    · -- it goes on with what is behind the token, which does not go on with the token
      obtain ⟨d, ds, hd⟩ := List.exists_cons_of_ne_nil hend
      have hread : Lexer.tokens (t.literal.toList ++
          ((⟨after, parts⟩ : Segmentation).text.toList ++ cs)) =
          t :: Lexer.tokens ((⟨after, parts⟩ : Segmentation).text.toList ++ cs) := by
        refine tokens_append h.spelled ?_
        have hnot := h.gluesTo_head
        rw [hd] at hnot ⊢
        exact hnot
      -- what stands behind it is not empty, and ends with the same token
      have hlast : ∀ u, ((t, after) :: parts).getLast? = some (u, "") ↔
          parts.getLast? = some (u, "") := by
        intro u
        cases parts with
        | nil =>
          have hafter : after ≠ "" := fun heq => hend ((toList_text_eq_nil h.tail).2 ⟨heq, rfl⟩)
          simp [hafter]
        | cons next parts => rw [List.getLast?_cons_cons]
      rw [hread, List.cons.injEq, eq_self, true_and, ih after h.tail]
      simp only [hlast]

theorem toList_join_concat (parts : List (Token × String)) (t : Token) (after : String) :
    (join (parts ++ [(t, after)])).toList =
      (join parts).toList ++ (t.literal.toList ++ after.toList) := by
  induction parts with
  | nil => simp [join]
  | cons part parts ih =>
    obtain ⟨u, gap⟩ := part
    simp only [List.cons_append, join, String.toList_append, ih, List.append_assoc]

/-- A text ends with its last token if and only if it does not end in a blank. -/
theorem IsMaximalMunch.getLast?_text (h : s.IsMaximalMunch) {t : Token} {after : String}
    (hlast : s.parts.getLast? = some (t, after)) :
    (∃ c ∈ s.text.toList.getLast?, ¬IsBlank c) ↔ after = "" := by
  obtain ⟨gap, parts⟩ := s
  obtain ⟨front, rfl⟩ := List.getLast?_eq_some_iff.1 hlast
  have hmem : (t, after) ∈ front ++ [(t, after)] := List.mem_append_right _ List.mem_cons_self
  have hspelled := (h.classified _ hmem).spelled
  rw [text, String.toList_append, toList_join_concat, ← List.append_assoc, ← List.append_assoc,
    List.getLast?_append]
  constructor
  · rintro ⟨c, hc, hblank⟩
    cases hgap : after.toList.getLast? with
    | none => exact String.toList_eq_nil_iff.1 (List.getLast?_eq_none_iff.1 hgap)
    | some d =>
      -- there is a blank behind the token
      rw [hgap, Option.some_or] at hc
      cases hc
      exact absurd (h.gaps _ hmem c (List.mem_of_getLast? hgap)) hblank
  · rintro rfl
    obtain ⟨d, ds, hd, -⟩ := hspelled.exists_cons
    have hne : t.literal.toList ≠ [] := hd ▸ List.cons_ne_nil d ds
    have hblank := hspelled.isBlank_of_mem _ (List.getLast_mem hne)
    refine ⟨t.literal.toList.getLast hne, ?_, ?_⟩
    · rw [List.getLast?_append, List.getLast?_eq_some_getLast hne]
      rfl
    · rw [← isBlank_iff, hblank]
      decide

end Segmentation

/-! ### Two texts -/

/-- Two texts glue if and only if there is no gap behind the last token of the first one, and
the second one goes on with it. -/
theorem Segmentation.IsMaximalMunch.glues_iff {s : Segmentation} (h : s.IsMaximalMunch)
    (next : String) : Glues s.text next ↔
      ∃ t, s.parts.getLast? = some (t, "") ∧ ∃ c ∈ next.toList.head?, t.gluesTo c = true := by
  have hlast : lastToken? s.text = s.parts.getLast?.map Prod.fst := by
    rw [lastToken?_eq, h.tokens_text, tokens, List.getLast?_map]
  constructor
  · rintro ⟨hblank, t, ht, c, hc, hgoes⟩
    rw [hlast] at ht
    obtain ⟨⟨u, after⟩, hu, rfl⟩ := Option.map_eq_some_iff.1 ht
    obtain rfl := (h.getLast?_text hu).1 hblank
    exact ⟨u, hu, c, hc, (u.gluesTo_iff_kind c).2 hgoes⟩
  · rintro ⟨t, ht, c, hc, hglue⟩
    refine ⟨(h.getLast?_text ht).2 rfl, t, ?_, c, hc, (t.gluesTo_iff_kind c).1 hglue⟩
    rw [hlast, ht]
    rfl

/-- **Tokens and the places where texts meet.**  The tokens of a text that is made of two are
those of the first and then those of the second one if and only if the two do not glue. -/
theorem tokenize_append_iff (text next : String) :
    tokenize (text ++ next) = (tokenize text).dropLast ++ tokenize next ↔ ¬Glues text next := by
  obtain ⟨s, hs, htext, htokens⟩ := exists_segmentation text.toList
  obtain rfl := String.toList_injective htext
  have hread : tokenize (s.text ++ next) = (tokenize s.text).dropLast ++ tokenize next ↔
      Lexer.tokens (s.text.toList ++ next.toList) = s.tokens ++ Lexer.tokens next.toList := by
    rw [htokens, ← String.toList_append]
    show Lexer.tokens _ ++ [Token.eof] = (Lexer.tokens _ ++ [Token.eof]).dropLast ++
      (Lexer.tokens _ ++ [Token.eof]) ↔ _
    rw [List.dropLast_concat, ← List.append_assoc, List.append_left_inj]
    exact Iff.rfl
  rw [hread, hs.tokens_append_iff, hs.glues_iff]
  simp only [not_exists, not_and, Bool.not_eq_true]

/-- A `=` goes on with a `=`, but not with two of them. -/
example : tokenize ("=" ++ "=") = [⟨.equal, "=="⟩, .eof] ∧
    tokenize ("==" ++ "=") = [⟨.equal, "=="⟩, ⟨.assign, "="⟩, .eof] := by
  decide +kernel

end Script
