import Mathlib.Data.List.Chain
import Script.Proofs.Classification

/-!
# Cutting a text into tokens

A text is cut into tokens by saying what stands in front of the first one and what stands
behind each of them.  The cut is right if there are only blanks between the tokens, if every
token is what its literal says and if no token could have been longer: where nothing stands
between two of them, the second one does not go on with the first.  Every text can be cut
right in exactly one way, and these are the tokens that it is read as.

## Main definitions

* `Segmentation` — the tokens of a text and the gaps around them, with `Segmentation.text`.
* `Segmentation.IsMaximalMunch` — the cut is right.

## Main results

* `Segmentation.IsMaximalMunch.tokens_text` — a text that is cut right is read as the tokens
  of the cut.
* `Segmentation.IsMaximalMunch.eq_of_text` — a text is cut right in one way only.
* `exists_segmentation` — it can be cut right.
* `tokenize_maximalMunch` — a source is read as the tokens of the one cut that is right.
-/

namespace Script

open Lexer

/-! ### Cuts -/

/-- Tokens and what stands around them. -/
structure Segmentation where
  /-- What stands in front of the first token. -/
  gap : String
  /-- The tokens, each with what stands behind it. -/
  parts : List (Token × String)

namespace Segmentation

/-- The literals of tokens, each with what stands behind it. -/
def join : List (Token × String) → String
  | [] => ""
  | (t, gap) :: parts => t.literal ++ (gap ++ join parts)

/-- The text that is cut. -/
def text (s : Segmentation) : String := s.gap ++ join s.parts

/-- The tokens without the gaps. -/
def tokens (s : Segmentation) : Tokens := s.parts.map Prod.fst

/-- There are only blanks between the tokens, and each token is as long as it can be. -/
structure IsMaximalMunch (s : Segmentation) : Prop where
  /-- Only blanks stand in front of the first token, -/
  gap : IsGap s.gap
  /-- and only blanks stand behind each token. -/
  gaps : ∀ part ∈ s.parts, IsGap part.2
  /-- Every token is what its literal says. -/
  classified : ∀ part ∈ s.parts, part.1.Classified
  /-- No token goes on with the one right before it. -/
  longest : s.parts.IsChain fun part next => part.2 = "" → ¬JoinsTo part.1.literal next.1.literal

variable {gap gap' : String} {t : Token} {parts : List (Token × String)} {s s' : Segmentation}

theorem toList_text_nil : (⟨gap, []⟩ : Segmentation).text.toList = gap.toList := by
  simp [text, join]

theorem toList_text_cons : (⟨gap, (t, gap') :: parts⟩ : Segmentation).text.toList =
    gap.toList ++ (t.literal.toList ++ (⟨gap', parts⟩ : Segmentation).text.toList) := by
  simp only [text, join, String.toList_append]

namespace IsMaximalMunch

theorem spelled (h : IsMaximalMunch ⟨gap, (t, gap') :: parts⟩) : t.Spelled :=
  Token.spelled_iff_classified.2 (h.classified _ List.mem_cons_self)

/-- The cut behind the first token. -/
theorem tail (h : IsMaximalMunch ⟨gap, (t, gap') :: parts⟩) : IsMaximalMunch ⟨gap', parts⟩ where
  gap := h.gaps _ List.mem_cons_self
  gaps part hpart := h.gaps part (List.mem_cons_of_mem _ hpart)
  classified part hpart := h.classified part (List.mem_cons_of_mem _ hpart)
  longest := h.longest.tail

/-- What stands behind a token does not go on with it. -/
theorem gluesTo_head (h : IsMaximalMunch ⟨gap, (t, gap') :: parts⟩) :
    ∀ c ∈ (⟨gap', parts⟩ : Segmentation).text.toList.head?, t.gluesTo c = false := by
  intro c hc
  cases hgap : gap'.toList with
  | cons d ds =>
    -- it starts with a blank
    have hfirst : c = d := by
      simpa [text, String.toList_append, hgap, eq_comm] using hc
    have hblank := isGap_iff.1 h.tail.gap c (by rw [hgap, hfirst]; exact List.mem_cons_self)
    exact t.gluesTo_of_isBlank hblank
  | nil =>
    cases parts with
    | nil =>
      rw [toList_text_nil, hgap] at hc
      cases hc
    | cons next parts =>
      -- it starts with the next token
      obtain ⟨u, after⟩ := next
      obtain ⟨d, ds, hd, -⟩ := h.tail.spelled.exists_cons
      have hfirst : c = d := by
        rw [toList_text_cons, hgap, hd] at hc
        simpa [eq_comm] using hc
      subst hfirst
      have hnot := (List.isChain_cons_cons.1 h.longest).1 (String.toList_eq_nil_iff.1 hgap)
      refine Bool.eq_false_iff.2 fun hglue => hnot ?_
      exact (h.spelled.gluesTo_iff h.tail.spelled hd).1 hglue

/-- A token can be put in front of a cut if nothing goes on with it there. -/
theorem cons (hgap : IsGap gap) (ht : t.Spelled) (hs : s.IsMaximalMunch)
    (hends : ∀ c ∈ s.text.toList.head?, t.gluesTo c = false) :
    IsMaximalMunch ⟨gap, (t, s.gap) :: s.parts⟩ where
  gap := hgap
  gaps := List.forall_mem_cons.2 ⟨hs.gap, hs.gaps⟩
  classified := List.forall_mem_cons.2 ⟨ht.classified, hs.classified⟩
  longest := by
    refine List.isChain_cons.2 ⟨?_, hs.longest⟩
    obtain ⟨after, parts⟩ := s
    rintro ⟨u, behind⟩ hnext (rfl : after = "") hjoins
    obtain ⟨more, rfl⟩ : ∃ more, parts = (u, behind) :: more :=
      ⟨parts.tail, List.eq_cons_of_mem_head? hnext⟩
    obtain ⟨c, cs, hc, -⟩ := hs.spelled.exists_cons
    have hglue := (ht.gluesTo_iff hs.spelled hc).2 hjoins
    rw [hends c (by rw [toList_text_cons, hc]; rfl)] at hglue
    cases hglue

/-- The gap in front of the first token ends with the blanks. -/
theorem takeWhile_text (h : s.IsMaximalMunch) : s.text.toList.takeWhile isBlank = s.gap.toList ∧
    s.text.toList.dropWhile isBlank = (join s.parts).toList := by
  obtain ⟨gap, parts⟩ := s
  rw [text, String.toList_append]
  refine takeWhile_run (isGap_iff.1 h.gap) ?_
  intro c hc
  cases parts with
  | nil => cases hc
  | cons part parts =>
    obtain ⟨t, after⟩ := part
    obtain ⟨d, ds, hd, hblank⟩ := h.spelled.exists_cons
    rw [join, String.toList_append, hd] at hc
    cases hc
    exact hblank

/-- **A text that is cut right** is read as the tokens of the cut. -/
theorem tokens_text (h : s.IsMaximalMunch) : Lexer.tokens s.text.toList = s.tokens := by
  obtain ⟨gap, parts⟩ := s
  induction parts generalizing gap with
  | nil =>
    rw [tokens_eq_nil h.takeWhile_text.2]
    rfl
  | cons part parts ih =>
    obtain ⟨t, after⟩ := part
    have hskip : Lexer.tokens (⟨gap, (t, after) :: parts⟩ : Segmentation).text.toList =
        Lexer.tokens (t.literal.toList ++ (⟨after, parts⟩ : Segmentation).text.toList) := by
      rw [toList_text_cons]
      exact tokens_congr (List.dropWhile_append_of_pos (isGap_iff.1 h.gap))
    rw [hskip, tokens_append h.spelled h.gluesTo_head, ih after h.tail]
    rfl

/-- **A text is cut right in one way only.** -/
theorem eq_of_text (h : s.IsMaximalMunch) (h' : s'.IsMaximalMunch) (htext : s.text = s'.text) :
    s = s' := by
  obtain ⟨gap, parts⟩ := s
  obtain ⟨gap', parts'⟩ := s'
  induction parts generalizing gap gap' parts' with
  | nil =>
    cases parts' with
    | nil =>
      have hgap := congrArg String.toList htext
      rw [toList_text_nil, toList_text_nil] at hgap
      rw [String.toList_injective hgap]
    | cons part' parts' =>
      have htokens := h.tokens_text
      rw [htext, h'.tokens_text] at htokens
      cases htokens
  | cons part parts ih =>
    obtain ⟨t, after⟩ := part
    have htokens := h'.tokens_text
    rw [← htext, h.tokens_text] at htokens
    cases parts' with
    | nil => cases htokens
    | cons part' parts' =>
      obtain ⟨t', after'⟩ := part'
      obtain rfl : t = t' := (List.cons.inj htokens).1
      have hgap : gap.toList = gap'.toList := by
        rw [← h.takeWhile_text.1, htext, h'.takeWhile_text.1]
      have hrest := congrArg String.toList htext
      rw [toList_text_cons, toList_text_cons, hgap] at hrest
      have hbehind := List.append_cancel_left (List.append_cancel_left hrest)
      have htail := ih after h.tail after' parts' h'.tail (String.toList_injective hbehind)
      rw [Segmentation.mk.injEq] at htail
      rw [String.toList_injective hgap, htail.1, htail.2]

end IsMaximalMunch

end Segmentation

/-! ### The cut of a text -/

namespace Lexer

/-- A token is taken off the front of the text as it stands there. -/
theorem literal_append_scan (c : Char) (rest : List Char) :
    (scan c rest).1.literal.toList ++ (scan c rest).2 = c :: rest := by
  unfold scan
  split
  · rw [String.toList_ofList, List.cons_append, List.takeWhile_append_dropWhile]
  · split
    · rw [String.toList_ofList, List.cons_append, List.takeWhile_append_dropWhile]
    · unfold scanSign
      split
      · rw [String.toList_ofList]
        rfl
      · rw [String.toList_singleton]
        rfl

/-- A run of characters of one class is followed by none of them. -/
theorem head_dropWhile {p : Char → Bool} (cs : List Char) :
    ∀ c ∈ (cs.dropWhile p).head?, p c = false := by
  intro c hc
  have hnot := List.head?_dropWhile_not p cs
  rwa [Option.mem_def.1 hc] at hnot

/-- A sign of one character is gone on with where it starts one of two characters. -/
theorem signWithEqual_of_gluesTo {c d : Char}
    (h : Token.gluesTo ⟨(sign? c).getD .illegal, String.singleton c⟩ d = true) :
    (∃ kind, signWithEqual? c = some kind) ∧ d = '=' := by
  unfold sign? at h
  split at h <;> simp_all [Token.gluesTo, signWithEqual?]

/-- A token ends where nothing goes on with it. -/
theorem gluesTo_scan (c : Char) (rest : List Char) :
    ∀ d ∈ (scan c rest).2.head?, (scan c rest).1.gluesTo d = false := by
  unfold scan
  split
  · intro d hd
    rw [gluesTo_word]
    exact head_dropWhile rest d hd
  · split
    · exact head_dropWhile rest
    · unfold scanSign
      split
      · next kind rest' hsign =>
        intro d _
        have hmem := Token.mem_longSigns_iff (t := ⟨kind, String.ofList [c, '=']⟩).2 ⟨c, hsign, rfl⟩
        exact Token.gluesTo_of_mem_longSigns hmem d
      · next hshort =>
        intro d hd
        refine Bool.eq_false_iff.2 fun hglue => ?_
        obtain ⟨⟨kind, hsign⟩, rfl⟩ := signWithEqual_of_gluesTo hglue
        exact hshort kind _ hsign (List.eq_cons_of_mem_head? hd)

end Lexer

/-- Every text can be cut right, into the tokens that it is read as. -/
theorem exists_segmentation (cs : List Char) :
    ∃ s : Segmentation, s.IsMaximalMunch ∧ s.text.toList = cs ∧ s.tokens = Lexer.tokens cs := by
  induction cs using Lexer.tokens.induct with
  | case1 cs hdrop =>
    refine ⟨⟨String.ofList cs, []⟩, ⟨?_, List.forall_mem_nil _, List.forall_mem_nil _, .nil⟩,
      ?_, ?_⟩
    · rw [isGap_iff, String.toList_ofList]
      exact List.dropWhile_eq_nil_iff.1 hdrop
    · rw [Segmentation.toList_text_nil, String.toList_ofList]
    · rw [tokens_eq_nil hdrop]
      rfl
  | case2 cs c rest hdrop ih =>
    obtain ⟨s, hs, htext, htokens⟩ := ih
    have hsplit :
        cs.takeWhile isBlank ++ ((scan c rest).1.literal.toList ++ (scan c rest).2) = cs := by
      rw [literal_append_scan, ← hdrop, List.takeWhile_append_dropWhile]
    have hblank : isBlank c = false := head_dropWhile cs c (by rw [hdrop]; rfl)
    have hgap : IsGap (String.ofList (cs.takeWhile isBlank)) := by
      rw [isGap_iff, String.toList_ofList]
      exact fun d hd => List.mem_takeWhile_imp hd
    have hends : ∀ d ∈ s.text.toList.head?, (scan c rest).1.gluesTo d = false := by
      rw [htext]
      exact gluesTo_scan c rest
    refine ⟨_, hs.cons hgap (spelled_scan hblank rest) hends, ?_, ?_⟩
    · rw [Segmentation.toList_text_cons, String.toList_ofList, htext, hsplit]
    · rw [tokens_eq_cons hdrop, ← htokens]
      rfl

/-- **Maximal munch.**  Every source is cut in exactly one way into gaps of blanks and tokens
that are what their literals say and as long as they can be.  It is read as the tokens of this
cut and then once the end of the source, which is none of them. -/
theorem tokenize_maximalMunch (source : String) :
    ∃ s : Segmentation, s.IsMaximalMunch ∧ s.text = source ∧
      tokenize source = s.tokens ++ [Token.eof] ∧ (∀ t ∈ s.tokens, t.kind ≠ .eof) ∧
      ∀ s' : Segmentation, s'.IsMaximalMunch → s'.text = source → s' = s := by
  obtain ⟨s, hs, htext, htokens⟩ := exists_segmentation source.toList
  have hsource : s.text = source := String.toList_injective htext
  refine ⟨s, hs, hsource, ?_, ?_, ?_⟩
  · rw [htokens]
    rfl
  · intro t ht
    rw [htokens] at ht
    exact (spelled_of_mem_tokens ht).kind_ne_eof
  · intro s' hs' htext'
    exact hs'.eq_of_text hs (htext'.trans hsource.symm)

/-- Characters that belong to nothing stand for themselves and end what is in front of them. -/
example : tokenize "le\x00t1é==" =
    [⟨.ident, "le"⟩, ⟨.illegal, "\x00"⟩, ⟨.ident, "t"⟩, ⟨.int, "1"⟩, ⟨.illegal, "é"⟩,
      ⟨.equal, "=="⟩, .eof] := by
  decide +kernel

end Script
