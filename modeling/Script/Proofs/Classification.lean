import Script.Proofs.Spelling

/-!
# Tokens by their literals

The literal of a token alone says what the token is: a run of letters is a reserved word or a
name, a run of digits is a number, eighteen texts are signs, and any other single character
that is no blank belongs to nothing.  The literals also say whether two tokens can stand one
right behind the other.

## Main definitions

* `IsBlank`, `IsLetter`, `IsDigit` — the classes of characters.
* `IsGap`, `IsLetterRun`, `IsDigitRun` — texts of one class.
* `Token.keywords`, `Token.longSigns`, `Token.shortSigns` — the tokens that are always written
  the same.
* `Kind.words`, `Kind.extensible` — the kinds of token that letters or a `=` go on with.
* `Token.Classified` — the token is what its literal says.
* `JoinsTo` — of two texts the second one goes on with the first.

## Main results

* `Token.spelled_iff_classified` — the tokens that a text can be read as are those that are
  what their literals say.
* `Token.Classified.kind_iff` — the literal of a token says what class its kind belongs to.
* `Token.Spelled.gluesTo_iff` — a token is gone on with by the first character of another one
  if and only if their literals join.
-/

namespace Script

open Lexer

/-! ### Texts -/

/-- A space, a tab, a carriage return or a line feed. -/
def IsBlank (c : Char) : Prop := c ∈ [' ', '\t', '\r', '\n']

/-- An unaccented letter or the underscore. -/
def IsLetter (c : Char) : Prop := ('a' ≤ c ∧ c ≤ 'z') ∨ ('A' ≤ c ∧ c ≤ 'Z') ∨ c = '_'

/-- A decimal digit. -/
def IsDigit (c : Char) : Prop := '0' ≤ c ∧ c ≤ '9'

instance (c : Char) : Decidable (IsBlank c) := inferInstanceAs (Decidable (c ∈ _))

instance (c : Char) : Decidable (IsLetter c) := inferInstanceAs (Decidable (_ ∨ _ ∨ _))

instance (c : Char) : Decidable (IsDigit c) := inferInstanceAs (Decidable (_ ∧ _))

/-- Any number of blanks. -/
def IsGap (text : String) : Prop := ∀ c ∈ text.toList, IsBlank c

/-- One or more letters. -/
def IsLetterRun (text : String) : Prop := text ≠ "" ∧ ∀ c ∈ text.toList, IsLetter c

/-- One or more digits. -/
def IsDigitRun (text : String) : Prop := text ≠ "" ∧ ∀ c ∈ text.toList, IsDigit c

-- the characters of the text are gone through, and not those of the type
instance (text : String) : Decidable (IsGap text) := List.decidableBAll IsBlank text.toList

instance (text : String) : Decidable (IsLetterRun text) :=
  @instDecidableAnd _ _ _ (List.decidableBAll IsLetter text.toList)

instance (text : String) : Decidable (IsDigitRun text) :=
  @instDecidableAnd _ _ _ (List.decidableBAll IsDigit text.toList)

/-- The second of two texts goes on with the first one, if nothing stands between them. -/
def JoinsTo (text next : String) : Prop :=
  (IsLetterRun text ∧ IsLetterRun next) ∨ (IsDigitRun text ∧ IsDigitRun next) ∨
    (text ∈ ["=", "!", "<", ">"] ∧ next.toList.head? = some '=')

instance (text next : String) : Decidable (JoinsTo text next) :=
  inferInstanceAs (Decidable (_ ∨ _ ∨ _))

/-! ### Tokens -/

/-- Words, reserved or not. -/
def Kind.words : List Kind :=
  [.ident, .kwLet, .kwReturn, .kwFunction, .kwTrue, .kwFalse, .kwIf, .kwElse]

/-- The signs of one character that a `=` makes other signs of. -/
def Kind.extensible : List Kind := [.assign, .bang, .lessThan, .greaterThan]

namespace Token

/-- The reserved words. -/
def keywords : List Token :=
  [⟨.kwLet, "let"⟩, ⟨.kwReturn, "return"⟩, ⟨.kwFunction, "fn"⟩, ⟨.kwTrue, "true"⟩,
    ⟨.kwFalse, "false"⟩, ⟨.kwIf, "if"⟩, ⟨.kwElse, "else"⟩]

/-- The signs of two characters. -/
def longSigns : List Token :=
  [⟨.equal, "=="⟩, ⟨.notEqual, "!="⟩, ⟨.lessThanOrEqual, "<="⟩, ⟨.greaterThanOrEqual, ">="⟩]

/-- The signs of one character. -/
def shortSigns : List Token :=
  [⟨.assign, "="⟩, ⟨.bang, "!"⟩, ⟨.lessThan, "<"⟩, ⟨.greaterThan, ">"⟩, ⟨.plus, "+"⟩,
    ⟨.minus, "-"⟩, ⟨.asterisk, "*"⟩, ⟨.slash, "/"⟩, ⟨.comma, ","⟩, ⟨.semicolon, ";"⟩,
    ⟨.lparen, "("⟩, ⟨.rparen, ")"⟩, ⟨.lbrace, "\x7b"⟩, ⟨.rbrace, "\x7d"⟩]

/-- The token is what its literal says. -/
inductive Classified : Token → Prop where
  /-- A reserved word. -/
  | keyword {t : Token} (hmem : t ∈ keywords) : Classified t
  /-- A run of letters that is no reserved word. -/
  | name {text : String} (hrun : IsLetterRun text) (hfree : ∀ t ∈ keywords, t.literal ≠ text) :
      Classified ⟨.ident, text⟩
  /-- A run of digits. -/
  | number {text : String} (hrun : IsDigitRun text) : Classified ⟨.int, text⟩
  /-- A sign of two characters. -/
  | longSign {t : Token} (hmem : t ∈ longSigns) : Classified t
  /-- A sign of one character. -/
  | shortSign {t : Token} (hmem : t ∈ shortSigns) : Classified t
  /-- Another character, which is no blank. -/
  | other {c : Char} (hblank : ¬IsBlank c) (hletter : ¬IsLetter c) (hdigit : ¬IsDigit c)
      (hsign : ∀ t ∈ shortSigns, t.literal ≠ String.singleton c) :
      Classified ⟨.illegal, String.singleton c⟩

end Token

/-! ### Classes of characters -/

namespace Lexer

theorem isBlank_iff {c : Char} : isBlank c = true ↔ IsBlank c := by
  simp [isBlank, IsBlank, or_assoc]

theorem isLetter_iff {c : Char} : isLetter c = true ↔ IsLetter c := by
  have hupper : c.isUpper = true ↔ 'A' ≤ c ∧ c ≤ 'Z' := decide_eq_true_iff
  have hlower : c.isLower = true ↔ 'a' ≤ c ∧ c ≤ 'z' :=
    Bool.and_eq_true_iff.trans (and_congr decide_eq_true_iff decide_eq_true_iff)
  have halpha : c.isAlpha = true ↔ c.isUpper = true ∨ c.isLower = true := Bool.or_eq_true_iff
  rw [isLetter, Bool.or_eq_true, decide_eq_true_eq, halpha, hupper, hlower, or_assoc,
    or_left_comm, IsLetter]

theorem isDigit_iff {c : Char} : c.isDigit = true ↔ IsDigit c := by
  rw [Char.isDigit, Bool.and_eq_true, decide_eq_true_eq, decide_eq_true_eq]
  exact Iff.rfl

end Lexer

theorem isGap_iff {text : String} : IsGap text ↔ ∀ c ∈ text.toList, isBlank c = true := by
  simp only [IsGap, isBlank_iff]

theorem isLetterRun_iff {text : String} :
    IsLetterRun text ↔ text.toList ≠ [] ∧ ∀ c ∈ text.toList, isLetter c = true := by
  simp only [IsLetterRun, isLetter_iff, ne_eq, String.toList_eq_nil_iff]

theorem isDigitRun_iff {text : String} :
    IsDigitRun text ↔ text.toList ≠ [] ∧ ∀ c ∈ text.toList, c.isDigit = true := by
  simp only [IsDigitRun, isDigit_iff, ne_eq, String.toList_eq_nil_iff]

/-- No text is both. -/
theorem IsLetterRun.not_isDigitRun {text : String} (h : IsLetterRun text) : ¬IsDigitRun text := by
  intro hdigits
  obtain ⟨hne, hletters⟩ := isLetterRun_iff.1 h
  obtain ⟨c, cs, hc⟩ := List.exists_cons_of_ne_nil hne
  have hmem : c ∈ text.toList := hc ▸ List.mem_cons_self
  have hdigit := (isDigitRun_iff.1 hdigits).2 c hmem
  exact absurd (hletters c hmem) (Bool.eq_false_iff.1 (not_letter_of_digit hdigit))

/-! ### Literals and kinds -/

namespace Token

variable {t u : Token}

theorem mem_keywords_iff : t ∈ keywords ↔ (t.literal, t.kind) ∈ Kind.reserved := by
  have hwords : ∀ u ∈ keywords, (u.literal, u.kind) ∈ Kind.reserved := by decide
  have hentries : ∀ entry ∈ Kind.reserved, (⟨entry.2, entry.1⟩ : Token) ∈ keywords := by decide
  exact ⟨hwords t, hentries (t.literal, t.kind)⟩

theorem mem_longSigns_iff :
    t ∈ longSigns ↔ ∃ c, signWithEqual? c = some t.kind ∧ t.literal = String.ofList [c, '='] := by
  constructor
  · have hsigns : ∀ u ∈ longSigns, signWithEqual? (u.literal.toList.headD ' ') = some u.kind ∧
        u.literal = String.ofList [u.literal.toList.headD ' ', '='] := by decide
    intro ht
    exact ⟨t.literal.toList.headD ' ', hsigns t ht⟩
  · obtain ⟨kind, text⟩ := t
    rintro ⟨c, hkind, rfl⟩
    unfold signWithEqual? at hkind
    split at hkind <;> cases hkind <;> decide

theorem mem_shortSigns_iff :
    t ∈ shortSigns ↔ ∃ c, sign? c = some t.kind ∧ t.literal = String.singleton c := by
  constructor
  · have hsigns : ∀ u ∈ shortSigns, sign? (u.literal.toList.headD ' ') = some u.kind ∧
        u.literal = String.singleton (u.literal.toList.headD ' ') := by decide
    intro ht
    exact ⟨t.literal.toList.headD ' ', hsigns t ht⟩
  · obtain ⟨kind, text⟩ := t
    rintro ⟨c, hkind, rfl⟩
    unfold sign? at hkind
    split at hkind <;> cases hkind <;> decide

/-- The signs are neither blanks nor do they start a word or a number. -/
theorem class_of_sign {c : Char} {kind : Kind} (h : sign? c = some kind) :
    isBlank c = false ∧ isLetter c = false ∧ c.isDigit = false := by
  unfold sign? at h
  split at h <;> cases h <;> decide

theorem Spelled.classified (ht : t.Spelled) : t.Classified := by
  cases ht with
  | @word cs hne hletters =>
    have hrun : IsLetterRun (String.ofList cs) := by
      rw [isLetterRun_iff, String.toList_ofList]
      exact ⟨hne, hletters⟩
    unfold Kind.ofWord
    cases hlookup : Kind.reserved.lookup (String.ofList cs) with
    | none =>
      refine .name hrun fun u hu heq => ?_
      have hfree := List.lookup_eq_none_iff.1 hlookup _ (mem_keywords_iff.1 hu)
      exact bne_iff_ne.1 (by simpa using hfree) heq.symm
    | some kind =>
      obtain ⟨pre, post, heq, -⟩ := List.lookup_eq_some_iff.1 hlookup
      exact .keyword (mem_keywords_iff.2 (by rw [heq]; simp))
  | @number cs hne hdigits =>
    refine .number ?_
    rw [isDigitRun_iff, String.toList_ofList]
    exact ⟨hne, hdigits⟩
  | signWithEqual hsign => exact .longSign (mem_longSigns_iff.2 ⟨_, hsign, rfl⟩)
  | @sign c hblank hletter hdigit =>
    cases hsign : sign? c with
    | some kind => exact .shortSign (mem_shortSigns_iff.2 ⟨c, hsign, rfl⟩)
    | none =>
      refine .other ?_ ?_ ?_ fun u hu heq => ?_
      · rwa [← isBlank_iff, Bool.not_eq_true]
      · rwa [← isLetter_iff, Bool.not_eq_true]
      · rwa [← isDigit_iff, Bool.not_eq_true]
      obtain ⟨d, hd, hliteral⟩ := mem_shortSigns_iff.1 hu
      obtain rfl : d = c := by simpa using congrArg String.toList (hliteral.symm.trans heq)
      rw [hsign] at hd
      cases hd

theorem Classified.spelled (ht : t.Classified) : t.Spelled := by
  cases ht with
  | keyword hmem =>
    have hwords : ∀ u ∈ keywords, Kind.ofWord u.literal = u.kind ∧ u.literal.toList ≠ [] ∧
        u.literal.toList.all isLetter = true := by decide
    obtain ⟨hkind, hne, hletters⟩ := hwords t hmem
    have hword := spelled_word t.literal hne hletters
    rwa [hkind] at hword
  | @name text hrun hfree =>
    -- a word that is not reserved is a name
    have hlookup : Kind.reserved.lookup text = none := by
      rw [List.lookup_eq_none_iff]
      intro entry hentry
      have hne : entry.1 ≠ text := hfree ⟨entry.2, entry.1⟩ (mem_keywords_iff.2 hentry)
      exact bne_iff_ne.2 hne.symm
    have hkind : Kind.ofWord text = .ident := by rw [Kind.ofWord, hlookup, Option.getD_none]
    obtain ⟨hne, hletters⟩ := isLetterRun_iff.1 hrun
    have hword := spelled_word text hne (List.all_eq_true.2 hletters)
    rwa [hkind] at hword
  | @number text hrun =>
    obtain ⟨hne, hdigits⟩ := isDigitRun_iff.1 hrun
    exact spelled_number text hne (List.all_eq_true.2 hdigits)
  | longSign hmem =>
    obtain ⟨c, hkind, hliteral⟩ := mem_longSigns_iff.1 hmem
    have hsign := Spelled.signWithEqual hkind
    rwa [← hliteral] at hsign
  | shortSign hmem =>
    obtain ⟨c, hkind, hliteral⟩ := mem_shortSigns_iff.1 hmem
    obtain ⟨hblank, hletter, hdigit⟩ := class_of_sign hkind
    have hsign := Spelled.sign hblank hletter hdigit
    rwa [hkind, Option.getD_some, ← hliteral] at hsign
  | @other c hblank hletter hdigit hsign =>
    -- if the character stood for a sign, it would be one of the short ones
    have hnone : sign? c = none := by
      cases hkind : sign? c with
      | none => rfl
      | some kind => exact absurd rfl (hsign ⟨kind, _⟩ (mem_shortSigns_iff.2 ⟨c, hkind, rfl⟩))
    rw [← isBlank_iff, Bool.not_eq_true] at hblank
    rw [← isLetter_iff, Bool.not_eq_true] at hletter
    rw [← isDigit_iff, Bool.not_eq_true] at hdigit
    have hother := Spelled.sign hblank hletter hdigit
    rwa [hnone, Option.getD_none] at hother

/-- **The tokens that a text can be read as** are those that are what their literals say. -/
theorem spelled_iff_classified : t.Spelled ↔ t.Classified :=
  ⟨Spelled.classified, Classified.spelled⟩

/-! ### First characters -/

/-- There are no blanks in a token. -/
theorem Spelled.isBlank_of_mem (ht : t.Spelled) : ∀ c ∈ t.literal.toList, isBlank c = false := by
  cases ht with
  | word hne hletters =>
    rw [String.toList_ofList]
    exact fun c hc => not_blank_of_letter (hletters c hc)
  | number hne hdigits =>
    rw [String.toList_ofList]
    exact fun c hc => not_blank_of_digit (hdigits c hc)
  | signWithEqual hsign =>
    rw [String.toList_ofList, List.forall_mem_cons, List.forall_mem_singleton]
    exact ⟨not_blank_of_signWithEqual hsign, rfl⟩
  | sign hblank =>
    rw [String.toList_singleton, List.forall_mem_singleton]
    exact hblank

/-- A token has a first character, and it is no blank. -/
theorem Spelled.exists_cons (ht : t.Spelled) :
    ∃ c cs, t.literal.toList = c :: cs ∧ isBlank c = false := by
  have hne : t.literal.toList ≠ [] := by
    cases ht with
    | word hne => rwa [String.toList_ofList]
    | number hne => rwa [String.toList_ofList]
    | signWithEqual => simp
    | sign => simp
  obtain ⟨c, cs, hc⟩ := List.exists_cons_of_ne_nil hne
  exact ⟨c, cs, hc, ht.isBlank_of_mem c (by rw [hc]; exact List.mem_cons_self)⟩

/-- A token is a run of letters, a run of digits, or starts with another character. -/
theorem Spelled.run_cases (ht : t.Spelled) {c : Char} {cs : List Char}
    (hc : t.literal.toList = c :: cs) :
    (isLetter c = true ∧ IsLetterRun t.literal) ∨ (c.isDigit = true ∧ IsDigitRun t.literal) ∨
      (isLetter c = false ∧ c.isDigit = false) := by
  have hmem : c ∈ t.literal.toList := by rw [hc]; exact List.mem_cons_self
  cases ht with
  | word hne hletters =>
    rw [String.toList_ofList] at hmem
    refine .inl ⟨hletters c hmem, ?_⟩
    rw [isLetterRun_iff, String.toList_ofList]
    exact ⟨hne, hletters⟩
  | number hne hdigits =>
    rw [String.toList_ofList] at hmem
    refine .inr (.inl ⟨hdigits c hmem, ?_⟩)
    rw [isDigitRun_iff, String.toList_ofList]
    exact ⟨hne, hdigits⟩
  | signWithEqual hsign =>
    rw [String.toList_ofList] at hc
    cases hc
    unfold signWithEqual? at hsign
    split at hsign <;> cases hsign <;> decide
  | sign hblank hletter hdigit =>
    rw [String.toList_singleton] at hc
    cases hc
    exact .inr (.inr ⟨hletter, hdigit⟩)

/-- The first character of a token says whether the token is a run of letters. -/
theorem Spelled.isLetterRun_iff_head (ht : t.Spelled) {c : Char} {cs : List Char}
    (hc : t.literal.toList = c :: cs) : IsLetterRun t.literal ↔ isLetter c = true := by
  constructor
  · intro hrun
    exact (isLetterRun_iff.1 hrun).2 c (by rw [hc]; exact List.mem_cons_self)
  · intro hletter
    rcases ht.run_cases hc with ⟨-, hrun⟩ | ⟨hdigit, -⟩ | ⟨hnot, -⟩
    · exact hrun
    · exact absurd hletter (Bool.eq_false_iff.1 (not_letter_of_digit hdigit))
    · exact absurd hletter (Bool.eq_false_iff.1 hnot)

/-- The first character of a token says whether the token is a run of digits. -/
theorem Spelled.isDigitRun_iff_head (ht : t.Spelled) {c : Char} {cs : List Char}
    (hc : t.literal.toList = c :: cs) : IsDigitRun t.literal ↔ c.isDigit = true := by
  constructor
  · intro hrun
    exact (isDigitRun_iff.1 hrun).2 c (by rw [hc]; exact List.mem_cons_self)
  · intro hdigit
    rcases ht.run_cases hc with ⟨hletter, -⟩ | ⟨-, hrun⟩ | ⟨-, hnot⟩
    · exact absurd hletter (Bool.eq_false_iff.1 (not_letter_of_digit hdigit))
    · exact hrun
    · exact absurd hdigit (Bool.eq_false_iff.1 hnot)

/-- Nothing goes on with a sign of two characters. -/
theorem gluesTo_of_mem_longSigns (ht : t ∈ longSigns) (c : Char) : t.gluesTo c = false := by
  have hends : ∀ u ∈ longSigns, u.gluesTo c = false := by simp [longSigns, gluesTo]
  exact hends t ht

/-- Whether a character goes on with a token depends on the kind of the token. -/
theorem gluesTo_iff_kind (t : Token) (c : Char) :
    t.gluesTo c = true ↔ (t.kind ∈ Kind.words ∧ IsLetter c) ∨ (t.kind = .int ∧ IsDigit c) ∨
      (t.kind ∈ Kind.extensible ∧ c = '=') := by
  obtain ⟨kind, literal⟩ := t
  rw [← isLetter_iff, ← isDigit_iff]
  cases kind <;> simp [gluesTo, Kind.words, Kind.extensible]

/-- The literal of a token says what class its kind belongs to. -/
theorem Classified.kind_iff (ht : t.Classified) :
    (t.kind ∈ Kind.words ↔ IsLetterRun t.literal) ∧ (t.kind = .int ↔ IsDigitRun t.literal) ∧
      (t.kind ∈ Kind.extensible ↔ t.literal ∈ ["=", "!", "<", ">"]) := by
  have hwritten : ∀ u ∈ keywords ++ longSigns ++ shortSigns,
      (u.kind ∈ Kind.words ↔ IsLetterRun u.literal) ∧ (u.kind = .int ↔ IsDigitRun u.literal) ∧
        (u.kind ∈ Kind.extensible ↔ u.literal ∈ ["=", "!", "<", ">"]) := by decide
  have hsigns : ∀ text ∈ ["=", "!", "<", ">"], ¬IsLetterRun text ∧ ¬IsDigitRun text := by decide
  cases ht with
  | keyword hmem => exact hwritten t (by simp [hmem])
  | longSign hmem => exact hwritten t (by simp [hmem])
  | shortSign hmem => exact hwritten t (by simp [hmem])
  | name hrun =>
    have hkind : Kind.ident ∈ Kind.words ∧ Kind.ident ≠ .int ∧ Kind.ident ∉ Kind.extensible := by
      decide
    refine ⟨iff_of_true hkind.1 hrun, iff_of_false hkind.2.1 hrun.not_isDigitRun, ?_⟩
    exact iff_of_false hkind.2.2 fun hmem => (hsigns _ hmem).1 hrun
  | number hrun =>
    have hkind : Kind.int ∉ Kind.words ∧ Kind.int ∉ Kind.extensible := by decide
    refine ⟨iff_of_false hkind.1 fun hletters => hletters.not_isDigitRun hrun,
      iff_of_true rfl hrun, ?_⟩
    exact iff_of_false hkind.2 fun hmem => (hsigns _ hmem).2 hrun
  | @other c hblank hletter hdigit hsign =>
    have hkind : Kind.illegal ∉ Kind.words ∧ Kind.illegal ≠ .int ∧
        Kind.illegal ∉ Kind.extensible := by decide
    refine ⟨iff_of_false hkind.1 fun hrun => hletter ?_,
      iff_of_false hkind.2.1 fun hrun => hdigit ?_, iff_of_false hkind.2.2 fun hmem => ?_⟩
    · exact hrun.2 c (by rw [String.toList_singleton]; exact List.mem_cons_self)
    · exact hrun.2 c (by rw [String.toList_singleton]; exact List.mem_cons_self)
    · have hshort : ∀ text ∈ ["=", "!", "<", ">"], ∃ u ∈ shortSigns, u.literal = text := by decide
      obtain ⟨u, hu, heq⟩ := hshort _ hmem
      exact hsign u hu heq

/-- Whether a character goes on with a token depends on the literal of the token. -/
theorem Spelled.gluesTo_eq (ht : t.Spelled) (c : Char) :
    t.gluesTo c = true ↔ (IsLetterRun t.literal ∧ IsLetter c) ∨
      (IsDigitRun t.literal ∧ IsDigit c) ∨ (t.literal ∈ ["=", "!", "<", ">"] ∧ c = '=') := by
  obtain ⟨hwords, hint, hextensible⟩ := ht.classified.kind_iff
  rw [gluesTo_iff_kind, hwords, hint, hextensible]

/-- A token is gone on with by the first character of another one if and only if their
literals join. -/
theorem Spelled.gluesTo_iff (ht : t.Spelled) (hu : u.Spelled) {c : Char} {cs : List Char}
    (hc : u.literal.toList = c :: cs) : t.gluesTo c = true ↔ JoinsTo t.literal u.literal := by
  rw [ht.gluesTo_eq, JoinsTo, hu.isLetterRun_iff_head hc, hu.isDigitRun_iff_head hc, isLetter_iff,
    isDigit_iff, hc, List.head?_cons, Option.some_inj]

end Token

end Script
