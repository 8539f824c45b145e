import Mathlib.Data.List.TakeWhile
import Script.Lexer
import Script.Tokens

/-!
# Spelled tokens

A token is spelled when its kind is the one that its literal, standing alone, is
read as.  The literals of spelled tokens can be written one after the other: each
is read as its token again, if the character behind it does not go on with it.

## Main definitions

* `Token.Spelled` — the tokens that a text can be read as.
* `Token.gluesTo` — whether a character goes on with the literal before it.
* `Tokens.spaced` — the literals of tokens, with one blank between neighbours.

## Main results

* `Lexer.tokens_append` — a literal is read as its token, whatever follows that
  does not go on with it.
* `Lexer.spelled_of_mem_tokens` — every token that is read is spelled.
* `Lexer.tokens_append_blank` — a blank separates the tokens of two texts.
* `Lexer.tokens_spaced` — spelled tokens are read back from their literals.
-/

namespace Script

open Lexer

/-- The token is what its literal is read as. -/
inductive Token.Spelled : Token → Prop where
  /-- A word: a reserved one or a name. -/
  | word {cs : List Char} (hne : cs ≠ []) (hletters : ∀ c ∈ cs, isLetter c = true) :
      Spelled ⟨Kind.ofWord (String.ofList cs), String.ofList cs⟩
  /-- A number. -/
  | number {cs : List Char} (hne : cs ≠ []) (hdigits : ∀ c ∈ cs, c.isDigit = true) :
      Spelled ⟨.int, String.ofList cs⟩
  /-- A sign of two characters. -/
  | signWithEqual {c : Char} {kind : Kind} (hsign : signWithEqual? c = some kind) :
      Spelled ⟨kind, String.ofList [c, '=']⟩
  /-- A sign of one character, or a character that belongs to no other token. -/
  | sign {c : Char} (hblank : isBlank c = false) (hletter : isLetter c = false)
      (hdigit : c.isDigit = false) : Spelled ⟨(sign? c).getD .illegal, String.singleton c⟩

/-- A word is read as a name or a reserved word. -/
theorem Token.spelled_word (word : String) (hne : word.toList ≠ [])
    (hletters : word.toList.all isLetter = true) : Spelled ⟨Kind.ofWord word, word⟩ := by
  have h := Spelled.word hne (List.all_eq_true.1 hletters)
  rwa [String.ofList_toList] at h

/-- A run of digits is read as a number. -/
theorem Token.spelled_number (digits : String) (hne : digits.toList ≠ [])
    (hdigits : digits.toList.all Char.isDigit = true) : Spelled ⟨.int, digits⟩ := by
  have h := Spelled.number hne (List.all_eq_true.1 hdigits)
  rwa [String.ofList_toList] at h

/-- Whether the character goes on with the token when it stands right behind it. -/
def Token.gluesTo (t : Token) (c : Char) : Bool :=
  match t.kind with
  | .ident | .kwLet | .kwReturn | .kwFunction | .kwTrue | .kwFalse | .kwIf | .kwElse => isLetter c
  | .int => c.isDigit
  | .assign | .bang | .lessThan | .greaterThan => c = '='
  | _ => false

/-- The literals of tokens, with one blank between neighbours. -/
def Tokens.spaced (ts : Tokens) : String := " ".intercalate (ts.map Token.literal)

namespace Lexer

/-! ### Character classes -/

/-- A class to which none of the four blanks belongs has no blanks in it. -/
theorem not_blank_of {p : Char → Bool} (hp : [' ', '\t', '\r', '\n'].any p = false) {c : Char}
    (h : p c = true) : isBlank c = false := by
  by_cases hblank : isBlank c = true
  · have hmem : c ∈ [' ', '\t', '\r', '\n'] := by simpa [isBlank, or_assoc] using hblank
    exact absurd h (List.any_eq_false.1 hp c hmem)
  · exact eq_false_of_ne_true hblank

theorem not_blank_of_letter {c : Char} (h : isLetter c = true) : isBlank c = false :=
  not_blank_of (by decide) h

theorem not_blank_of_digit {c : Char} (h : c.isDigit = true) : isBlank c = false :=
  not_blank_of (by decide) h

theorem not_letter_of_digit {c : Char} (h : c.isDigit = true) : isLetter c = false := by
  have hne : c ≠ '_' := by
    rintro rfl
    revert h
    decide
  -- the digits come before the letters in the order of the characters
  have hle : c.val.toNat ≤ 57 := of_decide_eq_true (Bool.and_eq_true_iff.1 h).2
  have hupper : c.isUpper = false := by
    refine decide_eq_false ?_
    rintro ⟨hge, -⟩
    have : 65 ≤ c.val.toNat := hge
    omega
  have hlower : c.isLower = false := by
    refine Bool.and_eq_false_iff.2 (.inl (decide_eq_false ?_))
    intro hge
    have : 97 ≤ c.val.toNat := hge
    omega
  have halpha : c.isAlpha = false := Bool.or_eq_false_iff.2 ⟨hupper, hlower⟩
  exact Bool.or_eq_false_iff.2 ⟨halpha, decide_eq_false hne⟩

/-! ### Kinds of words -/

/-- The kind of a word is that of a name or of a reserved word. -/
theorem ofWord_mem (word : String) :
    Kind.ofWord word ∈ Kind.ident :: Kind.reserved.map Prod.snd := by
  unfold Kind.ofWord
  cases h : Kind.reserved.lookup word with
  | none => exact List.mem_cons_self
  | some kind =>
    obtain ⟨pre, post, heq, -⟩ := List.lookup_eq_some_iff.1 h
    refine List.mem_cons_of_mem _ (List.mem_map.2 ⟨(word, kind), ?_, rfl⟩)
    rw [heq]
    simp

/-- No word is of any other kind. -/
theorem ofWord_ne (word : String) {kind : Kind}
    (h : kind ∉ Kind.ident :: Kind.reserved.map Prod.snd) : Kind.ofWord word ≠ kind := by
  rintro rfl
  exact h (ofWord_mem word)

/-- A letter goes on with every word, and nothing else does. -/
theorem gluesTo_word (word literal : String) (c : Char) :
    Token.gluesTo ⟨Kind.ofWord word, literal⟩ c = isLetter c := by
  have hmem := ofWord_mem word
  simp only [Kind.reserved, List.map_cons, List.map_nil, List.mem_cons, List.not_mem_nil,
    or_false] at hmem
  unfold Token.gluesTo
  rcases hmem with h | h | h | h | h | h | h | h <;> rw [h]

/-! ### One token -/

/-- A text that starts with no blank starts with a token. -/
theorem tokens_cons {c : Char} (hblank : isBlank c = false) (cs : List Char) :
    tokens (c :: cs) = (scan c cs).1 :: tokens (scan c cs).2 := by
  apply tokens_eq_cons
  rw [List.dropWhile_cons, hblank]
  rfl

@[simp] theorem tokens_nil : tokens [] = [] := tokens_eq_nil rfl

/-- Blanks in front of a text make no difference. -/
theorem tokens_congr {cs ds : List Char} (h : cs.dropWhile isBlank = ds.dropWhile isBlank) :
    tokens cs = tokens ds := by
  cases hds : ds.dropWhile isBlank with
  | nil => rw [tokens_eq_nil hds, tokens_eq_nil (h.trans hds)]
  | cons c rest => rw [tokens_eq_cons hds, tokens_eq_cons (h.trans hds)]

@[simp] theorem tokens_blank (cs : List Char) : tokens (' ' :: cs) = tokens cs :=
  tokens_congr (List.dropWhile_cons_of_pos rfl)

/-- A run of characters ends where the next character is of another class. -/
theorem takeWhile_run {p : Char → Bool} {cs rest : List Char} (hcs : ∀ c ∈ cs, p c = true)
    (hrest : ∀ c ∈ rest.head?, p c = false) :
    (cs ++ rest).takeWhile p = cs ∧ (cs ++ rest).dropWhile p = rest := by
  rw [List.takeWhile_append_of_pos hcs, List.dropWhile_append_of_pos hcs]
  cases rest with
  | nil => simp
  | cons c rest =>
    have hc := hrest c rfl
    simp [hc]

theorem scan_word {c : Char} {cs rest : List Char} (hcs : ∀ d ∈ c :: cs, isLetter d = true)
    (hrest : ∀ d ∈ rest.head?, isLetter d = false) :
    scan c (cs ++ rest) =
      (⟨Kind.ofWord (String.ofList (c :: cs)), String.ofList (c :: cs)⟩, rest) := by
  obtain ⟨htake, hdrop⟩ := takeWhile_run (fun d hd => hcs d (List.mem_cons_of_mem c hd)) hrest
  rw [scan, if_pos (hcs c List.mem_cons_self), htake, hdrop]

theorem scan_number {c : Char} {cs rest : List Char} (hcs : ∀ d ∈ c :: cs, d.isDigit = true)
    (hrest : ∀ d ∈ rest.head?, d.isDigit = false) :
    scan c (cs ++ rest) = (⟨.int, String.ofList (c :: cs)⟩, rest) := by
  obtain ⟨htake, hdrop⟩ := takeWhile_run (fun d hd => hcs d (List.mem_cons_of_mem c hd)) hrest
  have hc : c.isDigit = true := hcs c List.mem_cons_self
  have hletter : ¬isLetter c = true := by
    rw [not_letter_of_digit hc]
    decide
  rw [scan, if_neg hletter, if_pos hc, htake, hdrop]

theorem scan_signWithEqual {c : Char} {kind : Kind} (hsign : signWithEqual? c = some kind)
    (rest : List Char) : scan c ('=' :: rest) = (⟨kind, String.ofList [c, '=']⟩, rest) := by
  unfold signWithEqual? at hsign
  split at hsign <;> cases hsign <;> rfl

theorem scan_sign {c : Char} {rest : List Char} (hletter : isLetter c = false)
    (hdigit : c.isDigit = false)
    (hrest : ∀ d ∈ rest.head?,
      Token.gluesTo ⟨(sign? c).getD .illegal, String.singleton c⟩ d = false) :
    scan c rest = (⟨(sign? c).getD .illegal, String.singleton c⟩, rest) := by
  rw [scan, if_neg (Bool.eq_false_iff.1 hletter), if_neg (Bool.eq_false_iff.1 hdigit)]
  unfold scanSign
  split
  · next kind rest' hsign =>
    -- the signs that an `=` goes on with are followed by none
    have hglue := hrest '=' rfl
    unfold signWithEqual? at hsign
    split at hsign <;> simp_all [sign?, Token.gluesTo]
  · rfl

theorem not_blank_of_signWithEqual {c : Char} {kind : Kind} (h : signWithEqual? c = some kind) :
    isBlank c = false := by
  unfold signWithEqual? at h
  split at h <;> cases h <;> rfl

/-- The signs of two characters are comparisons. -/
theorem signWithEqual_ne {c : Char} {kind other : Kind} (h : signWithEqual? c = some kind)
    (hother : other ∉ [Kind.equal, .notEqual, .lessThanOrEqual, .greaterThanOrEqual]) :
    kind ≠ other := by
  rintro rfl
  refine hother ?_
  unfold signWithEqual? at h
  split at h <;> cases h <;> decide

/-- A literal is read as its token, whatever follows that does not go on with it. -/
theorem tokens_append {t : Token} (ht : t.Spelled) {rest : List Char}
    (hrest : ∀ c ∈ rest.head?, t.gluesTo c = false) :
    tokens (t.literal.toList ++ rest) = t :: tokens rest := by
  cases ht with
  | @word cs hne hletters =>
    rw [String.toList_ofList]
    cases cs with
    | nil => exact absurd rfl hne
    | cons c cs =>
      -- a reserved word goes on with letters just as a name does
      have hrest' : ∀ d ∈ rest.head?, isLetter d = false := by
        intro d hd
        rw [← hrest d hd, gluesTo_word]
      rw [List.cons_append, tokens_cons (not_blank_of_letter (hletters c List.mem_cons_self)),
        scan_word hletters hrest']
  | @number cs hne hdigits =>
    rw [String.toList_ofList]
    cases cs with
    | nil => exact absurd rfl hne
    | cons c cs =>
      rw [List.cons_append, tokens_cons (not_blank_of_digit (hdigits c List.mem_cons_self)),
        scan_number hdigits hrest]
  | signWithEqual hsign =>
    rw [String.toList_ofList, List.cons_append, List.cons_append, List.nil_append,
      tokens_cons (not_blank_of_signWithEqual hsign), scan_signWithEqual hsign]
  | sign hblank hletter hdigit =>
    rw [String.toList_singleton, List.singleton_append, tokens_cons hblank,
      scan_sign hletter hdigit hrest]

/-! ### What is read -/

/-- The token that is read at a character that is no blank is spelled. -/
theorem spelled_scan {c : Char} (hblank : isBlank c = false) (rest : List Char) :
    (scan c rest).1.Spelled := by
  unfold scan
  by_cases hletter : isLetter c = true
  · rw [if_pos hletter]
    refine .word (List.cons_ne_nil _ _) ?_
    intro d hd
    rcases List.mem_cons.1 hd with rfl | hd
    · exact hletter
    · exact List.mem_takeWhile_imp hd
  · rw [if_neg hletter]
    by_cases hdigit : c.isDigit = true
    · rw [if_pos hdigit]
      refine .number (List.cons_ne_nil _ _) ?_
      intro d hd
      rcases List.mem_cons.1 hd with rfl | hd
      · exact hdigit
      · exact List.mem_takeWhile_imp hd
    · rw [if_neg hdigit]
      unfold scanSign
      split
      · next kind rest' hsign => exact .signWithEqual hsign
      · exact .sign hblank (eq_false_of_ne_true hletter) (eq_false_of_ne_true hdigit)

/-- Every token that is read is spelled. -/
theorem spelled_of_mem_tokens {cs : List Char} {t : Token} (ht : t ∈ tokens cs) : t.Spelled := by
  induction cs using tokens.induct with
  | case1 cs hdrop =>
    rw [tokens_eq_nil hdrop] at ht
    cases ht
  | case2 cs c rest hdrop ih =>
    rw [tokens_eq_cons hdrop] at ht
    rcases List.mem_cons.1 ht with rfl | ht
    · have hblank := List.head?_dropWhile_not isBlank cs
      rw [hdrop] at hblank
      exact spelled_scan hblank rest
    · exact ih ht

/-! ### Two texts with a blank between them -/

/-- A run of characters stops at a blank, if the class of the run has none. -/
theorem takeWhile_blank {p : Char → Bool} (hp : p ' ' = false) (cs rest : List Char) :
    (cs ++ ' ' :: rest).takeWhile p = cs.takeWhile p ∧
      (cs ++ ' ' :: rest).dropWhile p = cs.dropWhile p ++ ' ' :: rest := by
  induction cs with
  | nil => simp [hp]
  | cons c cs ih =>
    cases hc : p c with
    | false => simp [hc]
    | true => simpa [hc] using ih

theorem scanSign_blank (c : Char) (cs rest : List Char) :
    scanSign c (cs ++ ' ' :: rest) = ((scanSign c cs).1, (scanSign c cs).2 ++ ' ' :: rest) := by
  cases cs with
  | nil =>
    cases hsign : signWithEqual? c <;> simp [scanSign, hsign]
  | cons d ds =>
    by_cases hd : d = '='
    · cases hsign : signWithEqual? c <;> simp [scanSign, hsign, hd]
    · cases hsign : signWithEqual? c <;> simp [scanSign, hsign, hd]

/-- No token goes on behind a blank. -/
theorem scan_blank (c : Char) (cs rest : List Char) :
    scan c (cs ++ ' ' :: rest) = ((scan c cs).1, (scan c cs).2 ++ ' ' :: rest) := by
  obtain ⟨hletters, hword⟩ := takeWhile_blank (p := isLetter) (by decide) cs rest
  obtain ⟨hdigits, hnumber⟩ := takeWhile_blank (p := Char.isDigit) (by decide) cs rest
  unfold scan
  rw [hletters, hword, hdigits, hnumber, scanSign_blank]
  split
  · rfl
  · split <;> rfl

/-- **The tokens of two texts with a blank between them** are those of the one and then those
of the other. -/
theorem tokens_append_blank (cs rest : List Char) :
    tokens (cs ++ ' ' :: rest) = tokens cs ++ tokens rest := by
  induction cs using tokens.induct with
  | case1 cs hdrop =>
    have hblank : (cs ++ ' ' :: rest).dropWhile isBlank = rest.dropWhile isBlank := by
      rw [List.dropWhile_append, hdrop]
      rfl
    rw [tokens_eq_nil hdrop, tokens_congr hblank, List.nil_append]
  | case2 cs c ds hdrop ih =>
    have hfirst : (cs ++ ' ' :: rest).dropWhile isBlank = c :: (ds ++ ' ' :: rest) := by
      rw [List.dropWhile_append, hdrop]
      rfl
    rw [tokens_eq_cons hdrop, tokens_eq_cons hfirst, scan_blank, ih, List.cons_append]

end Lexer

/-- No token that is spelled is the end of the source. -/
theorem Token.Spelled.kind_ne_eof {t : Token} (ht : t.Spelled) : t.kind ≠ .eof := by
  cases ht with
  | @word cs hne hletters => exact ofWord_ne (String.ofList cs) (by decide)
  | number => exact fun hkind => by cases hkind
  | signWithEqual hsign => exact signWithEqual_ne hsign (by decide)
  | @sign c hblank hletter hdigit =>
    unfold sign?
    split <;> exact fun hkind => by cases hkind

/-! ### Lists of tokens -/

/-- No blank goes on with a token. -/
theorem Token.gluesTo_of_isBlank (t : Token) {c : Char} (hc : isBlank c = true) :
    t.gluesTo c = false := by
  have hblanks : [' ', '\t', '\r', '\n'].any t.gluesTo = false := by
    obtain ⟨kind, literal⟩ := t
    cases kind <;> rfl
  refine Bool.eq_false_iff.2 fun hglue => ?_
  rw [not_blank_of hblanks hglue] at hc
  cases hc

/-- Spelled tokens are read back from their literals with blanks between them. -/
theorem Lexer.tokens_spaced {ts : Tokens} (hts : ∀ t ∈ ts, t.Spelled) :
    Lexer.tokens ts.spaced.toList = ts := by
  induction ts with
  | nil => simp [Tokens.spaced]
  | cons t ts ih =>
    have ht := hts t List.mem_cons_self
    have hmore := ih fun u hu => hts u (List.mem_cons_of_mem t hu)
    -- there is a blank behind every token but the last
    by_cases hne : ts = []
    · subst hne
      have hread : tokens (t.literal.toList ++ []) = t :: tokens [] := tokens_append ht (by simp)
      rw [List.append_nil, tokens_nil] at hread
      rwa [Tokens.spaced, List.map_singleton, String.intercalate_singleton]
    · have hne' : ts.map Token.literal ≠ [] := by simpa using hne
      rw [Tokens.spaced, List.map_cons, String.intercalate_cons_of_ne_nil hne',
        String.toList_append, String.toList_append, List.append_assoc,
        tokens_append ht (by simpa using t.gluesTo_of_isBlank (c := ' ') rfl)]
      exact congrArg (t :: ·) ((tokens_blank _).trans hmore)

end Script
