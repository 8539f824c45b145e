import Script.Proofs.Cursor
import Script.Proofs.Segmentation

/-!
# Bytes and characters

A reader that moves byte by byte reads what is read from the characters.  It can tell from the
first byte of a character whether it belongs to a class and what sign it is, since all of these
are kept as one byte; so it stands between two characters whenever it looks, and only over a
character that belongs to nothing it moves by several bytes.  Where it stands the characters
ahead can be cut out of the source, so that no cut fails.

## Main definitions

* `Cursor.between` — the reader between a text and the characters behind it.

## Main results

* `Cursor.sound_repeat_readByte_iff` — within a character no fields fit together.
* `Cursor.skipWhile_between`, `Cursor.readRun_between` — moving over a run of characters.
* `Cursor.readSign_between`, `Cursor.readIllegal_between` — moving over single characters.
* `Cursor.scan_between` — **a token is read from the bytes as from the characters.**
-/

namespace Script

open Text

/-! ### What a byte tells -/

namespace Lexer

theorem tellsAscii_isBlank : TellsAscii isBlank false := by
  intro c hc
  refine eq_false_of_ne_true fun hblank => ?_
  have hmem : c ∈ [' ', '\t', '\r', '\n'] := isBlank_iff.1 hblank
  simp only [List.mem_cons, List.not_mem_nil, or_false] at hmem
  rcases hmem with rfl | rfl | rfl | rfl <;> exact absurd hc (by decide)

theorem tellsAscii_isLetter : TellsAscii isLetter false := by
  intro c hc
  refine eq_false_of_ne_true fun hletter => ?_
  rcases isLetter_iff.1 hletter with ⟨-, hle⟩ | ⟨-, hle⟩ | rfl
  · exact absurd (Nat.le_trans hc hle) (by decide)
  · exact absurd (Nat.le_trans hc hle) (by decide)
  · exact absurd hc (by decide)

theorem tellsAscii_isDigit : TellsAscii Char.isDigit false := by
  intro c hc
  refine eq_false_of_ne_true fun hdigit => ?_
  exact absurd (Nat.le_trans hc (isDigit_iff.1 hdigit).2) (by decide)

theorem tellsAscii_sign : TellsAscii sign? none := by
  intro c hc
  cases h : sign? c with
  | none => rfl
  | some kind =>
    unfold sign? at h
    split at h <;> cases h <;> exact absurd hc (by decide)

theorem tellsAscii_signWithEqual : TellsAscii signWithEqual? none := by
  intro c hc
  cases h : signWithEqual? c with
  | none => rfl
  | some kind =>
    unfold signWithEqual? at h
    split at h <;> cases h <;> exact absurd hc (by decide)

/-- Every sign of two characters starts with a sign. -/
theorem signWithEqual_eq_none {c : Char} (h : sign? c = none) : signWithEqual? c = none := by
  cases hlong : signWithEqual? c with
  | none => rfl
  | some kind =>
    unfold signWithEqual? at hlong
    split at hlong <;> cases hlong <;> cases h

/-- A character that is neither of a word nor of a number is read alone, unless it makes a sign
of two characters with the one behind it. -/
theorem scan_single {c : Char} {rest : List Char} (hletter : isLetter c = false)
    (hdigit : c.isDigit = false) (h : signWithEqual? c = none ∨ rest.head? ≠ some '=') :
    scan c rest = (⟨(sign? c).getD .illegal, String.singleton c⟩, rest) := by
  rw [scan, if_neg (Bool.eq_false_iff.1 hletter), if_neg (Bool.eq_false_iff.1 hdigit), scanSign]
  rcases h with hlong | hrest
  · intro kind rest' hkind
    rw [hlong] at hkind
    cases hkind
  · rintro kind rest' - rfl
    exact hrest rfl

end Lexer

/-- A sign of two characters is one character and then another. -/
theorem ofList_pair (c d : Char) :
    String.ofList [c, d] = String.singleton c ++ String.singleton d := by
  rw [String.ofList_cons, ← String.singleton_eq_ofList]

namespace Cursor

variable {p : Char → Bool} {source : String} {position : Nat}

/-! ### Moving -/

theorem ofString_eq (source : String) : ofString source = ofPosition source 0 := by
  show Cursor.mk source 0 (min 1 (source.utf8ByteSize + 1)) _ = _
  rw [Nat.min_eq_left (by omega)]
  rfl

theorem readByte_ofPosition (h : position < source.utf8ByteSize) :
    (ofPosition source position).readByte = ofPosition source (position + 1) := by
  show Cursor.mk _ _ (min (position + 1 + 1) (source.utf8ByteSize + 1)) _ = _
  rw [Nat.min_eq_left (by omega)]
  rfl

theorem repeat_readByte_ofPosition {count : Nat} (h : position + count ≤ source.utf8ByteSize) :
    Nat.repeat readByte count (ofPosition source position) =
      ofPosition source (position + count) := by
  induction count with
  | zero => rfl
  | succ count ih =>
    rw [Nat.repeat, ih (by omega), readByte_ofPosition (by omega), Nat.add_assoc]

/-! ### Standing between characters -/

/-- The reader that has a text behind it and these characters ahead. -/
def between (before : String) (rest : List Char) : Cursor :=
  ofPosition (before ++ String.ofList rest) before.utf8ByteSize

variable {before : String} {rest : List Char} {c : Char}

@[simp] theorem source_between (before : String) (rest : List Char) :
    (between before rest).source = before ++ String.ofList rest := rfl

@[simp] theorem position_between (before : String) (rest : List Char) :
    (between before rest).position = before.utf8ByteSize := rfl

theorem sound_between (before : String) (rest : List Char) : (between before rest).Sound where
  le := (isBoundary_append before (String.ofList rest)).le
  boundary := isBoundary_append before (String.ofList rest)
  readPosition := rfl
  byte := rfl

theorem atEnd_between_nil (before : String) : (between before []).atEnd = true := by
  simp [atEnd]

theorem atEnd_between_cons (before : String) (c : Char) (rest : List Char) :
    (between before (c :: rest)).atEnd = false := by
  have hpos : (String.ofList (c :: rest)).utf8ByteSize ≠ 0 := by
    rw [Ne, String.utf8ByteSize_eq_zero_iff]
    simp
  refine decide_eq_false ?_
  rw [source_between, position_between, String.utf8ByteSize_append]
  omega

/-- What stands ahead can be cut out. -/
theorem slice?_between (before part : String) (rest : List Char) :
    slice? (between before (part.toList ++ rest)).source before.utf8ByteSize
      (before.utf8ByteSize + part.utf8ByteSize) = some part := by
  rw [source_between, String.ofList_append, String.ofList_toList, ← String.append_assoc]
  exact slice?_append before part (String.ofList rest)

/-- The reader stands on the first byte of what is ahead. -/
theorem byte_between (before : String) (c : Char) (rest : List Char) :
    (between before (c :: rest)).byte = firstByte c := by
  have hbyte := byteAt_append before (String.ofList (c :: rest)) 0
  rwa [Nat.add_zero, byteAt_ofList_cons] at hbyte

/-- The byte tells as much as the character. -/
theorem char_between {α : Type} {f : Char → α} {other : α} (hf : TellsAscii f other)
    (before : String) (c : Char) (rest : List Char) :
    f (between before (c :: rest)).char = f c := by
  rw [char, byte_between, hf.ofUInt8_firstByte]

/-- If the character is kept as one byte, this is the character. -/
theorem char_between_of_utf8Size (hc : c.utf8Size = 1) (before : String) (rest : List Char) :
    (between before (c :: rest)).char = c := by
  have hlt : c.toNat < 128 := Nat.lt_succ_of_le (Char.utf8Size_eq_one_iff.1 hc)
  rw [char, byte_between, ofUInt8_firstByte hlt]

/-- The reader moves over a character by as many moves as the character has bytes. -/
theorem repeat_readByte_between (before : String) (c : Char) (rest : List Char) :
    Nat.repeat readByte c.utf8Size (between before (c :: rest)) =
      between (before ++ String.singleton c) rest := by
  rw [between, String.ofList_cons, ← String.append_assoc, repeat_readByte_ofPosition, between,
    String.utf8ByteSize_append, String.utf8ByteSize_singleton]
  rw [String.utf8ByteSize_append, String.utf8ByteSize_append, String.utf8ByteSize_singleton]
  exact Nat.le_add_right _ _

/-- While the reader moves over a character it stands within it, and its fields do not fit
together again before it has made as many moves as the character has bytes. -/
theorem sound_repeat_readByte_iff {count : Nat} (hcount : count ≤ c.utf8Size) :
    (Nat.repeat readByte count (between before (c :: rest))).Sound ↔
      count = 0 ∨ count = c.utf8Size := by
  constructor
  · intro hsound
    rcases Nat.lt_or_eq_of_le hcount with hlt | heq
    · have hsize : before.utf8ByteSize + count ≤
          (before ++ String.ofList (c :: rest)).utf8ByteSize := by
        rw [String.ofList_cons, String.utf8ByteSize_append, String.utf8ByteSize_append,
          String.utf8ByteSize_singleton]
        omega
      have hboundary := hsound.boundary
      rw [between, repeat_readByte_ofPosition hsize, String.ofList_cons] at hboundary
      exact .inl (eq_zero_of_isBoundary hlt hboundary)
    · exact .inr heq
  · rintro (rfl | rfl)
    · exact sound_between before (c :: rest)
    · rw [repeat_readByte_between]
      exact sound_between (before ++ String.singleton c) rest

/-- A character that is kept as one byte takes one move. -/
theorem readByte_between (hc : c.utf8Size = 1) (before : String) (rest : List Char) :
    (between before (c :: rest)).readByte = between (before ++ String.singleton c) rest := by
  have hmoves := repeat_readByte_between before c rest
  rwa [hc] at hmoves

/-- The reader moves on up to the first character that is not of a class. -/
theorem skipWhile_between (hp : TellsAscii p false) (before : String) (rest : List Char) :
    (between before rest).skipWhile p =
      between (before ++ String.ofList (rest.takeWhile p)) (rest.dropWhile p) := by
  induction rest generalizing before with
  | nil =>
    rw [skipWhile, dif_neg (by simp [atEnd_between_nil])]
    simp
  | cons c rest ih =>
    rw [skipWhile, char_between hp]
    cases hc : p c with
    | false =>
      rw [dif_neg (by simp), List.takeWhile_cons_of_neg (by simp [hc]),
        List.dropWhile_cons_of_neg (by simp [hc])]
      simp
    | true =>
      -- a character of the class is one byte, so that one move brings the reader behind it
      rw [dif_pos ⟨atEnd_between_cons before c rest, rfl⟩,
        readByte_between (hp.utf8Size (by simp [hc])), ih, List.takeWhile_cons_of_pos hc,
        List.dropWhile_cons_of_pos hc, String.ofList_cons, String.append_assoc]

/-! ### Cutting literals out -/

theorem readRun_between (hp : TellsAscii p false) (before : String) (rest : List Char) :
    (between before rest).readRun p =
      some (String.ofList (rest.takeWhile p),
        between (before ++ String.ofList (rest.takeWhile p)) (rest.dropWhile p)) := by
  have hcut := slice?_between before (String.ofList (rest.takeWhile p)) (rest.dropWhile p)
  rw [String.toList_ofList, List.takeWhile_append_dropWhile] at hcut
  rw [readRun, skipWhile_between hp, position_between, position_between,
    String.utf8ByteSize_append, hcut]
  rfl

/-- A sign is gone on with where a `=` stands ahead, whatever else is kept in several bytes. -/
theorem char_between_eq_iff (before : String) (rest : List Char) :
    (between before rest).char = '=' ↔ rest.head? = some '=' := by
  cases rest with
  | nil =>
    have hbyte : (between before []).byte = 0 := byteAt_append before "" 0
    rw [char, hbyte]
    decide
  | cons d rest =>
    have htells : TellsAscii (fun d => decide (d = '=')) false := by
      intro d hd
      refine decide_eq_false ?_
      rintro rfl
      exact absurd hd (by decide)
    have hchar := char_between htells before d rest
    rw [decide_eq_decide] at hchar
    rw [hchar, List.head?_cons, Option.some_inj]

theorem peekChar_between (hc : c.utf8Size = 1) (before : String) (rest : List Char) :
    (between before (c :: rest)).peekChar = '=' ↔ rest.head? = some '=' := by
  show (between before (c :: rest)).readByte.char = '=' ↔ _
  rw [readByte_between hc, char_between_eq_iff]

theorem orEqual_of_equal (hc : c.utf8Size = 1) (single withEqual : Kind) (before : String)
    (rest : List Char) :
    (between before (c :: '=' :: rest)).orEqual single withEqual =
      some (⟨withEqual, String.ofList [c, '=']⟩,
        between (before ++ String.singleton c) ('=' :: rest)) := by
  have hcut := slice?_between before (String.ofList [c, '=']) rest
  rw [ofList_pair, String.utf8ByteSize_append, ← Nat.add_assoc, ← String.utf8ByteSize_append,
    ← ofList_pair, String.toList_ofList] at hcut
  rw [orEqual, if_pos ((peekChar_between hc before _).2 rfl), readByte_between hc]
  exact congrArg (Option.bind · _) hcut

theorem orEqual_of_ne (hc : c.utf8Size = 1) (hrest : rest.head? ≠ some '=')
    (single withEqual : Kind) (before : String) :
    (between before (c :: rest)).orEqual single withEqual =
      some (⟨single, String.singleton c⟩, between before (c :: rest)) := by
  have hcut := slice?_between before (String.singleton c) rest
  rw [String.utf8ByteSize_singleton, hc, String.toList_singleton] at hcut
  rw [orEqual, if_neg (mt (peekChar_between hc before rest).1 hrest)]
  exact congrArg (Option.bind · _) hcut

/-- A sign is read as it is from the characters. -/
theorem readSign_between {kind : Kind} (hsign : Lexer.sign? c = some kind) (before : String)
    (rest : List Char) :
    (between before (c :: rest)).readSign kind =
      some ((Lexer.scan c rest).1,
        between (before ++ (Lexer.scan c rest).1.literal) (Lexer.scan c rest).2) := by
  have hsize : c.utf8Size = 1 :=
    Lexer.tellsAscii_sign.utf8Size (hsign ▸ Option.some_ne_none kind)
  obtain ⟨-, hletter, hdigit⟩ := Token.class_of_sign hsign
  rw [readSign, char_between Lexer.tellsAscii_signWithEqual]
  cases hlong : Lexer.signWithEqual? c with
  | none =>
    rw [Lexer.scan_single hletter hdigit (.inl hlong), hsign]
    show some (Token.mk kind (String.singleton (between before (c :: rest)).char), _) = _
    rw [char_between_of_utf8Size hsize, readByte_between hsize]
    rfl
  | some withEqual =>
    by_cases hrest : rest.head? = some '='
    · obtain ⟨rest', rfl⟩ : ∃ rest', rest = '=' :: rest' := List.head?_eq_some_iff.1 hrest
      rw [Lexer.scan_signWithEqual hlong, ofList_pair, ← String.append_assoc,
        ← readByte_between (c := '=') rfl, ← ofList_pair]
      exact congrArg (Option.bind · _) (orEqual_of_equal hsize kind withEqual before rest')
    · rw [Lexer.scan_single hletter hdigit (.inr hrest), hsign, ← readByte_between hsize]
      exact congrArg (Option.bind · _) (orEqual_of_ne hsize hrest kind withEqual before)

theorem readIllegal_between (before : String) (c : Char) (rest : List Char) :
    (between before (c :: rest)).readIllegal =
      some (⟨.illegal, String.singleton c⟩, between (before ++ String.singleton c) rest) := by
  have hall : slice? (between before (c :: rest)).source before.utf8ByteSize
      (between before (c :: rest)).source.utf8ByteSize = some (String.ofList (c :: rest)) := by
    have hcut := slice?_between before (String.ofList (c :: rest)) []
    rwa [List.append_nil, String.toList_ofList, ← String.utf8ByteSize_append] at hcut
  have hone := slice?_between before (String.singleton c) rest
  rw [String.utf8ByteSize_singleton, String.toList_singleton, List.singleton_append] at hone
  rw [readIllegal, position_between, hall, ← repeat_readByte_between]
  have hwidth :
      ((String.ofList (c :: rest)).toList.head?.map Char.utf8Size).getD 1 = c.utf8Size := by
    rw [String.toList_ofList]
    rfl
  show (slice? _ _ (before.utf8ByteSize + _)).bind _ = _
  rw [hwidth, hone]
  rfl

/-! ### Tokens -/

/-- The reader reads the token that the characters ahead start with, and stands behind it. -/
theorem scan_between (before : String) (c : Char) (rest : List Char) :
    (between before (c :: rest)).scan =
      some ((Lexer.scan c rest).1,
        between (before ++ (Lexer.scan c rest).1.literal) (Lexer.scan c rest).2) := by
  rw [scan, if_neg (Bool.eq_false_iff.1 (atEnd_between_cons before c rest)),
    char_between Lexer.tellsAscii_sign]
  cases hsign : Lexer.sign? c with
  | some kind => exact readSign_between hsign before rest
  | none =>
    dsimp only
    rw [char_between Lexer.tellsAscii_isLetter, char_between Lexer.tellsAscii_isDigit]
    by_cases hletter : Lexer.isLetter c = true
    · have hrun := readRun_between Lexer.tellsAscii_isLetter before (c :: rest)
      rw [List.takeWhile_cons_of_pos hletter, List.dropWhile_cons_of_pos hletter] at hrun
      rw [if_pos hletter, hrun, Lexer.scan, if_pos hletter]
      rfl
    · rw [if_neg hletter]
      by_cases hdigit : c.isDigit = true
      · have hrun := readRun_between Lexer.tellsAscii_isDigit before (c :: rest)
        rw [List.takeWhile_cons_of_pos hdigit, List.dropWhile_cons_of_pos hdigit] at hrun
        rw [if_pos hdigit, hrun, Lexer.scan, if_neg hletter, if_pos hdigit]
        rfl
      · -- it belongs to nothing, and is read whole however many bytes it has
        have hlong : Lexer.signWithEqual? c = none := Lexer.signWithEqual_eq_none hsign
        rw [if_neg hdigit, readIllegal_between, Lexer.scan_single (eq_false_of_ne_true hletter)
          (eq_false_of_ne_true hdigit) (.inl hlong), hsign]
        rfl

end Cursor

end Script
