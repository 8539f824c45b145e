import Script.Proofs.Cursor.Reading
import Script.Proofs.Lookahead

/-!
# Readers that move byte by byte

Whatever a reader that moves byte by byte has been asked, it stands between two characters and
knows the byte there, it has answered what is read from the characters, and it will go on to
answer what is read from the rest of the source alone.

## Main definitions

* `Lexer.Shows` — both readers stand at the same place of the same source.

## Main results

* `Lexer.Shows.next`, `Lexer.Shows.performAll` — they answer the same and keep together.
* `Lexer.Shows.tokenAt`, `Lexer.Shows.exists_drains` — the tokens that are still to come.
* `Cursor.resumes` — **a reader can be taken up anywhere.**
-/

namespace Script

open Text

namespace Lexer

theorem next_eq_nil {l : Lexer} (h : l.rest.dropWhile isBlank = []) :
    l.next = (Token.eof, { l with rest := [] }) := by
  rw [next, h]

theorem next_eq_cons {l : Lexer} {c : Char} {rest : List Char}
    (h : l.rest.dropWhile isBlank = c :: rest) :
    l.next = ((scan c rest).1, { l with rest := (scan c rest).2 }) := by
  rw [next, h]

/-- No token that is read is empty. -/
theorem literal_scan_ne (c : Char) (rest : List Char) : (scan c rest).1.literal ≠ "" := by
  intro hliteral
  have hsplit := congrArg List.length (literal_append_scan c rest)
  have hle := length_scan_le c rest
  rw [hliteral, String.toList_empty, List.nil_append, List.length_cons] at hsplit
  omega

/-- At the end there is nothing left of the source. -/
theorem rest_next_of_eof {l : Lexer} (h : l.next.1.kind = .eof) :
    l.next.1 = Token.eof ∧ l.next.2.rest = [] := by
  cases hdrop : l.rest.dropWhile isBlank with
  | nil =>
    rw [next_eq_nil hdrop]
    exact ⟨rfl, rfl⟩
  | cons c rest =>
    have hblank : isBlank c = false := head_dropWhile l.rest c (by rw [hdrop]; rfl)
    rw [next_eq_cons hdrop] at h
    exact absurd h (spelled_scan hblank rest).kind_ne_eof

/-- Reading does not change what is read. -/
theorem source_performAll (l : Lexer) (calls : List Call) :
    (l.performAll calls).2.source = l.source := by
  induction calls generalizing l with
  | nil => rfl
  | cons call calls ih =>
    have hnext : l.next.2.source = l.source := by
      unfold next
      split <;> rfl
    rw [performAll, ih]
    cases call <;> exact hnext

/-- The reader stands in front of the characters that no token has been read from yet. -/
def Shows (l : Lexer) (c : Cursor) : Prop :=
  ∃ before, l.source = before ++ String.ofList l.rest ∧ c = .between before l.rest

namespace Shows

variable {l : Lexer} {c : Cursor}

theorem ofString (source : String) : (Lexer.ofString source).Shows (.ofString source) := by
  refine ⟨"", ?_, ?_⟩
  · rw [Lexer.ofString, String.ofList_toList, String.empty_append]
  · rw [Cursor.ofString_eq, Lexer.ofString, Cursor.between, String.ofList_toList,
      String.empty_append]
    rfl

theorem source_eq (h : l.Shows c) : c.source = l.source := by
  obtain ⟨before, hsource, rfl⟩ := h
  exact hsource.symm

theorem sound (h : l.Shows c) : c.Sound := by
  obtain ⟨before, -, rfl⟩ := h
  exact Cursor.sound_between before l.rest

/-- As many bytes have been read as stand behind the reader. -/
theorem position_eq (h : l.Shows c) : c.position = l.position := by
  obtain ⟨before, hsource, rfl⟩ := h
  rw [position, hsource, String.utf8ByteSize_append, Nat.add_sub_cancel]
  rfl

/-- What is ahead of the reader can be cut out. -/
theorem slice?_eq (h : l.Shows c) :
    slice? c.source c.position c.source.utf8ByteSize = some (String.ofList l.rest) := by
  obtain ⟨before, -, rfl⟩ := h
  have hcut := Cursor.slice?_between before (String.ofList l.rest) []
  rwa [List.append_nil, String.toList_ofList, ← String.utf8ByteSize_append] at hcut

/-- A reader that has moved over a part of what was ahead stands in front of the others. -/
theorem of_append {before part : String} {rest : List Char}
    (hsource : l.source = before ++ String.ofList l.rest) (hrest : l.rest = part.toList ++ rest) :
    Shows { l with rest := rest } (.between (before ++ part) rest) := by
  refine ⟨before ++ part, ?_, rfl⟩
  rw [hsource, hrest, String.ofList_append, String.ofList_toList, String.append_assoc]

/-- The reader reads the token that is next among the characters.  It moves on if there is
anything left of the source, and all the more if there is a token. -/
theorem next (h : l.Shows c) :
    ∃ c', c.next = some (l.next.1, c') ∧ l.next.2.Shows c' ∧
      (c.position < c.source.utf8ByteSize ∨ l.next.1.kind ≠ .eof → c.position < c'.position) := by
  obtain ⟨before, hsource, rfl⟩ := h
  have hblanks := List.takeWhile_append_dropWhile (p := isBlank) (l := l.rest)
  rw [Cursor.next, Cursor.skipWhile_between tellsAscii_isBlank]
  cases hdrop : l.rest.dropWhile isBlank with
  | nil =>
    -- only blanks are left, and the reader moves over them to the end
    rw [hdrop, List.append_nil] at hblanks
    rw [Cursor.scan, if_pos (Cursor.atEnd_between_nil _), next_eq_nil hdrop, hblanks]
    exact ⟨_, rfl, of_append hsource (by simp), fun hmoves => hmoves.resolve_right (· rfl)⟩
  | cons d rest =>
    have hrest : l.rest = (String.ofList (l.rest.takeWhile isBlank) ++
        (scan d rest).1.literal).toList ++ (scan d rest).2 := by
      rw [String.toList_append, String.toList_ofList, List.append_assoc, literal_append_scan,
        ← hdrop, hblanks]
    -- the token is at least one byte long, whether or not blanks stand in front of it
    have hpos : (scan d rest).1.literal.utf8ByteSize ≠ 0 :=
      mt String.utf8ByteSize_eq_zero_iff.1 (literal_scan_ne d rest)
    rw [Cursor.scan_between, next_eq_cons hdrop, String.append_assoc]
    refine ⟨_, rfl, of_append hsource hrest, fun _ => ?_⟩
    rw [Cursor.position_between, Cursor.position_between, String.utf8ByteSize_append,
      String.utf8ByteSize_append]
    omega

/-- At the end of the source the reader stays where it is. -/
theorem next_of_rest_eq_nil (h : l.Shows c) (hrest : l.rest = []) :
    c.next = some (Token.eof, c) := by
  obtain ⟨before, -, rfl⟩ := h
  have hstay := Cursor.skipWhile_between tellsAscii_isBlank before []
  rw [List.takeWhile_nil, List.dropWhile_nil, String.ofList_nil, String.append_empty] at hstay
  rw [hrest, Cursor.next, hstay, Cursor.scan, if_pos (Cursor.atEnd_between_nil before)]

/-! ### Questions -/

theorem perform (h : l.Shows c) (call : Call) :
    ∃ c', c.perform call = some ((l.perform call).1, c') ∧ (l.perform call).2.Shows c' := by
  obtain ⟨c', hnext, hshows, -⟩ := h.next
  cases call with
  | next =>
    refine ⟨c', ?_, hshows⟩
    rw [Cursor.perform, hnext]
    rfl
  | next? =>
    refine ⟨c', ?_, hshows⟩
    rw [Cursor.perform, Cursor.next?, hnext]
    rfl

/-- The reader answers all questions, and it answers what is read from the characters. -/
theorem performAll (h : l.Shows c) (calls : List Call) :
    ∃ c', c.performAll calls = some ((l.performAll calls).1, c') ∧
      (l.performAll calls).2.Shows c' := by
  induction calls generalizing l c with
  | nil => exact ⟨c, rfl, h⟩
  | cons call calls ih =>
    obtain ⟨c', hcall, hshows⟩ := h.perform call
    obtain ⟨c'', hcalls, hshows'⟩ := ih hshows
    refine ⟨c'', ?_, hshows'⟩
    rw [Cursor.performAll, hcall]
    show (c'.performAll calls).bind _ = _
    rw [hcalls]
    rfl

/-! ### What is still to come -/

theorem skip (h : l.Shows c) (count : Nat) :
    ∃ c', c.skip count = some c' ∧ (l.skip count).Shows c' := by
  induction count generalizing l c with
  | zero => exact ⟨c, rfl, h⟩
  | succ count ih =>
    obtain ⟨c', hnext, hshows, -⟩ := h.next
    obtain ⟨c'', hskip, hshows'⟩ := ih hshows
    refine ⟨c'', ?_, hshows'⟩
    rw [Cursor.skip, hnext]
    exact hskip

theorem tokenAt (h : l.Shows c) (index : Nat) : c.tokenAt index = some (l.tokenAt index) := by
  obtain ⟨c', hskip, hshows⟩ := h.skip index
  obtain ⟨c'', hnext, -⟩ := hshows.next
  rw [Cursor.tokenAt, hskip]
  show c'.next.bind _ = _
  rw [hnext]
  rfl

/-- The reader can be asked for tokens until there are none, and then it stays at the end. -/
theorem exists_drains (h : l.Shows c) :
    ∃ c', c.Drains l.remaining c' ∧ c'.next = some (Token.eof, c') := by
  induction hremaining : l.remaining generalizing l c with
  | nil =>
    obtain ⟨c', hnext, hshows, -⟩ := h.next
    have heof : l.next.1 = Token.eof := by
      rw [next_fst, hremaining]
      rfl
    obtain ⟨-, hrest⟩ := rest_next_of_eof (congrArg Token.kind heof)
    refine ⟨c', .done ?_, hshows.next_of_rest_eq_nil hrest⟩
    rw [Cursor.next?, hnext, heof]
    rfl
  | cons t ts ih =>
    obtain ⟨c', hnext, hshows, -⟩ := h.next
    -- no token of the source is its end, so that the reader is asked again
    have hkind : t.kind ≠ .eof :=
      (spelled_of_mem_tokens (hremaining ▸ List.mem_cons_self)).kind_ne_eof
    rw [next_fst, hremaining, Tokens.current_cons] at hnext
    obtain ⟨c'', hdrains, hstays⟩ := ih hshows (by rw [remaining_next, hremaining, List.tail_cons])
    refine ⟨c'', .more ?_ hdrains, hstays⟩
    rw [Cursor.next?, hnext]
    show some (if t.is .eof then none else some t, c') = _
    rw [Token.is, if_neg (by simpa using hkind)]

end Shows

end Lexer

/-- A reader that stays where it is gives one answer to each question, however often it is
asked. -/
theorem Cursor.performAll_of_next {c : Cursor} (h : c.next = some (Token.eof, c))
    (calls : List Call) : c.performAll calls = some (calls.map Call.atEnd, c) := by
  have hcall (call : Call) : c.perform call = some (call.atEnd, c) := by
    cases call with
    | next => rw [perform, h]; rfl
    | next? => rw [perform, next?, h]; rfl
  induction calls with
  | nil => rfl
  | cons call calls ih =>
    rw [performAll, hcall]
    show (c.performAll calls).bind _ = _
    rw [ih]
    rfl

/-- **A reader can be taken up anywhere.**  However a reader that moves byte by byte has been
asked for tokens, none of its cuts has failed and it has answered what is read from the
characters of the source.  It stands in the source or at its end, at the start of a character,
and has the byte there and the offset of the next one.  What is ahead of it can be cut out, and
what it will read is what that text alone is read as, be it asked for one token or until there
are none.  Unless it is at the end it moves on whenever it is asked; and once it has come to the
end it stays there and says so. -/
theorem Cursor.resumes (source : String) (calls : List Call) :
    ∃ (answers : List (Option Token)) (c : Cursor) (rest : String),
      (Cursor.ofString source).performAll calls = some (answers, c) ∧
      (Lexer.ofString source).performAll calls = (answers, ⟨source, rest.toList⟩) ∧
      c.source = source ∧ c.Sound ∧ c.position = (Lexer.mk source rest.toList).position ∧
      slice? source c.position source.utf8ByteSize = some rest ∧
      (∀ i, c.tokenAt i = some (((tokenize rest)[i]?).getD Token.eof)) ∧
      (∃ c', c.Drains (tokenize rest).dropLast c' ∧ c'.next = some (Token.eof, c')) ∧
      ∃ (t : Token) (c' : Cursor), c.next = some (t, c') ∧
        (c.position < source.utf8ByteSize ∨ t.kind ≠ .eof → c.position < c'.position) ∧
        (t.kind = .eof → t = Token.eof ∧
          ∀ later, c'.performAll later = some (later.map Call.atEnd, c')) := by
  obtain ⟨c, hperform, hshows⟩ := (Lexer.Shows.ofString source).performAll calls
  have hanswered : (Lexer.ofString source).performAll calls =
      (((Lexer.ofString source).performAll calls).1,
        ⟨source, ((Lexer.ofString source).performAll calls).2.rest⟩) :=
    Prod.ext rfl (congrArg (Lexer.mk · _) (Lexer.source_performAll _ calls))
  generalize (Lexer.ofString source).performAll calls = answered at *
  obtain ⟨answers, l⟩ := answered
  have hl : l = ⟨source, (String.ofList l.rest).toList⟩ := by
    rw [String.toList_ofList]
    exact congrArg Prod.snd hanswered
  have hsource : c.source = source := hshows.source_eq.trans (congrArg Lexer.source hl)
  -- what is still to come depends on nothing but the characters ahead
  have hremaining : (Lexer.ofString (String.ofList l.rest)).remaining = l.remaining :=
    congrArg Lexer.tokens String.toList_ofList
  refine ⟨answers, c, String.ofList l.rest, hperform, Prod.ext rfl hl, hsource, hshows.sound,
    hshows.position_eq.trans (congrArg Lexer.position hl), hsource ▸ hshows.slice?_eq, ?_, ?_, ?_⟩
  · intro i
    rw [hshows.tokenAt, Lexer.tokenAt_eq, Lexer.getD_tokenize, hremaining]
  · rw [tokenize, List.dropLast_concat, hremaining]
    exact hshows.exists_drains
  · obtain ⟨c', hnext, hshows', hmoves⟩ := hshows.next
    refine ⟨l.next.1, c', hnext, hsource ▸ hmoves, fun hkind => ?_⟩
    obtain ⟨heof, hrest⟩ := Lexer.rest_next_of_eof hkind
    exact ⟨heof, performAll_of_next (hshows'.next_of_rest_eq_nil hrest)⟩

end Script
