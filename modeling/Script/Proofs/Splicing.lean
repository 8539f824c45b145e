import Script.Proofs.Border.Reading
import Script.Proofs.Phrase.Inversion
import Script.Proofs.Program

/-!
# A text inside a larger one

The loop over the statements of a program comes to the end of a text.  With more tokens
behind the text, the loops over the statements of a program or of a block do the same on the
way there, round by round, if no round looks past the end.  There are two reasons why none
does: the text closes its blocks and ends in a `;`, which is a border, or it is read without a
diagnostic and its last statement ends in a `;` or at a token with which no phrase goes on.

## Main definitions

* `Step.RoundsAlong` — a round over a text with more tokens behind it does what one over the
  text alone does.
* `Grammar.Splices` — so does the statement of the round.
* `Tokens.Sentences`, `Grammar.Unbroken` — a text without blocks that ends in a `;`, and one
  that is read without a diagnostic.

## Main results

* `Step.collect_append` — a loop whose rounds do so comes to the end of the text, and goes on
  behind it.
* `Grammar.roundsAlong_of_splices`, `Grammar.blockRoundsAlong_of_splices` — it is enough that
  the statements do.
* `Grammar.spliced_of_closed` — so does a statement up to a border.
* `Grammar.splices_of_sentences`, `Grammar.splices_of_unbroken` — and so do those of both kinds
  of text.
-/

namespace Script

open Tokens

/-! ### Texts without blocks -/

namespace Tokens

variable {ts us rest : Tokens} {t : Token}

theorem current_mem (h : ts ≠ []) : ts.current ∈ ts := by
  cases ts with
  | nil => exact absurd rfl h
  | cons t ts => exact List.mem_cons_self

/-- The tokens are sentences: the last of them is a `;`, and no block is among them. -/
structure Sentences (ts : Tokens) : Prop where
  /-- No block starts. -/
  ne_lbrace : ∀ t ∈ ts, t.kind ≠ .lbrace
  /-- Unless there are none, the tokens end in a `;`. -/
  ended : ts ≠ [] → ts.Ended

theorem Sentences.of_suffix (h : ts.Sentences) (hrest : rest <:+ ts) : rest.Sentences where
  ne_lbrace t ht := h.ne_lbrace t (hrest.subset ht)
  ended hne := by
    refine (h.ended ?_).of_suffix hrest hne
    rintro rfl
    exact hne (List.suffix_nil.1 hrest)

/-- Recovery does not pass a `;` at the end. -/
theorem Ended.recover_append (h : ts.Ended) (inBlock : Bool) (us : Tokens) :
    recover inBlock (ts ++ us) = recover inBlock ts ++ us := by
  induction ts with
  | nil =>
    obtain ⟨s, -, hlast⟩ := h
    cases List.suffix_nil.1 hlast
  | cons t ts ih =>
    rw [List.cons_append, recover, recover]
    by_cases hnil : ts = []
    · subst hnil
      obtain ⟨s, hs, hlast⟩ := h
      obtain ⟨rfl, -⟩ := List.cons.inj (hlast.eq_of_length rfl)
      have hbrace : ¬(inBlock && s.kind = .rbrace) = true := by simp [hs]
      rw [if_neg hbrace, if_neg hbrace, if_pos hs, if_pos hs]
    · rw [current_append_of_ne_nil hnil, ih (h.of_suffix (List.suffix_cons t ts) hnil)]
      split
      · rfl
      · split
        · rfl
        · split <;> rfl

/-- Without closing braces, recovery is the same in a block. -/
theorem recover_of_ne_rbrace (inBlock : Bool) (h : ∀ t ∈ ts, t.kind ≠ .rbrace) :
    recover inBlock ts = recover false ts := by
  induction ts with
  | nil => rfl
  | cons t ts ih =>
    have hbrace := h t List.mem_cons_self
    rw [recover, recover, ih fun u hu => h u (List.mem_cons_of_mem t hu)]
    simp [hbrace]

end Tokens

/-! ### Loops along a text -/

/-- The reply is that something is nested too deeply. -/
def Reply.IsTooDeep {α : Type} (reply : Reply α) : Prop :=
  ∃ diagnostic rest log, reply = .fail diagnostic rest log ∧ diagnostic.fault.isNesting = true

namespace Reply

variable {α β : Type}

/-- What has been recorded before stays in front. -/
theorem log_of_after_eq_ok {reply : Reply α} {value : α} {rest : Tokens}
    {log log' : List Diagnostic} (h : reply.after log = .ok value rest log') :
    ∃ more, log' = log ++ more := by
  cases reply with
  | ok v us more =>
    cases h
    exact ⟨more, rfl⟩
  | fail diagnostic us more => cases h
  | diverges => cases h

theorem IsTooDeep.after {reply : Reply α} (h : reply.IsTooDeep) (log : List Diagnostic) :
    (reply.after log).IsTooDeep := by
  obtain ⟨diagnostic, rest, log', rfl, hnesting⟩ := h
  exact ⟨diagnostic, rest, log ++ log', rfl, hnesting⟩

theorem IsTooDeep.bind {first : Step α} {ts : Tokens} (h : (first ts).IsTooDeep)
    (second : α → Step β) : ((first >>= second) ts).IsTooDeep := by
  obtain ⟨diagnostic, rest, log, heq, hnesting⟩ := h
  exact ⟨diagnostic, rest, log, Step.bind_of_fail heq second, hnesting⟩

end Reply

namespace Step

variable {us : Tokens} {loose : Prop} {part : Tokens → Prop} {own round : Step Round}

/-- On every part of a text that is left, `own` does a round, and with `us` behind the part
`round` does the same.  If they are compared loosely, it may give up over the nesting
instead. -/
def RoundsAlong (us : Tokens) (loose : Prop) (part : Tokens → Prop) (own round : Step Round) :
    Prop :=
  ∀ ts, part ts → ts ≠ [] → ∃ value rest log, own ts = .ok value rest log ∧ value.GoesOn ∧
    part rest ∧ (round (ts ++ us) = .ok value (rest ++ us) log ∨
      loose ∧ (round (ts ++ us)).IsTooDeep)

/-- A loop that does the same rounds up to the end of the text goes on behind it. -/
theorem collect_append (hown : own [] = .ok .finished [] [])
    (hprogress : own.Progresses Round.GoesOn) (hround : round.Progresses Round.GoesOn)
    (halong : RoundsAlong us loose part own round) {ts : Tokens} (hts : part ts) {m n : Nat}
    (hm : ts.length < m) (hn : (ts ++ us).length < n) :
    ∃ ss log, collect own m ts = .ok ss [] log ∧
      (collect round n (ts ++ us) =
          ((bounded (collect round) >>= fun more => pure (ss ++ more)) us).after log ∨
        loose ∧ (collect round n (ts ++ us)).IsTooDeep) := by
  -- each round takes a token of the text, so that neither loop runs out of rounds on the way
  induction m generalizing ts n with
  | zero => omega
  | succ m ih =>
    cases n with
    | zero => omega
    | succ n =>
      by_cases hnil : ts = []
      · subst hnil
        refine ⟨[], [], ?_, .inl ?_⟩
        · rw [collect, bind_of_ok hown]
          rfl
        · have hbounded : collect round (n + 1) us = bounded (collect round) us :=
            collect_eq_of_lt hround hn (Nat.lt_succ_self _)
          simp only [List.nil_append, bind_pure, Reply.after_nil, hbounded]
      · obtain ⟨value, rest, log, hfirst, hgoes, hrest, hsame⟩ := halong ts hts hnil
        have hlt := hprogress.length_lt hfirst hgoes
        have hlength : (rest ++ us).length < n := by
          rw [List.length_append] at hn ⊢
          omega
        obtain ⟨ss, log', hss, hmore⟩ := ih hrest (by omega) hlength
        refine ⟨value.cons ss, log ++ log', ?_, ?_⟩
        · exact collect_eq_ok_of_goesOn hfirst hgoes hss
        · rcases hsame with hsame | ⟨hloose, hdeep⟩
          · -- the round is the same, and the rest of the loop is as long as it is not given up
            rcases hmore with hmore | ⟨hloose, hdeep⟩
            · exact .inl (collect_append_of_goesOn hsame hgoes hmore)
            · rw [collect_of_goesOn hsame hgoes]
              exact .inr ⟨hloose, (hdeep.bind _).after log⟩
          · rw [collect]
            exact .inr ⟨hloose, hdeep.bind _⟩

end Step

/-! ### Rounds with more tokens behind them -/

/-- A statement that is read or fails alone, and one that does so with `us` behind it: the
statement has not been read up to the end, and recovery does not pass it. -/
inductive Reply.Spliced (inBlock : Bool) (us : Tokens) : Reply Stmt → Reply Stmt → Prop where
  /-- Both have been read. -/
  | ok {s : Stmt} {last last' : Token} {rest : Tokens} {log : List Diagnostic} :
      Spliced inBlock us (.ok s (last :: rest) log) (.ok s (last' :: (rest ++ us)) log)
  /-- Both have failed. -/
  | fail {diagnostic : Diagnostic} {rest : Tokens} {log : List Diagnostic}
      (hrecover : recover inBlock (rest ++ us) = recover false rest ++ us) :
      Spliced inBlock us (.fail diagnostic rest log) (.fail diagnostic (rest ++ us) log)

section

variable {stmt stmt₁ stmt₂ : Step Stmt} {ts us rest : Tokens} {value : Round}
  {log : List Diagnostic}

/-- A round over the statements of a program that starts at a token goes on. -/
theorem Grammar.exists_programRound (h : stmt.Settles) (heof : ts.current.kind ≠ .eof) :
    ∃ value rest log, programRound stmt ts = .ok value rest log ∧ value.GoesOn ∧ rest <:+ ts := by
  have hround := settles_programRound h
  cases hstmt : stmt ts with
  | ok s rest log =>
    have heq := programRound_of_ok heof hstmt
    exact ⟨_, _, _, heq, Round.goesOn_read _, hround.suffix_of_ok heq⟩
  | fail diagnostic rest log =>
    have heq := programRound_of_fail heof hstmt
    exact ⟨_, _, _, heq, Round.goesOn_skipped, hround.suffix_of_ok heq⟩
  | diverges => exact absurd hstmt (h ts).ne_diverges

theorem Grammar.programRound_spliced (heof : ts.current.kind ≠ .eof)
    (hown : programRound stmt₂ ts = .ok value rest log)
    (h : Reply.Spliced false us (stmt₂ ts) (stmt₁ (ts ++ us))) :
    programRound stmt₁ (ts ++ us) = .ok value (rest ++ us) log := by
  have hcurrent := current_append_of_ne_nil (ne_nil_of_current_kind heof) us
  generalize hsecond : stmt₂ ts = reply₂ at h
  generalize hfirst : stmt₁ (ts ++ us) = reply₁ at h
  cases h with
  | ok =>
    rw [programRound_of_ok heof hsecond] at hown
    cases hown
    exact programRound_of_ok (by rwa [hcurrent]) hfirst
  | fail hrecover =>
    rw [programRound_of_fail heof hsecond] at hown
    cases hown
    rw [programRound_of_fail (by rwa [hcurrent]) hfirst, hrecover]

/-- In a block, a statement that is nested too deeply makes the difference. -/
theorem Rule.blockRound_spliced (hbrace : ts.current.kind ≠ .rbrace)
    (heof : ts.current.kind ≠ .eof) (hown : Grammar.programRound stmt₂ ts = .ok value rest log)
    (h : Reply.Spliced true us (stmt₂ ts) (stmt₁ (ts ++ us)) ∨ (stmt₁ (ts ++ us)).IsTooDeep) :
    blockRound stmt₁ (ts ++ us) = .ok value (rest ++ us) log ∨
      (blockRound stmt₁ (ts ++ us)).IsTooDeep := by
  have hcurrent := current_append_of_ne_nil (ne_nil_of_current_kind heof) us
  rw [← hcurrent] at hbrace
  have heof' : (current (ts ++ us)).kind ≠ .eof := by rwa [hcurrent]
  rcases h with h | ⟨diagnostic, rest', log', hfirst, hnesting⟩
  · generalize hsecond : stmt₂ ts = reply₂ at h
    generalize hfirst : stmt₁ (ts ++ us) = reply₁ at h
    cases h with
    | ok =>
      rw [Grammar.programRound_of_ok heof hsecond] at hown
      cases hown
      exact .inl (blockRound_of_ok hbrace heof' hfirst)
    | @fail diagnostic rest' log' hrecover =>
      rw [Grammar.programRound_of_fail heof hsecond] at hown
      cases hown
      cases hnesting : diagnostic.fault.isNesting with
      | true =>
        rw [blockRound_of_nesting hbrace heof' hfirst hnesting]
        exact .inr ⟨diagnostic, _, _, rfl, hnesting⟩
      | false =>
        rw [blockRound_of_fail hbrace heof' hfirst hnesting, hrecover]
        exact .inl rfl
  · rw [blockRound_of_nesting hbrace heof' hfirst hnesting]
    exact .inr ⟨diagnostic, _, _, rfl, hnesting⟩

/-- A statement at the start of what is left of a text, and the same statement with `us`
behind the text.  In a block the text does not close the block early.  If they are compared
loosely, the second one may be nested too deeply instead. -/
structure Grammar.Splices (inBlock : Bool) (us : Tokens) (loose : Prop) (part : Tokens → Prop)
    (own stmt : Step Stmt) (ts : Tokens) : Prop where
  /-- The source has not ended, -/
  ne_eof : ts.current.kind ≠ .eof
  /-- and neither has the block. -/
  ne_rbrace : inBlock = true → ts.current.kind ≠ .rbrace
  /-- Alone, the statement is read or skipped, and a part of the text is left. -/
  goesOn : ∃ value rest log, programRound own ts = .ok value rest log ∧ value.GoesOn ∧ part rest
  /-- With `us` behind the text, the statement comes to the same. -/
  spliced : Reply.Spliced inBlock us (own ts) (stmt (ts ++ us)) ∨
    loose ∧ (stmt (ts ++ us)).IsTooDeep

variable {loose : Prop} {part : Tokens → Prop}

/-- Rounds over a text whose statements do not look past its end do not do so either. -/
theorem Grammar.roundsAlong_of_splices (hloose : ¬loose)
    (h : ∀ ts, part ts → ts ≠ [] → Splices false us loose part stmt₂ stmt₁ ts) :
    Step.RoundsAlong us False part (programRound stmt₂) (programRound stmt₁) := by
  intro ts hts hne
  have hsplices := h ts hts hne
  obtain ⟨value, rest, log, hown, hgoes, hrest⟩ := hsplices.goesOn
  have hspliced := hsplices.spliced.resolve_right fun hdeep => hloose hdeep.1
  exact ⟨value, rest, log, hown, hgoes, hrest,
    .inl (programRound_spliced hsplices.ne_eof hown hspliced)⟩

/-- The same in a block, unless something is nested too deeply. -/
theorem Grammar.blockRoundsAlong_of_splices
    (h : ∀ ts, part ts → ts ≠ [] → Splices true us loose part stmt₂ stmt₁ ts) :
    Step.RoundsAlong us True part (programRound stmt₂) (Rule.blockRound stmt₁) := by
  intro ts hts hne
  have hsplices := h ts hts hne
  obtain ⟨value, rest, log, hown, hgoes, hrest⟩ := hsplices.goesOn
  refine ⟨value, rest, log, hown, hgoes, hrest, ?_⟩
  have hround := Rule.blockRound_spliced (hsplices.ne_rbrace rfl) hsplices.ne_eof hown
    (hsplices.spliced.imp_right And.right)
  exact hround.imp_right fun hdeep => ⟨trivial, hdeep⟩

end

/-! ### The two kinds of text -/

namespace Grammar

variable {ts us : Tokens} {room room₁ room₂ : Nat}

/-- A statement of a text that closes its blocks and ends in a `;` is read and given up in the
same way with more behind it.  In a block that takes that no closing brace is left where it is
given up. -/
theorem spliced_of_closed {front : Tokens} {s : Token} (hs : s.kind = .semicolon)
    (hfront : Closed 0 front) (us : Tokens) (hroom : room₁ ≤ room₂) (inBlock : Bool)
    (hbrace : inBlock = true → ∀ diagnostic rest log,
      standard.statement room₂ (front ++ [s]) = .fail diagnostic rest log →
        ∀ t ∈ rest, t.kind ≠ .rbrace) :
    Reply.Spliced inBlock us (standard.statement room₂ (front ++ [s]))
        (standard.statement room₁ (front ++ [s] ++ us)) ∨
      room₁ < room₂ ∧ (standard.statement room₁ (front ++ [s] ++ us)).IsTooDeep := by
  have hmem : s.kind ∈ Kind.borders := by
    rw [hs]
    decide
  have hborder : Border (s :: us) [s] := ⟨hmem, hmem, Iff.rfl⟩
  have hreplies : Reply.Bordered (s :: us) [s] (room₁ < room₂) 0 (fun _ => Over (s :: us) 0)
      (standard.statement room₁ (front ++ s :: us)) (standard.statement room₂ (front ++ [s])) :=
    bordered_statement hborder hroom id hfront fun _ => ⟨rfl, hs⟩
  rw [List.append_cons front s us] at hreplies
  generalize standard.statement room₂ (front ++ [s]) = reply₂ at hbrace hreplies
  generalize standard.statement room₁ (front ++ [s] ++ us) = reply₁ at hreplies
  cases hreplies with
  | @ok value rest log hrest =>
    cases rest with
    | nil => exact .inl .ok
    | cons last rest =>
      rw [List.cons_append, List.cons_append, List.append_cons rest s us]
      exact .inl .ok
  | @fail d₁ d₂ rest log hrest hdiagnostic =>
    obtain rfl : d₁ = d₂ := hdiagnostic.eq (.inr rfl)
    have hended : Ended (rest ++ [s]) := ⟨s, hs, List.suffix_append rest [s]⟩
    rw [List.append_cons rest s us]
    refine .inl (.fail ?_)
    -- where there are no closing braces, blocks recover like programs
    have hblock : recover inBlock (rest ++ [s]) = recover false (rest ++ [s]) := by
      cases inBlock with
      | false => rfl
      | true => exact recover_of_ne_rbrace true (hbrace rfl _ _ _ rfl)
    rw [hended.recover_append, hblock]
  | tooDeep hloose hnesting => exact .inr ⟨hloose, _, _, _, rfl, hnesting⟩

/-- So is a statement among sentences. -/
theorem spliced_of_sentences (hts : ts.Sentences) (hne : ts ≠ []) (us : Tokens)
    (hroom : room₁ ≤ room₂) (inBlock : Bool)
    (hbrace : inBlock = true → ∀ t ∈ ts, t.kind ≠ .rbrace) :
    Reply.Spliced inBlock us (standard.statement room₂ ts) (standard.statement room₁ (ts ++ us)) ∨
      room₁ < room₂ ∧ (standard.statement room₁ (ts ++ us)).IsTooDeep := by
  obtain ⟨s, hs, front, rfl⟩ := hts.ended hne
  have hfront : Closed 0 front := closed_of_ne_lbrace fun t ht =>
    hts.ne_lbrace t (List.mem_append_left [s] ht)
  refine spliced_of_closed hs hfront us hroom inBlock ?_
  intro hblock diagnostic rest log hfail t ht
  have hrest := (settles_statement wellFounded_standard room₂).suffix_of_fail hfail
  exact hbrace hblock t (hrest.subset ht)

/-- Statements among sentences do not look past the end of the last one. -/
theorem splices_of_sentences (us : Tokens) (hroom : room₁ ≤ room₂) (inBlock : Bool)
    (hts : ts.Sentences)
    (hkinds : ∀ t ∈ ts, t.kind ≠ .eof ∧ (inBlock = true → t.kind ≠ .rbrace)) (hne : ts ≠ []) :
    Splices inBlock us (room₁ < room₂)
      (fun ts => ts.Sentences ∧ ∀ t ∈ ts, t.kind ≠ .eof ∧ (inBlock = true → t.kind ≠ .rbrace))
      (standard.statement room₂) (standard.statement room₁) ts := by
  obtain ⟨heof, hbrace⟩ := hkinds _ (current_mem hne)
  refine ⟨heof, hbrace, ?_, ?_⟩
  · obtain ⟨value, rest, log, hown, hgoes, hrest⟩ :=
      exists_programRound (settles_statement wellFounded_standard room₂) heof
    exact ⟨value, rest, log, hown, hgoes, hts.of_suffix hrest, fun t ht =>
      hkinds t (hrest.subset ht)⟩
  · exact spliced_of_sentences hts hne us hroom inBlock fun hblock t ht => (hkinds t ht).2 hblock

/-- The tokens are read without a diagnostic, and where they end no phrase goes on at what
stands behind them. -/
structure Unbroken (room : Nat) (us ts : Tokens) : Prop where
  /-- The tokens are read. -/
  reads : ∃ rounds ss rest,
    Step.collect (programRound (standard.statement room)) rounds ts = .ok ss rest []
  /-- None of them is the end of a source. -/
  ne_eof : ∀ t ∈ ts, t.kind ≠ .eof
  /-- Unless there are none, they end in a `;`, or no phrase goes on behind them. -/
  closes : ts ≠ [] → ts.Ended ∨ standard.Closes us.current

/-- What is read without a diagnostic starts with a statement. -/
theorem Unbroken.exists_statement (h : Unbroken room us ts) (hne : ts ≠ []) :
    ∃ s last rest n, standard.statement room ts = .ok s (last :: rest) [] ∧
      Reads standard (.statement s) n ts rest ∧ Unbroken room us rest := by
  have heof := h.ne_eof _ (current_mem hne)
  obtain ⟨rounds, ss, end', hcollect⟩ := h.reads
  cases rounds with
  | zero => cases hcollect
  | succ rounds =>
    rw [Step.collect] at hcollect
    obtain ⟨value, mid, hround, hmore⟩ := Step.bind_eq_ok hcollect
    cases hstmt : standard.statement room ts with
    | ok s out log =>
      rw [programRound_of_ok heof hstmt] at hround
      cases hround
      obtain ⟨n, last, rest, rfl, hread⟩ := statement_readTo stopsAtEof_standard room hstmt
      obtain ⟨more, mid, hmore, -⟩ := Step.bind_eq_ok hmore
      exact ⟨s, last, rest, n, rfl, hread, ⟨rounds, more, mid, hmore⟩, fun t ht =>
        h.ne_eof t (hread.suffix.subset ht), fun hrest =>
          (h.closes hne).imp_left fun hended => hended.of_suffix hread.suffix hrest⟩
    | fail diagnostic out log =>
      rw [programRound_of_fail heof hstmt] at hround
      simp at hround
    | diverges => exact absurd hstmt (settles_statement wellFounded_standard room ts).ne_diverges

/-- A statement that is read is read with more behind it, if there is as much room. -/
theorem spliced_of_reads {s : Stmt} {last : Token} {rest : Tokens} {n : Nat}
    (hstmt : standard.statement room₂ ts = .ok s (last :: rest) [])
    (hread : Reads standard (.statement s) n ts rest)
    (hclose : rest = [] → ts.Ended ∨ standard.Closes us.current) (hroom : room₁ ≤ room₂)
    (inBlock : Bool) :
    Reply.Spliced inBlock us (standard.statement room₂ ts) (standard.statement room₁ (ts ++ us)) ∨
      room₁ < room₂ ∧ (standard.statement room₁ (ts ++ us)).IsTooDeep := by
  have hown : (standard.statement room₂ ts).Meets n room₂ s ts rest := hread.meets room₂
  have hmore : (standard.statement room₁ (ts ++ us)).Meets n room₁ s (ts ++ us) (rest ++ us) :=
    (hread.append_statement rfl hclose).meets room₁
  rw [hstmt] at hown ⊢
  generalize standard.statement room₁ (ts ++ us) = reply at hmore ⊢
  cases hown with
  | reads hdepth =>
    cases hmore with
    | reads hroom₁ last' => exact .inl .ok
    | tooDeep hroom₁ => exact .inr ⟨by omega, _, _, _, rfl, rfl⟩

/-- Statements of what is read without a diagnostic do not look past its end. -/
theorem splices_of_unbroken (hroom : room₁ ≤ room₂) (inBlock : Bool) (hts : Unbroken room₂ us ts)
    (hne : ts ≠ []) :
    Splices inBlock us (room₁ < room₂) (Unbroken room₂ us) (standard.statement room₂)
      (standard.statement room₁) ts := by
  have heof := hts.ne_eof _ (current_mem hne)
  obtain ⟨s, last, rest, n, hstmt, hread, hrest⟩ := hts.exists_statement hne
  refine ⟨heof, fun _ => (hread.current_of_statement repowered_standard).1, ?_, ?_⟩
  · exact ⟨_, _, _, programRound_of_ok heof hstmt, Round.goesOn_read s, hrest⟩
  · exact spliced_of_reads hstmt hread (fun _ => hts.closes hne) hroom inBlock

end Grammar

end Script
