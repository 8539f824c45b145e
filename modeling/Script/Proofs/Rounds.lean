import Script.Grammar.Progress
import Script.Proofs.Phrase.Running

/-!
# Loops and their rounds

The reader has five loops: over the statements of a program and of a block, over the
operators of an expression, and over the names and the values of a list.  Each of them
repeats one step, its round.  A round either ends the loop or goes on with it, and one
that goes on has taken a token, so that the loop is over before the tokens are.

## Main definitions

* `Round` — how a round over statements ends.
* `Step.collect`, `Step.collectWhile`, `Step.fold` — the repetition of a round.
* `Grammar.programRound`, `Rule.blockRound`, `Grammar.operatorRound`, `Rule.nameRound`,
  `Rule.valueRound` — the rounds.
* `Step.Progresses` — a round comes to an end, and takes a token if it goes on.
* `Grammar.LoopsProgress` — the five loops repeat rounds that do.

## Main results

* `Grammar.loopsProgress` — so they do wherever reading comes to an end.
* `Step.collect_eq_of_lt` — how many rounds a loop may take makes no difference once
  there are more of them than tokens.
-/

namespace Script

/-- How a round of a loop over statements ends. -/
inductive Round where
  /-- There are no more statements. -/
  | finished
  /-- A statement has been read. -/
  | read (statement : Stmt)
  /-- A statement could not be read, and has been recorded and skipped. -/
  | skipped

/-- The loop goes on behind the round. -/
def Round.GoesOn (round : Round) : Prop := round ≠ .finished

theorem Round.goesOn_read (statement : Stmt) : (read statement).GoesOn := nofun

theorem Round.goesOn_skipped : skipped.GoesOn := nofun

/-- The statement that a round has read, if any, and those behind it. -/
def Round.cons : Round → List Stmt → List Stmt
  | .read s, ss => s :: ss
  | _, ss => ss

theorem Round.cons_append (round : Round) (ss more : List Stmt) :
    round.cons ss ++ more = round.cons (ss ++ more) := by
  cases round <;> rfl

/-! ### Repetition -/

namespace Step

variable {α β : Type}

/-- Repeats a round over statements until there are no more, and collects what is read. -/
def collect (round : Step Round) : Nat → Step (List Stmt)
  | 0 => forever
  | rounds + 1 => do
    match ← round with
    | .finished => pure []
    | .read statement => do
      let statements ← collect round rounds
      pure (statement :: statements)
    | .skipped => collect round rounds

/-- Repeats a round for as long as it says so, and collects what is read. -/
def collectWhile (round : Step (α × Bool)) : Nat → Step (List α)
  | 0 => forever
  | rounds + 1 => do
    let (value, more) ← round
    if more then do
      let values ← collectWhile round rounds
      pure (value :: values)
    else
      pure [value]

/-- Repeats a round, each time with the value of the one before, until there is none. -/
def fold (round : α → Step (Option α)) : Nat → α → Step α
  | 0, _ => forever
  | rounds + 1, value => do
    match ← round value with
    | none => pure value
    | some value => fold round rounds value

/-- The step comes to an end, and has taken a token if it goes on. -/
structure Progresses (round : Step α) (goesOn : α → Prop) : Prop where
  /-- The round comes to an end. -/
  settles : round.Settles
  /-- There are fewer tokens left than before. -/
  length_lt : ∀ {ts us : Tokens} {value : α} {log : List Diagnostic},
    round ts = .ok value us log → goesOn value → us.length < ts.length

/-- What a settling step leaves is a suffix of what it was given. -/
theorem Settles.suffix_of_ok {step : Step α} (h : step.Settles) {ts rest : Tokens} {value : α}
    {log : List Diagnostic} (hok : step ts = .ok value rest log) : rest <:+ ts := by
  have hts := h ts
  rwa [hok] at hts

theorem Settles.suffix_of_fail {step : Step α} (h : step.Settles) {ts rest : Tokens}
    {diagnostic : Diagnostic} {log : List Diagnostic}
    (hfail : step ts = .fail diagnostic rest log) : rest <:+ ts := by
  have hts := h ts
  rwa [hfail] at hts

/-- What a round that goes on has read and recorded stands in front of what the others do. -/
theorem collect_of_goesOn {round : Step Round} {ts rest : Tokens} {value : Round}
    {log : List Diagnostic} (h : round ts = .ok value rest log) (hgoes : value.GoesOn) (n : Nat) :
    collect round (n + 1) ts =
      ((collect round n >>= fun ss => pure (value.cons ss)) rest).after log := by
  rw [collect, bind_of_ok h]
  cases value with
  | finished => exact absurd rfl hgoes
  | read s => rfl
  | skipped => simp only [Round.cons, bind_pure]

/-- A loop that comes to an end behind a round does so with the round in front. -/
theorem collect_eq_ok_of_goesOn {round : Step Round} {ts rest out : Tokens} {value : Round}
    {ss : List Stmt} {log log' : List Diagnostic} {n : Nat} (h : round ts = .ok value rest log)
    (hgoes : value.GoesOn) (hmore : collect round n rest = .ok ss out log') :
    collect round (n + 1) ts = .ok (value.cons ss) out (log ++ log') := by
  rw [collect_of_goesOn h hgoes, bind_of_ok hmore, pure_apply, Reply.after_ok, Reply.after_ok,
    List.append_nil]

/-- A loop that comes to an end with a round that goes on does so behind the round. -/
theorem exists_of_collect_of_goesOn {round : Step Round} {ts rest out : Tokens} {value : Round}
    {ss : List Stmt} {log log' : List Diagnostic} {n : Nat} (h : round ts = .ok value rest log)
    (hgoes : value.GoesOn) (hall : collect round (n + 1) ts = .ok ss out log') :
    ∃ more log'', collect round n rest = .ok more out log'' ∧ ss = value.cons more ∧
      log' = log ++ log'' := by
  rw [collect_of_goesOn h hgoes] at hall
  cases hmore : collect round n rest with
  | ok more mid log'' =>
    rw [bind_of_ok hmore, pure_apply, Reply.after_ok, Reply.after_ok, List.append_nil] at hall
    cases hall
    exact ⟨more, log'', rfl, rfl, rfl⟩
  | fail diagnostic mid log'' =>
    rw [bind_of_fail hmore] at hall
    cases hall
  | diverges =>
    rw [bind_of_diverges hmore] at hall
    cases hall

/-- If a loop behind a round goes on with other tokens, it does so with the round in front. -/
theorem collect_append_of_goesOn {round : Step Round} {ts rest us : Tokens} {value : Round}
    {ss : List Stmt} {log log' : List Diagnostic} {n : Nat} {others : Step (List Stmt)}
    (h : round ts = .ok value rest log) (hgoes : value.GoesOn)
    (hmore : collect round n rest =
      ((others >>= fun more => pure (ss ++ more)) us).after log') :
    collect round (n + 1) ts =
      ((others >>= fun more => pure (value.cons ss ++ more)) us).after (log ++ log') := by
  rw [collect_of_goesOn h hgoes, bind_apply, hmore, bind_apply, bind_apply]
  cases others us <;> simp [pure_apply, Round.cons_append]

/-- A loop that may take more rounds than there are tokens ends before it has taken them,
so that their number makes no difference. -/
theorem collect_eq_of_lt {round : Step Round} (h : round.Progresses Round.GoesOn) {m n : Nat}
    {ts : Tokens} (hm : ts.length < m) (hn : ts.length < n) :
    collect round m ts = collect round n ts := by
  induction m generalizing n ts with
  | zero => cases hm
  | succ m ih =>
    cases n with
    | zero => cases hn
    | succ n =>
      rw [collect, collect]
      cases hround : round ts with
      | fail diagnostic rest log => rw [bind_of_fail hround, bind_of_fail hround]
      | diverges => rw [bind_of_diverges hround, bind_of_diverges hround]
      | ok value rest log =>
        rw [bind_of_ok hround, bind_of_ok hround]
        cases value with
        | finished => rfl
        | read statement =>
          have hlt := h.length_lt hround (Round.goesOn_read statement)
          have hrest : collect round m rest = collect round n rest := ih (by omega) (by omega)
          simp only [bind_apply, hrest]
        | skipped =>
          have hlt := h.length_lt hround Round.goesOn_skipped
          have hrest : collect round m rest = collect round n rest := ih (by omega) (by omega)
          simp only [hrest]

end Step

/-! ### Rounds over statements -/

namespace Grammar

variable {stmt : Step Stmt} {ts rest : Tokens} {s : Stmt} {diagnostic : Diagnostic}
  {log : List Diagnostic}

/-- One round of the loop over the statements of a program. -/
def programRound (stmt : Step Stmt) : Step Round := do
  let token ← Step.current
  if token.kind = .eof then
    pure .finished
  else
    match ← Step.attempt stmt with
    | .ok statement => do
      let _ ← Step.advance
      pure (.read statement)
    | .error diagnostic => do
      Step.record diagnostic
      Step.synchronize false
      pure .skipped

theorem programStatements_eq_collect (stmt : Step Stmt) :
    programStatements stmt = Step.collect (programRound stmt) := by
  funext rounds
  induction rounds with
  | zero => rfl
  | succ rounds ih =>
    rw [programStatements, Step.collect, programRound, bind_assoc]
    congr 1
    funext token
    split
    · rw [pure_bind]
    · rw [bind_assoc]
      congr 1
      funext result
      cases result with
      | ok statement =>
        simp only [bind_assoc, pure_bind, ih]
        rfl
      | error diagnostic =>
        simp only [bind_assoc, pure_bind, ih]
        rfl

theorem programRound_of_eof (heof : ts.current.kind = .eof) :
    programRound stmt ts = .ok .finished ts [] := by
  rw [programRound, Step.current_bind, if_pos heof, Step.pure_apply]

theorem programRound_of_ok (heof : ts.current.kind ≠ .eof) (h : stmt ts = .ok s rest log) :
    programRound stmt ts = .ok (.read s) rest.tail log := by
  rw [programRound, Step.current_bind, if_neg heof, Step.attempt_bind_of_ok h]
  dsimp only
  rw [Step.advance_bind, Step.pure_apply, Reply.after_ok, List.append_nil]

theorem programRound_of_fail (heof : ts.current.kind ≠ .eof)
    (h : stmt ts = .fail diagnostic rest log) :
    programRound stmt ts = .ok .skipped (rest.recover false) (log ++ [diagnostic]) := by
  rw [programRound, Step.current_bind, if_neg heof, Step.attempt_bind_of_fail h]
  rfl

theorem programRound_of_diverges (heof : ts.current.kind ≠ .eof) (h : stmt ts = .diverges) :
    programRound stmt ts = .diverges := by
  have hattempt : Step.attempt stmt ts = .diverges := by rw [Step.attempt_apply, h]
  rw [programRound, Step.current_bind, if_neg heof, Step.bind_of_diverges hattempt]

end Grammar

namespace Rule

variable {stmt : Step Stmt} {ts rest : Tokens} {s : Stmt} {diagnostic : Diagnostic}
  {log : List Diagnostic}

/-- One round of the loop over the statements of a block. -/
def blockRound (stmt : Step Stmt) : Step Round := do
  let token ← Step.current
  if token.kind = .rbrace then
    pure .finished
  else if token.kind = .eof then
    Step.reject (.unexpectedToken .rbrace .eof)
  else
    match ← Step.attempt stmt with
    | .ok statement => do
      let _ ← Step.advance
      pure (.read statement)
    | .error diagnostic =>
      if diagnostic.fault.isNesting then
        Step.fail diagnostic
      else do
        Step.record diagnostic
        Step.synchronize true
        pure .skipped

theorem blockStatements_eq_collect (stmt : Step Stmt) :
    blockStatements stmt = Step.collect (blockRound stmt) := by
  funext rounds
  induction rounds with
  | zero => rfl
  | succ rounds ih =>
    rw [blockStatements, Step.collect, blockRound, bind_assoc]
    congr 1
    funext token
    split
    · rw [pure_bind]
    · split
      · rw [Step.reject_bind]
      · rw [bind_assoc]
        congr 1
        funext result
        cases result with
        | ok statement =>
          simp only [bind_assoc, pure_bind, ih]
          rfl
        | error diagnostic =>
          dsimp only
          split
          · rw [Step.fail_bind]
          · simp only [bind_assoc, pure_bind, ih]
            rfl

theorem blockRound_of_rbrace (hbrace : ts.current.kind = .rbrace) :
    blockRound stmt ts = .ok .finished ts [] := by
  rw [blockRound, Step.current_bind, if_pos hbrace, Step.pure_apply]

theorem blockRound_of_eof (heof : ts.current.kind = .eof) :
    blockRound stmt ts = .fail ⟨.unexpectedToken .rbrace .eof, ts.current⟩ ts [] := by
  have hbrace : ts.current.kind ≠ .rbrace := by
    rw [heof]
    decide
  rw [blockRound, Step.current_bind, if_neg hbrace, if_pos heof, Step.reject_apply]

theorem blockRound_of_ok (hbrace : ts.current.kind ≠ .rbrace) (heof : ts.current.kind ≠ .eof)
    (h : stmt ts = .ok s rest log) : blockRound stmt ts = .ok (.read s) rest.tail log := by
  rw [blockRound, Step.current_bind, if_neg hbrace, if_neg heof, Step.attempt_bind_of_ok h]
  dsimp only
  rw [Step.advance_bind, Step.pure_apply, Reply.after_ok, List.append_nil]

theorem blockRound_of_nesting (hbrace : ts.current.kind ≠ .rbrace) (heof : ts.current.kind ≠ .eof)
    (h : stmt ts = .fail diagnostic rest log) (hnesting : diagnostic.fault.isNesting = true) :
    blockRound stmt ts = .fail diagnostic rest log := by
  rw [blockRound, Step.current_bind, if_neg hbrace, if_neg heof, Step.attempt_bind_of_fail h]
  dsimp only
  rw [if_pos hnesting, Step.fail_apply, Reply.after_fail, List.append_nil]

theorem blockRound_of_fail (hbrace : ts.current.kind ≠ .rbrace) (heof : ts.current.kind ≠ .eof)
    (h : stmt ts = .fail diagnostic rest log) (hnesting : diagnostic.fault.isNesting = false) :
    blockRound stmt ts = .ok .skipped (rest.recover true) (log ++ [diagnostic]) := by
  rw [blockRound, Step.current_bind, if_neg hbrace, if_neg heof, Step.attempt_bind_of_fail h]
  dsimp only
  rw [if_neg (by rw [hnesting]; decide)]
  rfl

theorem blockRound_of_diverges (hbrace : ts.current.kind ≠ .rbrace)
    (heof : ts.current.kind ≠ .eof) (h : stmt ts = .diverges) :
    blockRound stmt ts = .diverges := by
  have hattempt : Step.attempt stmt ts = .diverges := by rw [Step.attempt_apply, h]
  rw [blockRound, Step.current_bind, if_neg hbrace, if_neg heof, Step.bind_of_diverges hattempt]

end Rule

/-! ### Rounds over the parts of an expression -/

/-- One round of the loop over the operators that continue an expression. -/
def Grammar.operatorRound (g : Grammar) (expr : ExprReader) (power : BindingPower) (left : Expr) :
    Step (Option Expr) := do
  let ahead ← Step.peek
  match g.continuesAt? power ahead with
  | none => pure none
  | some next => do
    let _ ← Step.advance
    let left ← next.rule.read expr left next.power
    pure (some left)

theorem Grammar.operators_eq_fold (g : Grammar) (expr : ExprReader) (power : BindingPower) :
    g.operators expr power = Step.fold (g.operatorRound expr power) := by
  funext rounds left
  induction rounds generalizing left with
  | zero => rfl
  | succ rounds ih =>
    rw [operators, Step.fold, operatorRound, bind_assoc]
    congr 1
    funext ahead
    cases g.continuesAt? power ahead with
    | none => simp only [pure_bind]
    | some next => simp only [bind_assoc, pure_bind, ih]

namespace Rule

/-- Goes on behind a comma, which is taken, and ends the list where there is none. -/
def andMore {α : Type} (value : α) : Step (α × Bool) := do
  let ahead ← Step.peek
  if ahead.kind = .comma then do
    let _ ← Step.advance
    pure (value, true)
  else
    pure (value, false)

theorem settles_andMore {α : Type} (value : α) : (andMore value).Settles :=
  Step.settles_bind Step.settles_peek fun ahead => by
    split
    · exact Step.settles_bind Step.settles_advance fun _ => Step.settles_pure _
    · exact Step.settles_pure _

/-- A list that goes on does so at a comma. -/
theorem current_of_andMore {α : Type} {value w : α} {ts us : Tokens} {log : List Diagnostic}
    (h : andMore value ts = .ok (w, true) us log) : us.current.kind = .comma := by
  rw [andMore, Step.peek_bind] at h
  by_cases hcomma : ts.peek.kind = .comma
  · rw [if_pos hcomma, Step.advance_bind, Step.pure_apply] at h
    cases h
    exact hcomma
  · rw [if_neg hcomma, Step.pure_apply] at h
    cases h

/-- One round of the loop over the names of a parameter list, and whether there are more. -/
def nameRound : Step (Identifier × Bool) := do
  let name ← Step.expect .ident
  andMore (.ofToken name)

theorem parameterNames_eq_collectWhile : parameterNames = Step.collectWhile nameRound := by
  funext rounds
  induction rounds with
  | zero => rfl
  | succ rounds ih =>
    rw [parameterNames, Step.collectWhile, nameRound, bind_assoc]
    congr 1
    funext name
    rw [andMore, bind_assoc]
    congr 1
    funext ahead
    split
    · simp only [bind_assoc, pure_bind, ih, if_true]
      rfl
    · simp only [pure_bind, Bool.false_eq_true, if_false]

/-- One round of the loop over the values of an argument list, and whether there are more.
The first round is entered at the opening parenthesis and each later one at a comma. -/
def valueRound (expr : ExprReader) : Step (Expr × Bool) := do
  let _ ← Step.advance
  let value ← expr .lowest
  andMore value

theorem argumentValues_eq_collectWhile (expr : ExprReader) :
    argumentValues expr = Step.collectWhile (valueRound expr) := by
  funext rounds
  induction rounds with
  | zero => rfl
  | succ rounds ih =>
    rw [argumentValues, Step.collectWhile, valueRound, bind_assoc]
    congr 1
    funext token
    rw [bind_assoc]
    congr 1
    funext value
    rw [andMore, bind_assoc]
    congr 1
    funext ahead
    split
    · simp only [bind_assoc, pure_bind, ih, if_true]
      rfl
    · simp only [pure_bind, Bool.false_eq_true, if_false]

end Rule

/-! ### Rounds that go on take a token -/

/-- What recovery leaves is shorter than what there was before the statement that failed,
if the statement has taken a token or recovery does. -/
theorem Tokens.length_recover_lt_of_suffix {ts rest : Tokens} (inBlock : Bool)
    (hrest : rest <:+ ts) (heof : ts.current.kind ≠ .eof)
    (hbrace : inBlock = false ∨ ts.current.kind ≠ .rbrace) :
    (rest.recover inBlock).length < ts.length := by
  have hle := (rest.recover_suffix inBlock).length_le
  have hrestle := hrest.length_le
  by_cases hlen : rest.length = ts.length
  · rw [hrest.eq_of_length hlen]
    exact length_recover_lt inBlock (ne_nil_of_current_kind heof) hbrace
  · omega

namespace Grammar

variable {g : Grammar} {expr : ExprReader} {stmt : Step Stmt}

open Step

theorem settles_programRound (h : stmt.Settles) : (programRound stmt).Settles :=
  settles_bind settles_current fun token => by
    split
    · exact settles_pure _
    · refine settles_bind (settles_attempt h) fun result => ?_
      cases result with
      | ok statement => exact settles_bind settles_advance fun _ => settles_pure _
      | error diagnostic =>
        exact settles_bind (settles_record _) fun _ =>
          settles_bind (settles_synchronize _) fun _ => settles_pure _

/-- A round over the statements of a program takes a token, whether a statement is read or
skipped. -/
theorem progresses_programRound (h : stmt.Settles) :
    (programRound stmt).Progresses Round.GoesOn where
  settles := settles_programRound h
  length_lt {ts us value log} hround hgoes := by
    by_cases heof : ts.current.kind = .eof
    · rw [programRound_of_eof heof] at hround
      cases hround
      exact absurd rfl hgoes
    · have hpos := List.length_pos_iff.2 (Tokens.ne_nil_of_current_kind heof)
      cases hstmt : stmt ts with
      | ok s rest log' =>
        have hle := (h.suffix_of_ok hstmt).length_le
        rw [programRound_of_ok heof hstmt] at hround
        cases hround
        rw [List.length_tail]
        omega
      | fail diagnostic rest log' =>
        have hrest := h.suffix_of_fail hstmt
        rw [programRound_of_fail heof hstmt] at hround
        cases hround
        exact Tokens.length_recover_lt_of_suffix false hrest heof (.inl rfl)
      | diverges => exact absurd hstmt (h ts).ne_diverges

theorem settles_operatorRound (h : ∀ power, (expr power).Settles) (power : BindingPower)
    (left : Expr) : (g.operatorRound expr power left).Settles :=
  settles_bind settles_peek fun ahead => by
    cases g.continuesAt? power ahead with
    | none => exact settles_pure _
    | some next =>
      exact settles_bind settles_advance fun _ =>
        settles_bind (next.rule.settles_read h left next.power) fun _ => settles_pure _

/-- A round over the operators moves on to an operator if there is one. -/
theorem progresses_operatorRound (hg : g.WellFounded) (h : ∀ power, (expr power).Settles)
    (power : BindingPower) (left : Expr) :
    (g.operatorRound expr power left).Progresses fun next => next.isSome = true where
  settles := settles_operatorRound h power left
  length_lt {ts us value log} hround hgoes := by
    rw [operatorRound, peek_bind] at hround
    cases hnext : g.continuesAt? power ts.peek with
    | none =>
      simp only [hnext, pure_apply] at hround
      cases hround
      cases hgoes
    | some next =>
      -- the operator is a token of the source, so that there are two to move over
      have hlen := Tokens.length_of_peek_kind (hg.continuesAt?_eof hnext)
      simp only [hnext, advance_bind] at hround
      have hread : (next.rule.read expr left next.power >>= fun e => pure (some e)).Settles :=
        settles_bind (next.rule.settles_read h left next.power) fun _ => settles_pure _
      have hle := (hread.suffix_of_ok hround).length_le
      rw [List.length_tail] at hle
      omega

end Grammar

namespace Rule

variable {expr : ExprReader} {stmt : Step Stmt}

open Step

theorem settles_blockRound (h : stmt.Settles) : (blockRound stmt).Settles :=
  settles_bind settles_current fun token => by
    split
    · exact settles_pure _
    · split
      · exact settles_reject _
      · refine settles_bind (settles_attempt h) fun result => ?_
        cases result with
        | ok statement => exact settles_bind settles_advance fun _ => settles_pure _
        | error diagnostic =>
          dsimp only
          split
          · exact settles_fail _
          · exact settles_bind (settles_record _) fun _ =>
              settles_bind (settles_synchronize _) fun _ => settles_pure _

/-- A round over the statements of a block takes a token as well, even though recovery may
stay where it is: it does so before a closing brace only, and the round has not started
there. -/
theorem progresses_blockRound (h : stmt.Settles) : (blockRound stmt).Progresses Round.GoesOn where
  settles := settles_blockRound h
  length_lt {ts us value log} hround hgoes := by
    by_cases hbrace : ts.current.kind = .rbrace
    · rw [blockRound_of_rbrace hbrace] at hround
      cases hround
      exact absurd rfl hgoes
    · by_cases heof : ts.current.kind = .eof
      · rw [blockRound_of_eof heof] at hround
        cases hround
      · have hpos := List.length_pos_iff.2 (Tokens.ne_nil_of_current_kind heof)
        cases hstmt : stmt ts with
        | ok s rest log' =>
          have hle := (h.suffix_of_ok hstmt).length_le
          rw [blockRound_of_ok hbrace heof hstmt] at hround
          cases hround
          rw [List.length_tail]
          omega
        | fail diagnostic rest log' =>
          have hrest := h.suffix_of_fail hstmt
          cases hnesting : diagnostic.fault.isNesting with
          | true =>
            rw [blockRound_of_nesting hbrace heof hstmt hnesting] at hround
            cases hround
          | false =>
            rw [blockRound_of_fail hbrace heof hstmt hnesting] at hround
            cases hround
            exact Tokens.length_recover_lt_of_suffix true hrest heof (.inr hbrace)
        | diverges => exact absurd hstmt (h ts).ne_diverges

theorem settles_nameRound : nameRound.Settles :=
  settles_bind (settles_expect _) fun _ => settles_andMore _

/-- Every round over the names of a list takes the token before its name. -/
theorem progresses_nameRound : nameRound.Progresses fun _ => True where
  settles := settles_nameRound
  length_lt {ts us value log} hround _ := by
    rw [nameRound, bind_apply] at hround
    by_cases hname : ts.peek.kind = .ident
    · have hexpect : expect .ident ts = .ok ts.peek ts.tail [] := if_pos hname
      have hlen := Tokens.length_of_peek_kind (show ts.peek.kind ≠ .eof by rw [hname]; decide)
      simp only [hexpect, Reply.after_nil] at hround
      have hle := ((settles_andMore _).suffix_of_ok hround).length_le
      rw [List.length_tail] at hle
      omega
    · have hexpect : expect .ident ts =
          .fail ⟨.unexpectedToken .ident ts.peek.kind, ts.peek⟩ ts [] := if_neg hname
      simp only [hexpect] at hround
      cases hround

theorem settles_valueRound (h : ∀ power, (expr power).Settles) : (valueRound expr).Settles :=
  settles_bind settles_advance fun _ => settles_bind (h _) fun _ => settles_andMore _

/-- A round over the values of a list that goes on stops at a comma. -/
theorem current_of_valueRound {ts us : Tokens} {value : Expr} {log : List Diagnostic}
    (hround : valueRound expr ts = .ok (value, true) us log) : us.current.kind = .comma := by
  rw [valueRound, advance_bind] at hround
  obtain ⟨e, mid, log₁, log₂, -, hmore, -⟩ := exists_of_bind_eq_ok hround
  exact current_of_andMore hmore

/-- A round over the values of a list that is entered at a token takes it. -/
theorem length_lt_of_valueRound (h : ∀ power, (expr power).Settles) {ts us : Tokens}
    {value : Expr × Bool} {log : List Diagnostic} (hround : valueRound expr ts = .ok value us log)
    (hts : ts ≠ []) : us.length < ts.length := by
  rw [valueRound, advance_bind] at hround
  have hmore : (expr .lowest >>= fun value => andMore value).Settles :=
    settles_bind (h _) fun _ => settles_andMore _
  have hle := (hmore.suffix_of_ok hround).length_le
  have hpos := List.length_pos_iff.2 hts
  rw [List.length_tail] at hle
  omega

/-- A round over the values of a list takes a token if it goes on. -/
theorem progresses_valueRound (h : ∀ power, (expr power).Settles) :
    (valueRound expr).Progresses fun value => value.2 = true where
  settles := settles_valueRound h
  length_lt {ts us value log} hround hgoes := by
    obtain ⟨e, more⟩ := value
    obtain rfl : more = true := hgoes
    -- the comma at which the round stops is a token of the source
    have hcomma := current_of_valueRound hround
    have hus : us ≠ [] := Tokens.ne_nil_of_current_kind (by rw [hcomma]; decide)
    refine length_lt_of_valueRound h hround ?_
    rintro rfl
    have hle := ((settles_valueRound h).suffix_of_ok hround).length_le
    exact hus (List.length_eq_zero_iff.1 (Nat.le_zero.1 hle))

end Rule

/-! ### The five loops -/

/-- In the given room each of the loops repeats its round, and the rounds that go on take
a token.  The rounds over names and, from the first comma on, over values take one in any
case. -/
structure Grammar.LoopsProgress (g : Grammar) (room : Nat) : Prop where
  /-- The loop over the statements of a program. -/
  program : programStatements (g.statement room) = Step.collect (programRound (g.statement room)) ∧
    (programRound (g.statement room)).Progresses Round.GoesOn
  /-- The loop over the statements of a block. -/
  block : Rule.blockStatements (g.statement room) =
      Step.collect (Rule.blockRound (g.statement room)) ∧
    (Rule.blockRound (g.statement room)).Progresses Round.GoesOn
  /-- The loop over the operators of an expression. -/
  operators : ∀ power, g.operators (g.expression room) power =
      Step.fold (g.operatorRound (g.expression room) power) ∧
    ∀ left, (g.operatorRound (g.expression room) power left).Progresses fun next =>
      next.isSome = true
  /-- The loop over the names of a parameter list. -/
  names : Rule.parameterNames = Step.collectWhile Rule.nameRound ∧
    Rule.nameRound.Progresses fun _ => True
  /-- The loop over the values of an argument list. -/
  values : Rule.argumentValues (g.expression room) =
      Step.collectWhile (Rule.valueRound (g.expression room)) ∧
    (Rule.valueRound (g.expression room)).Progresses fun value => value.2 = true
  /-- The rounds of the last loop but the first one are entered at a comma, -/
  entered : ∀ {ts us : Tokens} {value : Expr} {log : List Diagnostic},
    Rule.valueRound (g.expression room) ts = .ok (value, true) us log → us.current.kind = .comma
  /-- and these take it. -/
  later : ∀ {ts us : Tokens} {value : Expr × Bool} {log : List Diagnostic},
    Rule.valueRound (g.expression room) ts = .ok value us log → ts.current.kind = .comma →
      us.length < ts.length

/-- Where reading comes to an end, it does so because every round takes a token. -/
theorem Grammar.loopsProgress {g : Grammar} (hg : g.WellFounded) (room : Nat) :
    g.LoopsProgress room where
  program := ⟨programStatements_eq_collect _, progresses_programRound (settles_statement hg room)⟩
  block := ⟨Rule.blockStatements_eq_collect _,
    Rule.progresses_blockRound (settles_statement hg room)⟩
  operators power := ⟨operators_eq_fold g _ power,
    progresses_operatorRound hg (settles_expression hg room) power⟩
  names := ⟨Rule.parameterNames_eq_collectWhile, Rule.progresses_nameRound⟩
  values := ⟨Rule.argumentValues_eq_collectWhile _,
    Rule.progresses_valueRound (settles_expression hg room)⟩
  entered hround := Rule.current_of_valueRound hround
  later hround hcomma := by
    refine Rule.length_lt_of_valueRound (settles_expression hg room) hround ?_
    exact Tokens.ne_nil_of_current_kind (by rw [hcomma]; decide)

end Script
