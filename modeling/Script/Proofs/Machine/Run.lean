import Script.Proofs.Machine.Reading

/-!
# Machines and their sources

Whatever is done with a machine from outside, in any order and however much of it fails, the
machine stays a window on the tokens of its source.  The window never moves back, nothing that
has been recorded is lost, and the machine does what the parser does that has the tokens at
hand.

## Main definitions

* `Machine.IsWindow` — the machine is a window on a stream of tokens.
* `Machine.index` — where the window stands in a source.

## Main results

* `Machine.parser_perform`, `Machine.parser_execute` — a machine does what its parser does.
* `Machine.ShowsAt.execute` — a command moves the window on, or leaves it.
* `Machine.window` — **a machine is always a window on the tokens of its source.**
-/

namespace Script

namespace Machine

variable {α : Type} {source : Lexer} {i j : Nat} {m m' : Machine} {log : List Diagnostic}

/-! ### Requests -/

/-- Whatever a machine is asked to read, it does what the step does by which a parser reads it. -/
theorem ShowsAt.perform (h : m.ShowsAt source i) (htables : m.lookups.InStep)
    (request : Request α) :
    Mirrors source i m (m.perform request)
      (request.step m.lookups.grammar (m.lookups.grammar.expression (maxNesting - m.depth))
        (source.remaining.drop i)) :=
  (Work.simulates htables).request request i m h rfl rfl

/-- The parser of a machine that has been moved on. -/
theorem Moves.parser (h : Moves source i m j m' log) :
    m'.parser =
      { m.parser with
        tokens := source.remaining.drop j, diagnostics := m.diagnostics ++ log } := by
  rw [Machine.parser, h.showsAt.unread, h.diagnostics, h.depth, h.lookups]
  rfl

/-- What mirrors a step is what the parser does that takes the step. -/
theorem Mirrors.run {step : Step α} {outcome : Option (Except Diagnostic α × Machine)}
    (hshows : m.ShowsAt source i)
    (h : Mirrors source i m outcome (step (source.remaining.drop i))) :
    outcome.map (fun result => (result.1, result.2.parser)) = m.parser.run step := by
  rw [Parser.run, hshows.parser_tokens]
  revert h
  generalize step (source.remaining.drop i) = reply
  intro h
  cases h with
  | ok hmoves => rw [Option.map_some, hmoves.parser]; rfl
  | fail hmoves => rw [Option.map_some, hmoves.parser]; rfl
  | diverges => rfl

/-- **A machine reads what its parser reads.** -/
theorem ShowsAt.parser_perform (h : m.ShowsAt source i) (htables : m.lookups.InStep)
    (request : Request α) :
    (m.perform request).map (fun result => (result.1, result.2.parser)) =
      m.parser.perform request := by
  rw [Parser.perform_eq_run]
  exact (h.perform htables request).run h

/-- Where something comes to an end, the window has been moved on. -/
theorem Mirrors.exists_moves {result : Except Diagnostic α} {reply : Reply α}
    (h : Mirrors source i m (some (result, m')) reply) : ∃ j log, Moves source i m j m' log := by
  cases h with
  | ok hmoves => exact ⟨_, _, hmoves⟩
  | fail hmoves => exact ⟨_, _, hmoves⟩

/-! ### Single moves -/

theorem ShowsAt.parser_peek (h : m.ShowsAt source i) : m.parser.peek = m.peek := by
  rw [Parser.peek, h.parser_tokens, Lexer.peek_drop, h.peek]

theorem ShowsAt.parser_advance (h : m.ShowsAt source i) :
    m.advance.2.parser = m.parser.advance.2 := by
  rw [h.moves_advance.parser, Parser.advance, h.parser_tokens, List.tail_drop, List.append_nil]
  rfl

/-- A token that is not the expected one is not moved on to. -/
theorem expect_of_error {kind : Kind} {diagnostic : Diagnostic}
    (h : (m.expect kind).1 = .error diagnostic) : (m.expect kind).2 = m := by
  unfold Machine.expect at h ⊢
  split
  · next hkind =>
    rw [if_pos hkind] at h
    cases h
  · rfl

theorem ShowsAt.moves_expect (h : m.ShowsAt source i) (kind : Kind) :
    ∃ j, Moves source i m j (m.expect kind).2 [] := by
  unfold Machine.expect
  split
  · exact ⟨i + 1, h.moves_advance⟩
  · exact ⟨i, .refl h⟩

theorem ShowsAt.parser_expect (h : m.ShowsAt source i) (kind : Kind) :
    (m.expect kind).2.parser = (m.parser.expect kind).2 := by
  rw [Machine.expect, Parser.expect, Parser.peekIs, h.parser_peek]
  split
  · exact h.parser_advance
  · rfl

/-- Whether there is room for a level or not, nothing but the depth changes. -/
theorem exists_enterNesting_eq (m : Machine) :
    ∃ depth, m.enterNesting.2 = { m with depth := depth } := by
  unfold enterNesting
  split
  · exact ⟨m.depth, rfl⟩
  · exact ⟨m.depth + 1, rfl⟩

theorem parser_enterNesting (m : Machine) :
    m.enterNesting.2.parser = m.parser.enterNesting.2 := by
  unfold enterNesting Parser.enterNesting
  have hdepth : m.parser.depth = m.depth := rfl
  rw [hdepth]
  split
  · rfl
  · rfl

theorem parser_register (m : Machine) (change : Registration) :
    (m.register change).parser = m.parser.register change := by
  have hgrammar : (m.register change).parser =
      { m.parser with grammar := (m.lookups.register change).grammar } := rfl
  rw [hgrammar]
  cases change with
  | prefixRule kind rule => rfl
  | continuation kind power rule =>
    rw [Lookups.register, Lookups.grammar_withContinuation]
    rfl
  | statementRule kind rule => rfl
  | standard =>
    rw [Lookups.register, Lookups.grammar_withStandard]
    rfl

/-! ### Commands -/

/-- A command moves the window on, or leaves it; it brings no tables out of step, and takes no
diagnostic away. -/
theorem ShowsAt.execute (h : m.ShowsAt source i) (htables : m.lookups.InStep) {command : Command}
    (hexecute : m.execute command = some m') :
    m'.lookups.InStep ∧ m.diagnostics <+: m'.diagnostics ∧ ∃ j, i ≤ j ∧ m'.ShowsAt source j := by
  have hmoved {j : Nat} {log : List Diagnostic} (hmoves : Moves source i m j m' log) :
      m'.lookups.InStep ∧ m.diagnostics <+: m'.diagnostics ∧
        ∃ j, i ≤ j ∧ m'.ShowsAt source j :=
    ⟨hmoves.lookups ▸ htables, ⟨log, hmoves.diagnostics.symm⟩, j, hmoves.le, hmoves.showsAt⟩
  cases command with
  | look =>
    cases hexecute
    exact hmoved (.refl h)
  | advance =>
    cases hexecute
    exact hmoved h.moves_advance
  | expect kind =>
    cases hexecute
    obtain ⟨j, hmoves⟩ := h.moves_expect kind
    exact hmoved hmoves
  | record diagnostic =>
    cases hexecute
    exact hmoved (h.moves_record diagnostic)
  | enterNesting =>
    cases hexecute
    obtain ⟨depth, heq⟩ := m.exists_enterNesting_eq
    rw [heq]
    exact ⟨htables, List.prefix_refl _, i, Nat.le_refl i, h.current, h.peek, h.lexer⟩
  | leaveNesting =>
    cases hexecute
    exact ⟨htables, List.prefix_refl _, i, Nat.le_refl i, h.current, h.peek, h.lexer⟩
  | register change =>
    cases hexecute
    exact ⟨htables.register change, List.prefix_refl _, i, Nat.le_refl i, h.current, h.peek,
      h.lexer⟩
  | read request =>
    obtain ⟨⟨result, m''⟩, hperform, rfl⟩ := Option.map_eq_some_iff.1 hexecute
    have hmirrors := h.perform htables request
    rw [hperform] at hmirrors
    obtain ⟨j, log, hmoves⟩ := hmirrors.exists_moves
    exact hmoved hmoves

/-- **A machine does what its parser does.** -/
theorem ShowsAt.parser_execute (h : m.ShowsAt source i) (htables : m.lookups.InStep)
    (command : Command) : (m.execute command).map parser = m.parser.execute command := by
  cases command with
  | look => rfl
  | advance => exact congrArg some h.parser_advance
  | expect kind => exact congrArg some (h.parser_expect kind)
  | record diagnostic => rfl
  | enterNesting => exact congrArg some m.parser_enterNesting
  | leaveNesting => rfl
  | register change => exact congrArg some (m.parser_register change)
  | read request =>
    rw [Machine.execute, Parser.execute, Parser.act_action, ← h.parser_perform htables]
    rw [Option.map_map, Option.map_map]
    rfl

/-- Commands one after the other move the window on as well, -/
theorem ShowsAt.executeAll (h : m.ShowsAt source i) (htables : m.lookups.InStep)
    {commands : List Command} (hexecute : m.executeAll commands = some m') :
    m'.lookups.InStep ∧ m.diagnostics <+: m'.diagnostics ∧ ∃ j, i ≤ j ∧ m'.ShowsAt source j := by
  induction commands generalizing i m with
  | nil =>
    cases hexecute
    exact ⟨htables, List.prefix_refl _, i, Nat.le_refl i, h⟩
  | cons command commands ih =>
    obtain ⟨r, hr, hmore⟩ := Option.bind_eq_some_iff.1 hexecute
    obtain ⟨hstep, hlog, j, hle, hat⟩ := h.execute htables hr
    obtain ⟨hstep', hlog', k, hle', hat'⟩ := ih hat hstep hmore
    exact ⟨hstep', hlog.trans hlog', k, hle.trans hle', hat'⟩

/-- and the machine does with them what its parser does. -/
theorem ShowsAt.parser_executeAll (h : m.ShowsAt source i) (htables : m.lookups.InStep)
    (commands : List Command) :
    (m.executeAll commands).map parser = m.parser.executeAll commands := by
  induction commands generalizing i m with
  | nil => rfl
  | cons command commands ih =>
    have hcommand := h.parser_execute htables command
    show ((m.execute command).bind _).map parser = (m.parser.execute command).bind _
    rw [← hcommand]
    cases hr : m.execute command with
    | none => rfl
    | some r =>
      obtain ⟨hstep, -, j, -, hat⟩ := h.execute htables hr
      exact ih hat hstep

/-! ### Machines from the start -/

theorem inStep_ofLexer (source : Lexer) : (ofLexer source).lookups.InStep :=
  Lookups.inStep_empty.withStandard

theorem parser_ofLexer (source : Lexer) : (ofLexer source).parser = Parser.ofLexer source := by
  rw [parser, (showsAt_ofLexer source).unread]
  show Parser.mk _ [] 0 Lookups.empty.withStandard.grammar = _
  rw [Lookups.grammar_standard]
  rfl

/-- The machine is a window on a stream of tokens: it shows two neighbours, and the next that it
reads are those behind them. -/
structure IsWindow (stream : Nat → Token) (i : Nat) (m : Machine) : Prop where
  /-- The current token stands at the index, -/
  current : m.current = stream i
  /-- and the one ahead right behind it. -/
  peek : m.peek = stream (i + 1)
  /-- The tokens are still to be read that stand behind both. -/
  unread : ∀ j, m.lexer.tokenAt j = stream (i + 2 + j)

/-- How many tokens of its source the window has been moved over. -/
def index (source : Lexer) (m : Machine) : Nat := source.remaining.length - m.unread.length

theorem ShowsAt.index_eq (h : m.ShowsAt source i) :
    m.index source = min i source.remaining.length := by
  rw [index, h.unread, List.length_drop]
  omega

theorem ShowsAt.drop_index (h : m.ShowsAt source i) :
    m.parser.tokens = source.remaining.drop (m.index source) := by
  rw [h.parser_tokens, h.index_eq]
  by_cases hi : i ≤ source.remaining.length
  · rw [Nat.min_eq_left hi]
  · rw [List.drop_eq_nil_of_le (by omega), List.drop_eq_nil_of_le (by omega)]

/-- Where the source has come to its end, it makes no difference how often the machine has been
moved on. -/
theorem ShowsAt.isWindow (h : m.ShowsAt source i) :
    m.IsWindow source.tokenAt (m.index source) := by
  have htoken (a : Nat) : source.tokenAt (m.index source + a) = source.tokenAt (i + a) := by
    rw [h.index_eq, Lexer.tokenAt_eq, Lexer.tokenAt_eq]
    by_cases hi : i ≤ source.remaining.length
    · rw [Nat.min_eq_left hi]
    · -- both stand past the last token
      rw [List.getElem?_eq_none (by omega), List.getElem?_eq_none (by omega)]
  refine ⟨?_, ?_, ?_⟩
  · rw [h.current]
    exact (htoken 0).symm
  · rw [h.peek]
    exact (htoken 1).symm
  · intro j
    rw [Nat.add_assoc, htoken, h.lexer, Lexer.tokenAt_eq, Lexer.tokenAt_eq, Lexer.remaining_skip,
      List.getElem?_drop, Nat.add_assoc]

/-- The stream of a source whose first tokens have been taken. -/
theorem tokenAt_skip_ofString (source : String) (k i : Nat) :
    ((Lexer.ofString source).skip k).tokenAt i =
      (((tokenize source).drop k)[i]?).getD Token.eof := by
  rw [Lexer.tokenAt_eq, Lexer.remaining_skip, List.getElem?_drop, List.getElem?_drop,
    Lexer.getD_tokenize]

/-- **A machine is always a window on the tokens of its source.**  Let the stream be what a source
is read as from one of its tokens on, and then its end for ever.  However a machine that starts
there has been told to move, to look, to record, to count, to change its tables and to read, it
shows two neighbours of the stream and has still to read what stands behind them.  Whatever it is
told next, it does what the parser does that has the tokens at hand; its window does not move
back, and what it has recorded stays.  A token that is not the expected one moves nothing. -/
theorem window (source : String) (k : Nat) {commands : List Command} {m : Machine} :
    let start := (Lexer.ofString source).skip k
    let stream (i : Nat) := (((tokenize source).drop k)[i]?).getD Token.eof
    (ofLexer start).executeAll commands = some m →
      m.IsWindow stream (m.index start) ∧
      m.parser.tokens = start.remaining.drop (m.index start) ∧
      (Parser.ofLexer start).executeAll commands = some m.parser ∧
      (∀ {kind : Kind} {diagnostic : Diagnostic},
        (m.expect kind).1 = .error diagnostic → (m.expect kind).2 = m) ∧
      (∀ {α : Type} (request : Request α),
        (m.perform request).map (fun result => (result.1, result.2.parser)) =
          m.parser.perform request) ∧
      ∀ (command : Command) (m' : Machine), m.execute command = some m' →
        m.index start ≤ m'.index start ∧ m.diagnostics <+: m'.diagnostics := by
  intro start stream hexecute
  have hstart := showsAt_ofLexer start
  have hinStep := inStep_ofLexer start
  obtain ⟨htables, -, i, -, hat⟩ := hstart.executeAll hinStep hexecute
  have hstream : start.tokenAt = stream := funext fun i => tokenAt_skip_ofString source k i
  refine ⟨hstream ▸ hat.isWindow, hat.drop_index, ?_, expect_of_error,
    hat.parser_perform htables, ?_⟩
  · have hparser := hstart.parser_executeAll hinStep commands
    rw [hexecute, parser_ofLexer] at hparser
    exact hparser.symm
  · intro command m' hcommand
    obtain ⟨-, hlog, j, hle, hat'⟩ := hat.execute htables hcommand
    refine ⟨?_, hlog⟩
    rw [hat.index_eq, hat'.index_eq]
    omega

/-- A token that is not expected, one that starts no expression and a level that is left without
having been entered do not move the window, and past the end it stays there. -/
theorem window_pastTheEnd :
    let start := (Lexer.ofString "let x = a + 1 ) y").skip 1
    let stream (i : Nat) := (((tokenize "let x = a + 1 ) y").drop 1)[i]?).getD Token.eof
    let commands : List Command := [.expect .plus, .expect .assign, .read .statement,
      .leaveNesting, .advance, .read (.expression .lowest), .advance, .read .program, .advance]
    ∃ m, (ofLexer start).executeAll commands = some m ∧ m.index start = 7 ∧
      m.diagnostics = [⟨.noPrefixRule .rparen, ⟨.rparen, ")"⟩⟩] ∧
      m.IsWindow stream (m.index start) ∧
      m.index start ≤ m.advance.2.index start := by
  intro start stream commands
  have hrun : ((ofLexer start).executeAll commands).map
      (fun m => (m.index start, m.diagnostics)) =
        some (7, [⟨.noPrefixRule .rparen, ⟨.rparen, ")"⟩⟩]) := by decide +kernel
  obtain ⟨m, hm, heq⟩ := Option.map_eq_some_iff.1 hrun
  rw [Prod.mk.injEq] at heq
  have hwindow := window "let x = a + 1 ) y" 1 hm
  exact ⟨m, hm, heq.1, heq.2, hwindow.1, (hwindow.2.2.2.2.2 .advance _ rfl).1⟩

end Machine

end Script
