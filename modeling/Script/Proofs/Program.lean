import Script.Parser
import Script.Proofs.Phrase.Running

/-!
# Programs

A program is read statement by statement.  A statement that cannot be read is
recorded and skipped, and where the skip ends is known for the statements in which
no `;` and no word that starts a statement stands.

## Main definitions

* `Tokens.Plain` — no token ends a statement or starts one with a word.

## Main results

* `Tokens.recover_plain`, `Tokens.recover_suffix_of_statement` — where the skip ends.
* `Grammar.programStatements_of_ok`, `Grammar.programStatements_of_fail` — one round
  of the loop that reads a program.
* `Parser.parseProgram_of_statements`, `parse_of_statements`,
  `exists_programStatements_of_parse` — what the loop comes to is what reading the
  program comes to.
-/

namespace Script

/-! ### Skipping -/

namespace Tokens

/-- None of the tokens is a `;` or a word that starts a statement. -/
def Plain (ts : Tokens) : Prop :=
  ∀ t ∈ ts, t.kind ≠ .semicolon ∧ startsStatement t.kind = false

@[simp] theorem plain_nil : Plain [] := List.forall_mem_nil _

@[simp] theorem plain_cons {t : Token} {ts : Tokens} :
    Plain (t :: ts) ↔ (t.kind ≠ .semicolon ∧ startsStatement t.kind = false) ∧ Plain ts :=
  List.forall_mem_cons

@[simp] theorem plain_append {ts us : Tokens} : Plain (ts ++ us) ↔ Plain ts ∧ Plain us :=
  List.forall_mem_append

theorem Plain.of_kind {t : Token} {kind : Kind} (ht : t.kind = kind)
    (hkind : kind ≠ .semicolon ∧ startsStatement kind = false) : Plain [t] := by
  rw [plain_cons, ht]
  exact ⟨hkind, plain_nil⟩

theorem Plain.of_suffix {ts us : Tokens} (h : Plain ts) (hus : us <:+ ts) : Plain us :=
  fun t ht => h t (hus.subset ht)

/-- A token that is no `;` is skipped when no statement starts behind it. -/
theorem recover_cons {t : Token} {ts : Tokens} (hsemicolon : t.kind ≠ .semicolon)
    (hstart : startsStatement (current ts).kind = false) :
    recover false (t :: ts) = recover false ts := by
  rw [recover, if_neg (by simp), if_neg hsemicolon, hstart]
  rfl

/-- The skip ends behind a `;`. -/
theorem recover_semicolon {t : Token} (ht : t.kind = .semicolon) (ts : Tokens) :
    recover false (t :: ts) = ts := by
  rw [recover, if_neg (by simp), if_pos ht]

/-- Plain tokens are skipped up to the end of the source. -/
theorem recover_plain {t : Token} {ts : Tokens} (ht : t.kind ≠ .semicolon) (hts : Plain ts) :
    recover false (t :: ts) = [] := by
  induction ts generalizing t with
  | nil => exact recover_cons ht rfl
  | cons u us ih =>
    rw [plain_cons] at hts
    have hstart : startsStatement (current (u :: us)).kind = false := hts.1.2
    rw [recover_cons ht hstart, ih hts.1.1 hts.2]

/-- Plain tokens are skipped up to the next `;`, and it with them. -/
theorem recover_plain_semicolon {t s : Token} {ts : Tokens} (ht : t.kind ≠ .semicolon)
    (hts : Plain ts) (hs : s.kind = .semicolon) (rest : Tokens) :
    recover false (t :: (ts ++ s :: rest)) = rest := by
  induction ts generalizing t with
  | nil =>
    have hstart : startsStatement (current (s :: rest)).kind = false := by
      rw [current_cons, hs]
      rfl
    rw [List.nil_append, recover_cons ht hstart, recover_semicolon hs]
  | cons u us ih =>
    rw [plain_cons] at hts
    have hstart : startsStatement (current (u :: (us ++ s :: rest))).kind = false := hts.1.2
    rw [List.cons_append, recover_cons ht hstart, ih hts.1.1 hts.2]

/-- Wherever reading has stopped in a statement of plain tokens, the skip ends
behind the `;` of the statement. -/
theorem recover_suffix_of_statement {t w s : Token} {us ts : Tokens} (hw : w.kind ≠ .semicolon)
    (hts : Plain ts) (hs : s.kind = .semicolon) (h : t :: us <:+ w :: (ts ++ [s]))
    (rest : Tokens) : recover false (t :: (us ++ rest)) = rest := by
  -- the first token is that of the statement, or one of the plain ones, or the `;`
  rcases List.suffix_cons_iff.1 h with heq | hsuffix
  · obtain ⟨rfl, rfl⟩ := List.cons.inj heq
    rw [List.append_assoc]
    exact recover_plain_semicolon hw hts hs rest
  · rcases List.suffix_concat_iff.1 hsuffix with hnil | ⟨vs, heq, hvs⟩
    · cases hnil
    · cases vs with
      | nil =>
        obtain ⟨rfl, rfl⟩ := List.cons.inj heq
        exact recover_semicolon hs rest
      | cons v vs =>
        obtain ⟨rfl, rfl⟩ := List.cons.inj heq
        have hplain := hts.of_suffix hvs
        rw [plain_cons] at hplain
        change recover false (t :: ((vs ++ [s]) ++ rest)) = rest
        rw [List.append_assoc]
        exact recover_plain_semicolon hplain.1.1 hplain.2 hs rest

/-- The rest of a single statement of plain tokens is skipped as a whole. -/
theorem recover_plain_ending {t : Token} {us ts ending : Tokens} (hts : Plain ts)
    (hending : ending.IsEnding) (h : t :: us <:+ ts ++ ending) : recover false (t :: us) = [] := by
  rcases hending with rfl | ⟨s, hs, rfl⟩
  · rw [List.append_nil] at h
    have hplain := hts.of_suffix h
    rw [plain_cons] at hplain
    exact recover_plain hplain.1.1 hplain.2
  · cases ts with
    | nil =>
      rcases List.suffix_cons_iff.1 h with heq | hnil
      · obtain ⟨rfl, rfl⟩ := List.cons.inj heq
        exact recover_semicolon hs []
      · exact absurd (List.suffix_nil.1 hnil) (List.cons_ne_nil t us)
    | cons w ts =>
      rw [plain_cons] at hts
      have hskip := recover_suffix_of_statement hts.1.1 hts.2 hs h []
      rwa [List.append_nil] at hskip

end Tokens

/-! ### The statements of a program -/

namespace Grammar

variable {stmt : Step Stmt} {ts us : Tokens}

@[simp] theorem programStatements_nil (rounds : Nat) :
    programStatements stmt (rounds + 1) [] = .ok [] [] [] := by
  rw [programStatements, Step.current_bind, if_pos (show (Tokens.current []).kind = .eof from rfl)]
  rfl

/-- A statement that has been read is followed by the others. -/
theorem programStatements_of_ok {s : Stmt} {last : Token} (heof : ts.current.kind ≠ .eof)
    (h : stmt ts = .ok s (last :: us) []) (rounds : Nat) :
    programStatements stmt (rounds + 1) ts =
      (programStatements stmt rounds >>= fun ss => pure (s :: ss)) us := by
  rw [programStatements, Step.current_bind, if_neg heof, Step.attempt_bind_of_ok h,
    Reply.after_nil]
  exact Step.advance_bind _ _

/-- A statement that cannot be read is recorded, and the rest of it skipped. -/
theorem programStatements_of_fail {diagnostic : Diagnostic} (heof : ts.current.kind ≠ .eof)
    (h : stmt ts = .fail diagnostic us []) (rounds : Nat) :
    programStatements stmt (rounds + 1) ts =
      (programStatements stmt rounds (us.recover false)).after [diagnostic] := by
  rw [programStatements, Step.current_bind, if_neg heof, Step.attempt_bind_of_fail h,
    Reply.after_nil]
  dsimp only
  rw [Step.bind_of_ok (Step.record_apply diagnostic us),
    Step.bind_of_ok (Step.synchronize_apply false us), Reply.after_nil]

/-- A source that is one statement is read as that, or given up where it is nested too
deeply. -/
theorem programStatements_of_reads {g : Grammar} {s : Stmt} {n room rounds : Nat}
    (h : Reads g (.statement s) n ts []) (heof : ts.current.kind ≠ .eof)
    (hrecover : ∀ t us, t :: us <:+ ts → Tokens.recover false (t :: us) = []) :
    (n ≤ room ∧ programStatements (g.statement room) (rounds + 2) ts = .ok [s] [] []) ∨
      room < n ∧ ∃ t ∈ ts, programStatements (g.statement room) (rounds + 2) ts =
        .ok [] [] [⟨.nestingTooDeep maxNesting, t⟩] := by
  -- the first round reads the statement or skips it, and the second finds the end
  have hreply : (g.statement room ts).Meets n room s ts [] := h.meets room
  generalize hstep : g.statement room ts = reply at hreply
  cases hreply with
  | reads hroom last =>
    refine .inl ⟨hroom, ?_⟩
    rw [programStatements_of_ok heof hstep, Step.bind_of_ok (programStatements_nil rounds)]
    rfl
  | tooDeep hroom t us hleft =>
    rw [List.append_nil] at hleft hstep
    refine .inr ⟨hroom, t, hleft.subset List.mem_cons_self, ?_⟩
    rw [programStatements_of_fail heof hstep, hrecover t us hleft, programStatements_nil]
    rfl

end Grammar

/-! ### Programs -/

theorem Parser.parseProgram_of_statements {p : Parser} {ss : List Stmt} {rest : Tokens}
    {log : List Diagnostic}
    (h : Grammar.programStatements (p.grammar.statement p.room) (p.tokens.length + 1) p.tokens =
      .ok ss rest log) :
    p.parseProgram =
      some (⟨ss⟩, { p with tokens := rest, diagnostics := p.diagnostics ++ log }) := by
  have hbounded : Step.bounded (Grammar.programStatements (p.grammar.statement p.room)) p.tokens =
      .ok ss rest log := h
  rw [parseProgram, run, Grammar.program, Step.bind_of_ok hbounded, Step.pure_apply,
    Reply.after_ok, List.append_nil]

theorem parse_of_statements {source : String} {ss : List Stmt} {rest : Tokens}
    {log : List Diagnostic}
    (h : Grammar.programStatements (Grammar.standard.statement maxNesting)
      ((Lexer.tokens source.toList).length + 1) (Lexer.tokens source.toList) = .ok ss rest log) :
    parse source = (⟨ss⟩, log) :=
  parse_eq (Parser.parseProgram_of_statements (p := Parser.ofString source) h)

/-- What a source is parsed as is what the loop comes to. -/
theorem exists_programStatements_of_parse {source : String} {program : Program}
    {log : List Diagnostic} (h : parse source = (program, log)) :
    ∃ rest, Grammar.programStatements (Grammar.standard.statement maxNesting)
      ((Lexer.tokens source.toList).length + 1) (Lexer.tokens source.toList) =
        .ok program.statements rest log := by
  have hsettles := Step.settles_bounded (Grammar.leaves_programStatements
    (Grammar.settles_statement Grammar.wellFounded_standard maxNesting))
  have hunfailing : (Step.bounded (Grammar.programStatements
      (Grammar.standard.statement maxNesting))).Unfailing :=
    fun ts => Grammar.unfailing_programStatements _ (ts.length + 1) ts
  obtain ⟨ss, rest, log', hok, -⟩ := hsettles.eq_ok hunfailing (Lexer.tokens source.toList)
  rw [parse_of_statements hok] at h
  obtain ⟨rfl, rfl⟩ := Prod.mk.inj h
  exact ⟨rest, hok⟩

end Script
