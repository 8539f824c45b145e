import Script.Proofs.Machine.Run
import Script.Proofs.Parallel.Reading
import Script.Proofs.Program

/-!
# Rules that are never looked up

A parser looks its tables up at the kinds of the tokens that it comes across, and at the end of
the source.  So two grammars that agree at these kinds read a source in the same way, whatever
else they know: rules for kinds of token that the source does not have make no difference, and
where only entries of the language have been replaced, putting these back undoes everything.

## Main definitions

* `Tokens.Within`, `Step.AgreesOn` — tokens of some kinds, and steps that do the same on them.
* `Registration.IsForeign` — the change is made at a kind that a source does not have.
* `Registration.ReplacesStandard` — an entry of the language is replaced.
* `Grammar.Extends` — entries that the language does not have are at foreign kinds only.

## Main results

* `Grammar.transparent_agreesOn` — agreement on tokens of some kinds is kept by everything that the
  rules are made of.
* `Grammar.agreesOn_programStatements` — grammars that agree at these kinds read the same programs.
* `parse_conservative` — **extending the grammar is conservative.**
-/

namespace Script

open Step

/-! ### Tokens of some kinds -/

section

variable {S : Kind → Prop} {ts us : Tokens}

/-- The tokens are of these kinds. -/
def Tokens.Within (S : Kind → Prop) (ts : Tokens) : Prop := ∀ t ∈ ts, S t.kind

theorem Tokens.Within.of_suffix (h : ts.Within S) (hsuffix : us <:+ ts) : us.Within S :=
  fun t ht => h t (hsuffix.subset ht)

/-- So are the current token and the one ahead, if the end of the source is of these kinds. -/
theorem Tokens.Within.current (h : ts.Within S) (heof : S .eof) : S ts.current.kind := by
  cases ts with
  | nil => exact heof
  | cons t ts => exact h t List.mem_cons_self

theorem Tokens.Within.tail (h : ts.Within S) : Tokens.Within S ts.tail :=
  h.of_suffix (List.tail_suffix ts)

theorem Tokens.Within.peek (h : ts.Within S) (heof : S .eof) : S ts.peek.kind :=
  h.tail.current heof

/-- On tokens of these kinds the second step does what the first does, and leaves tokens of
these kinds. -/
def Step.AgreesOn (S : Kind → Prop) ⦃α : Type⦄ (step step' : Step α) : Prop :=
  ∀ ts : Tokens, ts.Within S →
    step' ts = step ts ∧ ∀ rest, (step ts).rest? = some rest → rest.Within S

end

namespace Step

variable {S : Kind → Prop} {α β : Type}

/-- A step that runs for ever leaves nothing. -/
theorem agreesOn_forever : AgreesOn S (forever : Step α) forever := by
  intro ts _
  refine ⟨rfl, ?_⟩
  intro rest hrest
  cases hrest

/-- A step that is left as it is agrees with itself, if it takes tokens off the front. -/
theorem agreesOn_refl {step : Step α}
    (h : ∀ ts rest, (step ts).rest? = some rest → rest <:+ ts) : AgreesOn S step step :=
  fun ts hts => ⟨rfl, fun rest hrest => hts.of_suffix (h ts rest hrest)⟩

theorem AgreesOn.bind {first first' : Step α} {second second' : α → Step β}
    (hfirst : AgreesOn S first first')
    (hsecond : ∀ value, AgreesOn S (second value) (second' value)) :
    AgreesOn S (first >>= second) (first' >>= second') := by
  intro ts hts
  obtain ⟨heq, hrest⟩ := hfirst ts hts
  rw [bind_apply, bind_apply, heq]
  cases hreply : first ts with
  | ok value mid log =>
    have hmid : Tokens.Within S mid := hrest mid (by rw [hreply]; rfl)
    obtain ⟨heq', hrest'⟩ := hsecond value mid hmid
    dsimp only
    rw [heq', Reply.rest?_after]
    exact ⟨rfl, hrest'⟩
  | fail diagnostic mid log =>
    rw [hreply] at hrest
    exact ⟨rfl, hrest⟩
  | diverges => exact agreesOn_forever ts hts

theorem AgreesOn.attempt {step step' : Step α} (h : AgreesOn S step step') :
    AgreesOn S (attempt step) (attempt step') := by
  intro ts hts
  obtain ⟨heq, hrest⟩ := h ts hts
  rw [Step.attempt_apply, Step.attempt_apply, heq]
  cases hreply : step ts with
  | ok value mid log =>
    rw [hreply] at hrest
    exact ⟨rfl, hrest⟩
  | fail diagnostic mid log =>
    rw [hreply] at hrest
    exact ⟨rfl, hrest⟩
  | diverges => exact agreesOn_forever ts hts

/-- A step that takes nothing and does not look at the tokens. -/
theorem agreesOn_pure (value : α) : AgreesOn S (pure value) (pure value) :=
  agreesOn_refl fun _ _ h => Option.some.inj h ▸ List.suffix_refl _

theorem agreesOn_fail (diagnostic : Diagnostic) :
    AgreesOn S (fail diagnostic : Step α) (fail diagnostic) :=
  agreesOn_refl fun _ _ h => Option.some.inj h ▸ List.suffix_refl _

theorem agreesOn_reject (cause : Fault) : AgreesOn S (reject cause : Step α) (reject cause) :=
  agreesOn_refl fun _ _ h => Option.some.inj h ▸ List.suffix_refl _

theorem agreesOn_record (diagnostic : Diagnostic) :
    AgreesOn S (record diagnostic) (record diagnostic) :=
  agreesOn_refl fun _ _ h => Option.some.inj h ▸ List.suffix_refl _

theorem agreesOn_advance : AgreesOn S advance advance :=
  agreesOn_refl fun ts _ h => Option.some.inj h ▸ List.tail_suffix ts

theorem agreesOn_expect (kind : Kind) : AgreesOn S (expect kind) (expect kind) :=
  agreesOn_refl fun ts rest hrest => by
    rw [expect_apply] at hrest
    split at hrest
    · exact Option.some.inj hrest ▸ List.tail_suffix ts
    · exact Option.some.inj hrest ▸ List.suffix_refl ts

theorem agreesOn_skipSemicolon : AgreesOn S skipSemicolon skipSemicolon :=
  agreesOn_refl fun ts rest hrest => by
    have heq := Option.some.inj hrest
    split at heq
    · exact heq ▸ List.tail_suffix ts
    · exact heq ▸ List.suffix_refl ts

theorem agreesOn_synchronize (inBlock : Bool) :
    AgreesOn S (synchronize inBlock) (synchronize inBlock) :=
  agreesOn_refl fun ts _ h => Option.some.inj h ▸ Tokens.recover_suffix inBlock ts

/-- A token that is looked at is of these kinds. -/
theorem agreesOn_current_bind (heof : S .eof) {second second' : Token → Step α}
    (h : ∀ t, S t.kind → AgreesOn S (second t) (second' t)) :
    AgreesOn S (current >>= second) (current >>= second') := by
  intro ts hts
  rw [current_bind, current_bind]
  exact h _ (hts.current heof) ts hts

theorem agreesOn_peek_bind (heof : S .eof) {second second' : Token → Step α}
    (h : ∀ t, S t.kind → AgreesOn S (second t) (second' t)) :
    AgreesOn S (peek >>= second) (peek >>= second') := by
  intro ts hts
  rw [peek_bind, peek_bind]
  exact h _ (hts.peek heof) ts hts

end Step

/-! ### Grammars that agree -/

namespace Grammar

variable {S : Kind → Prop} {g g' : Grammar}

/-- **Agreement on tokens of some kinds is kept by everything that the rules are made of**, if the
grammars agree at these kinds and the end of the source is one of them. -/
theorem transparent_agreesOn (heof : S .eof) (h : ∀ kind, S kind → g.AgreesAt g' kind) :
    Reading.Transparent (fun t => g.AgreesAt g' t.kind) (AgreesOn S) where
  pure := agreesOn_pure
  advance := agreesOn_advance
  expect := agreesOn_expect
  skipSemicolon := agreesOn_skipSemicolon
  synchronize := agreesOn_synchronize
  forever := agreesOn_forever
  bind := AgreesOn.bind
  current_bind hsecond := agreesOn_current_bind heof fun t ht => hsecond t (h _ ht)
  peek_bind hsecond := agreesOn_peek_bind heof fun t ht => hsecond t (h _ ht)
  bounded hloop ts := hloop (ts.length + 1) ts
  reject := agreesOn_reject
  fail := agreesOn_fail
  record := agreesOn_record
  attempt := AgreesOn.attempt

theorem parallel_agreesOn (heof : S .eof) (h : ∀ kind, S kind → g.AgreesAt g' kind) :
    g.Parallel g' (AgreesOn S) := (transparent_agreesOn heof h).parallel

/-- Grammars that agree at some kinds read the same expressions off tokens of these kinds, -/
theorem agreesOn_expression (heof : S .eof) (h : ∀ kind, S kind → g.AgreesAt g' kind) (room : Nat)
    (power : BindingPower) : AgreesOn S (g.expression room power) (g'.expression room power) := by
  have hlimit (power : BindingPower) : AgreesOn S (limit power) (limit power) := agreesOn_reject _
  have hboth := (parallel_agreesOn heof h).expressionWithin hlimit room power
  rwa [expressionWithin_limit, expressionWithin_limit] at hboth

/-- and the same programs. -/
theorem agreesOn_programStatements (heof : S .eof) (h : ∀ kind, S kind → g.AgreesAt g' kind)
    (room rounds : Nat) :
    AgreesOn S (programStatements (g.statement room) rounds)
      (programStatements (g'.statement room) rounds) := by
  have hstmt := (parallel_agreesOn heof h).statementWith (agreesOn_expression heof h room)
  exact (transparent_agreesOn heof h).programStatements hstmt rounds

end Grammar

/-! ### Registrations -/

/-- The kind is that of a token of the source, or that of its end. -/
def Kind.OccursIn (source : String) (kind : Kind) : Prop :=
  kind = .eof ∨ ∃ t ∈ tokenize source, t.kind = kind

instance (source : String) (kind : Kind) : Decidable (kind.OccursIn source) :=
  inferInstanceAs (Decidable (_ ∨ _))

namespace Registration

/-- What is changed is the entry for a kind of token that the source does not have.  Putting the
language's own rules back is nothing new. -/
def IsForeign (source : String) : Registration → Prop
  | .prefixRule kind _ | .continuation kind _ _ | .statementRule kind _ => ¬kind.OccursIn source
  | .standard => True

/-- What is changed is an entry that the language has in the same table. -/
def ReplacesStandard : Registration → Prop
  | .prefixRule kind _ => (Grammar.standard.prefixRule kind).isSome = true
  | .continuation kind _ _ => (Grammar.standard.continuation kind).isSome = true
  | .statementRule kind _ => (Grammar.standard.statementRule kind).isSome = true
  | .standard => True

instance (source : String) : DecidablePred (IsForeign source)
  | .prefixRule kind _ | .continuation kind _ _ | .statementRule kind _ =>
    inferInstanceAs (Decidable ¬kind.OccursIn source)
  | .standard => inferInstanceAs (Decidable True)

instance : DecidablePred ReplacesStandard
  | .prefixRule .. | .continuation .. | .statementRule .. =>
    inferInstanceAs (Decidable (_ = true))
  | .standard => inferInstanceAs (Decidable True)

end Registration

namespace Grammar

variable {S : Kind → Prop} {g : Grammar}

/-- At these kinds the grammar has no entry where the language has none. -/
structure Extends (S : Kind → Prop) (g : Grammar) : Prop where
  /-- No expression starts with such a kind that does not do so in the language, -/
  prefixRule : ∀ kind, S kind → standard.prefixRule kind = none → g.prefixRule kind = none
  /-- none goes on at one, -/
  continuation : ∀ kind, S kind → standard.continuation kind = none → g.continuation kind = none
  /-- and no statement has a rule of its own. -/
  statementRule : ∀ kind, S kind → standard.statementRule kind = none → g.statementRule kind = none

theorem extends_of_agreesAt (h : ∀ kind, S kind → standard.AgreesAt g kind) : g.Extends S where
  prefixRule kind hkind hnone := (h kind hkind).prefixRule.trans hnone
  continuation kind hkind hnone := (h kind hkind).continuation.trans hnone
  statementRule kind hkind hnone := (h kind hkind).statementRule.trans hnone

/-- Putting the language's own rules back makes such a grammar agree with it. -/
theorem Extends.agreesAt (h : g.Extends S) {kind : Kind} (hkind : S kind) :
    standard.AgreesAt g.withStandard kind := by
  refine ⟨?_, ?_, ?_⟩
  · show (standard.prefixRule kind).or (g.prefixRule kind) = _
    cases hown : standard.prefixRule kind with
    | none => exact h.prefixRule kind hkind hown
    | some rule => rfl
  · show (standard.continuation kind).or (g.continuation kind) = _
    cases hown : standard.continuation kind with
    | none => exact h.continuation kind hkind hown
    | some next => rfl
  · show (standard.statementRule kind).or (g.statementRule kind) = _
    cases hown : standard.statementRule kind with
    | none => exact h.statementRule kind hkind hown
    | some rule => rfl

end Grammar

namespace Parser

variable {source : String} {p : Parser} {change : Registration} {changes : List Registration}

/-- A change at a foreign kind keeps the agreement with the language. -/
theorem agreesAt_register
    (hp : ∀ kind, Kind.OccursIn source kind → Grammar.standard.AgreesAt p.grammar kind)
    (hchange : change.IsForeign source) :
    ∀ kind, Kind.OccursIn source kind →
      Grammar.standard.AgreesAt (p.register change).grammar kind := by
  intro kind hkind
  have hown := hp kind hkind
  cases change with
  | prefixRule k rule =>
    have hne : kind ≠ k := fun h => hchange (h ▸ hkind)
    exact ⟨(if_neg hne).trans hown.prefixRule, hown.continuation, hown.statementRule⟩
  | continuation k power rule =>
    have hne : kind ≠ k := fun h => hchange (h ▸ hkind)
    exact ⟨hown.prefixRule, (if_neg hne).trans hown.continuation, hown.statementRule⟩
  | statementRule k rule =>
    have hne : kind ≠ k := fun h => hchange (h ▸ hkind)
    exact ⟨hown.prefixRule, hown.continuation, (if_neg hne).trans hown.statementRule⟩
  | standard => exact (Grammar.extends_of_agreesAt hp).agreesAt hkind

/-- An entry of the language that is replaced is none that the language does not have. -/
theorem extends_register {S : Kind → Prop} (hp : p.grammar.Extends S)
    (hchange : change.ReplacesStandard) : (p.register change).grammar.Extends S := by
  have hne {β : Type} {entry : Kind → Option β} {kind k : Kind} (hnone : entry kind = none)
      (hsome : (entry k).isSome = true) : kind ≠ k := by
    rintro rfl
    rw [hnone] at hsome
    cases hsome
  cases change with
  | prefixRule k rule =>
    refine ⟨?_, hp.continuation, hp.statementRule⟩
    intro kind hkind hnone
    exact (if_neg (hne hnone hchange)).trans (hp.prefixRule kind hkind hnone)
  | continuation k power rule =>
    refine ⟨hp.prefixRule, ?_, hp.statementRule⟩
    intro kind hkind hnone
    exact (if_neg (hne hnone hchange)).trans (hp.continuation kind hkind hnone)
  | statementRule k rule =>
    refine ⟨hp.prefixRule, hp.continuation, ?_⟩
    intro kind hkind hnone
    exact (if_neg (hne hnone hchange)).trans (hp.statementRule kind hkind hnone)
  | standard => exact Grammar.extends_of_agreesAt fun kind hkind => hp.agreesAt hkind

theorem agreesAt_registerAll
    (hp : ∀ kind, Kind.OccursIn source kind → Grammar.standard.AgreesAt p.grammar kind)
    (hchanges : ∀ change ∈ changes, change.IsForeign source) :
    ∀ kind, Kind.OccursIn source kind →
      Grammar.standard.AgreesAt (p.registerAll changes).grammar kind := by
  induction changes generalizing p with
  | nil => exact hp
  | cons change changes ih =>
    rw [List.forall_mem_cons] at hchanges
    exact ih (agreesAt_register hp hchanges.1) hchanges.2

theorem extends_registerAll {S : Kind → Prop} (hp : p.grammar.Extends S)
    (hchanges : ∀ change ∈ changes, change.ReplacesStandard) :
    (p.registerAll changes).grammar.Extends S := by
  induction changes generalizing p with
  | nil => exact hp
  | cons change changes ih =>
    rw [List.forall_mem_cons] at hchanges
    exact ih (extends_register hp hchanges.1) hchanges.2

/-! ### Programs -/

/-- The parser reads the program and records these diagnostics. -/
def ReadsAs (p : Parser) (program : Program) (log : List Diagnostic) : Prop :=
  ∃ q, p.parseProgram = some (program, q) ∧ q.diagnostics = log

/-- A parser whose tables agree with the language at the kinds of a source reads it as it is. -/
theorem readsAs_of_agreesAt {g : Grammar}
    (hg : ∀ kind, Kind.OccursIn source kind → Grammar.standard.AgreesAt g kind) :
    ReadsAs { ofString source with grammar := g } (parse source).1 (parse source).2 := by
  have hwithin : (ofString source).tokens.Within (Kind.OccursIn source) :=
    fun t ht => .inr ⟨t, List.mem_append_left _ ht, rfl⟩
  have hparse : parse source = ((parse source).1, (parse source).2) := rfl
  obtain ⟨rest, hown⟩ := exists_programStatements_of_parse hparse
  have hsame := (Grammar.agreesOn_programStatements (.inl rfl) hg maxNesting
    ((ofString source).tokens.length + 1) _ hwithin).1
  exact ⟨_, parseProgram_of_statements (hsame.trans hown), rfl⟩

/-- So does one whose grammar has been extended, -/
theorem readsAs_registerAll (hchanges : ∀ change ∈ changes, change.IsForeign source) :
    ((ofString source).registerAll changes).ReadsAs (parse source).1 (parse source).2 := by
  have hagrees := agreesAt_registerAll (p := ofString source)
    (fun kind _ => .refl Grammar.standard kind) hchanges
  rw [registerAll_eq]
  exact readsAs_of_agreesAt hagrees

/-- and one in which entries of the language have been replaced and put back. -/
theorem readsAs_registerStandard {more : List Registration}
    (hchanges : ∀ change ∈ changes, change.IsForeign source)
    (hmore : ∀ change ∈ more, change.ReplacesStandard) :
    (((ofString source).registerAll changes).registerAll more).registerStandard.ReadsAs
      (parse source).1 (parse source).2 := by
  have hagrees := agreesAt_registerAll (p := ofString source)
    (fun kind _ => .refl Grammar.standard kind) hchanges
  have hextends := extends_registerAll (Grammar.extends_of_agreesAt hagrees) hmore
  -- nothing but the grammar has changed, by both runs of changes together
  have hfold : ((ofString source).registerAll changes).registerAll more =
      (ofString source).registerAll (changes ++ more) := List.foldl_append.symm
  rw [hfold] at hextends ⊢
  rw [registerAll_eq]
  exact readsAs_of_agreesAt fun kind hkind => hextends.agreesAt hkind

end Parser

/-! ### Machines -/

namespace Machine

variable {source : Lexer} {i : Nat} {m : Machine} {program : Program} {log : List Diagnostic}

/-- The machine with changes made to its tables, one after the other. -/
def registerAll (m : Machine) (changes : List Registration) : Machine := changes.foldl register m

/-- The machine reads the program and records these diagnostics. -/
def ReadsAs (m : Machine) (program : Program) (log : List Diagnostic) : Prop :=
  ∃ m', m.perform .program = some (.ok program, m') ∧ m'.diagnostics = log

/-- Changes of the tables do not move the window. -/
theorem ShowsAt.registerAll (h : m.ShowsAt source i) (htables : m.lookups.InStep)
    (changes : List Registration) :
    (m.registerAll changes).ShowsAt source i ∧ (m.registerAll changes).lookups.InStep ∧
      (m.registerAll changes).parser = m.parser.registerAll changes := by
  induction changes generalizing m with
  | nil => exact ⟨h, htables, rfl⟩
  | cons change changes ih =>
    obtain ⟨hat, hstep, hparser⟩ :=
      ih (m := m.register change) ⟨h.current, h.peek, h.lexer⟩ (htables.register change)
    refine ⟨hat, hstep, ?_⟩
    rw [parser_register] at hparser
    exact hparser

/-- A machine reads a program as its parser does. -/
theorem ShowsAt.readsAs (h : m.ShowsAt source i) (htables : m.lookups.InStep)
    (hparser : m.parser.ReadsAs program log) : m.ReadsAs program log := by
  obtain ⟨q, hq, hlog⟩ := hparser
  have hperform := h.parser_perform htables .program
  rw [Parser.perform, hq] at hperform
  obtain ⟨⟨result, m'⟩, hm', heq⟩ := Option.map_eq_some_iff.1 hperform
  obtain ⟨hresult, hparser⟩ := Prod.mk.inj heq
  refine ⟨m', hresult ▸ hm', ?_⟩
  rw [← hlog]
  exact congrArg Parser.diagnostics hparser

end Machine

/-- **Extending the grammar is conservative.**  Rules for kinds of token that a source does not
have, and that are not its end, make no difference to what it is read as; and if after that only
entries of the language have been replaced, each in its own table, putting the language's rules
back restores the same result.  It is so with the tables of a grammar and with those of a
machine, in which the rule and the power of an operator stand in two of them. -/
theorem parse_conservative {source : String} {changes more : List Registration}
    (hchanges : ∀ change ∈ changes, change.IsForeign source)
    (hmore : ∀ change ∈ more, change.ReplacesStandard) :
    let p := (Parser.ofString source).registerAll changes
    let m := (Machine.ofLexer (Lexer.ofString source)).registerAll changes
    p.ReadsAs (parse source).1 (parse source).2 ∧
      m.ReadsAs (parse source).1 (parse source).2 ∧
      (p.registerAll more).registerStandard.ReadsAs (parse source).1 (parse source).2 ∧
      ((m.registerAll more).register .standard).ReadsAs (parse source).1 (parse source).2 := by
  intro p m
  have hp := Parser.readsAs_registerAll hchanges
  have hq := Parser.readsAs_registerStandard hchanges hmore
  have hstart := Machine.showsAt_ofLexer (Lexer.ofString source)
  obtain ⟨hat, htables, hparser⟩ := hstart.registerAll (Machine.inStep_ofLexer _) changes
  obtain ⟨hat', htables', hparser'⟩ := hat.registerAll htables more
  rw [hparser, Machine.parser_ofLexer] at hparser'
  rw [Machine.parser_ofLexer] at hparser
  refine ⟨hp, hat.readsAs htables (hparser ▸ hp), hq, ?_⟩
  refine Machine.ShowsAt.readsAs (i := 0) ⟨hat'.current, hat'.peek, hat'.lexer⟩
    htables'.withStandard ?_
  rw [Machine.parser_register, hparser']
  exact hq

/-- Closing braces that start blocks and conditions that call something do no harm to a sum; and
neither does it matter what has become of `+` and of `let`, once their rules are put back. -/
theorem parse_conservative_sum :
    let source := "let x = 1 + a;"
    let changes : List Registration := [.prefixRule .rbrace .block,
      .continuation .kwIf .call .call, .statementRule .kwElse .lookup]
    let more : List Registration := [.continuation .plus .lowest .call,
      .statementRule .kwLet .expression, .prefixRule .int .function]
    let m := (Machine.ofLexer (Lexer.ofString source)).registerAll changes
    ((∀ change ∈ changes, change.IsForeign source) ∧ ∀ change ∈ more, change.ReplacesStandard) ∧
      m.ReadsAs (parse source).1 (parse source).2 ∧
      ((m.registerAll more).register .standard).ReadsAs (parse source).1 (parse source).2 := by
  intro source changes more m
  have hchanges : ∀ change ∈ changes, change.IsForeign source := by decide +kernel
  have hmore : ∀ change ∈ more, change.ReplacesStandard := by decide
  obtain ⟨-, hextended, -, hrestored⟩ := parse_conservative hchanges hmore
  exact ⟨⟨hchanges, hmore⟩, hextended, hrestored⟩

end Script
