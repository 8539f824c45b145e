import Script.Grammar.Progress
import Script.Proofs.Phrase.Running

/-!
# What is read is a phrase

Where the steps of a grammar read something and record nothing, what they read is a
phrase, and they leave its last token before what the phrase leaves.  The proof goes
by the room: in each room the rules read phrases if the expressions in a smaller room
are read as phrases, and the loops do so round by round.

## Main definitions

* `Grammar.StopsAtEof` — no expression starts or goes on at the end of the source.
* `Phrase.ReadTo` — a phrase is read from the given tokens up to its last one.
* `ExprReader.ReadsPhrases`, `Step.ReadsStatements` — what the rules assume of the
  steps they are given.

## Main results

* `Grammar.expression_readTo`, `Grammar.statement_readTo` — expressions and statements
  that are read without a diagnostic are phrases.
-/

namespace Script

/-! ### Steps that record nothing -/

namespace Step

variable {α β : Type} {ts out : Tokens}

/-- If one step after another records nothing, neither of them does. -/
theorem bind_eq_ok {first : Step α} {second : α → Step β} {w : β}
    (h : (first >>= second) ts = .ok w out []) :
    ∃ v mid, first ts = .ok v mid [] ∧ second v mid = .ok w out [] := by
  obtain ⟨v, mid, log₁, log₂, hfirst, hsecond, hlog⟩ := exists_of_bind_eq_ok h
  obtain ⟨rfl, rfl⟩ := List.append_eq_nil_iff.1 hlog.symm
  exact ⟨v, mid, hfirst, hsecond⟩

theorem pure_eq_ok {v w : α} (h : (pure v : Step α) ts = .ok w out []) : v = w ∧ ts = out := by
  rw [pure_apply] at h
  injection h with hvalue hout
  exact ⟨hvalue, hout⟩

/-- A token that is expected and found stands behind the current one. -/
theorem expect_eq_ok {kind : Kind} {u : Token} (h : expect kind ts = .ok u out [])
    (hkind : kind ≠ .eof) : u.kind = kind ∧ ∃ t rest, ts = t :: u :: rest ∧ out = u :: rest := by
  rw [expect_apply] at h
  split at h
  · next hpeek =>
    injection h with hvalue hout
    subst hvalue hout
    rcases ts with _ | ⟨t, _ | ⟨u, rest⟩⟩
    · exact absurd hpeek.symm hkind
    · exact absurd hpeek.symm hkind
    · exact ⟨hpeek, t, rest, rfl, rfl⟩
  · cases h

/-- The same where the current token is known. -/
theorem expect_cons_eq_ok {kind : Kind} {last u : Token}
    (h : expect kind (last :: ts) = .ok u out []) (hkind : kind ≠ .eof) :
    u.kind = kind ∧ ∃ rest, ts = u :: rest ∧ out = u :: rest := by
  obtain ⟨hu, t, rest, hts, hout⟩ := expect_eq_ok h hkind
  exact ⟨hu, rest, (List.cons.inj hts).2, hout⟩

/-- A token that closes what has been read is the next one. -/
theorem expect_pure_eq_ok {kind : Kind} {last : Token} {v w : α}
    (h : (expect kind >>= fun _ => (pure v : Step α)) (last :: ts) = .ok w out [])
    (hkind : kind ≠ .eof) : v = w ∧ ∃ c rest, ts = c :: rest ∧ c.kind = kind ∧ out = c :: rest := by
  obtain ⟨c, mid, hexpect, hpure⟩ := bind_eq_ok h
  obtain ⟨rfl, rfl⟩ := pure_eq_ok hpure
  obtain ⟨hc, rest, hts, hout⟩ := expect_cons_eq_ok hexpect hkind
  exact ⟨rfl, c, rest, hts, hc, hout⟩

/-- Behind a statement that has been read, a `;` is skipped if there is one. -/
theorem skipSemicolon_pure_eq_ok {last : Token} {us : Tokens} {v w : α}
    (h : (skipSemicolon >>= fun _ => (pure v : Step α)) (last :: us) = .ok w out []) :
    v = w ∧ ∃ last', out = last' :: us.dropSemicolon := by
  obtain ⟨_, mid, hskip, hpure⟩ := bind_eq_ok h
  obtain ⟨rfl, rfl⟩ := pure_eq_ok hpure
  obtain ⟨last', hlast'⟩ := exists_skipSemicolon last us
  rw [hlast'] at hskip
  injection hskip with _ hout
  exact ⟨rfl, last', hout.symm⟩

/-- A diagnostic that a step ends with is recorded, or ends the next step as well. -/
theorem attempt_eq_ok {step : Step α} {result : Except Diagnostic α}
    (h : attempt step ts = .ok result out []) :
    (∃ v, result = .ok v ∧ step ts = .ok v out []) ∨ ∃ diagnostic, result = .error diagnostic := by
  rw [attempt_apply] at h
  cases hstep : step ts with
  | ok v rest log =>
    rw [hstep] at h
    injection h with hresult hout hlog
    subst hresult hout hlog
    exact .inl ⟨v, rfl, rfl⟩
  | fail diagnostic rest log =>
    rw [hstep] at h
    injection h with hresult
    exact .inr ⟨diagnostic, hresult.symm⟩
  | diverges =>
    rw [hstep] at h
    cases h

end Step

/-! ### Phrases that have been read -/

/-- Reading comes to an end, and no expression starts or goes on at the end of the
source. -/
structure Grammar.StopsAtEof (g : Grammar) : Prop extends g.WellFounded where
  /-- No expression starts there. -/
  prefixRule_eof : g.prefixRule .eof = none

theorem Grammar.stopsAtEof_standard : standard.StopsAtEof where
  toWellFounded := wellFounded_standard
  prefixRule_eof := rfl

/-- The phrase is read from `ts`, and `out` is its last token and what it leaves. -/
def Phrase.ReadTo (g : Grammar) (φ : Phrase) (ts out : Tokens) : Prop :=
  ∃ n last rest, out = last :: rest ∧ Reads g φ n ts rest

/-- The expressions that are read without a diagnostic are phrases. -/
def ExprReader.ReadsPhrases (g : Grammar) (expr : ExprReader) : Prop :=
  ∀ ⦃power ts e out⦄, expr power ts = .ok e out [] → (Phrase.expr power e).ReadTo g ts out

/-- The statements that are read without a diagnostic are phrases. -/
def Step.ReadsStatements (g : Grammar) (stmt : Step Stmt) : Prop :=
  ∀ ⦃ts s out⦄, stmt ts = .ok s out [] → (Phrase.statement s).ReadTo g ts out

theorem Reads.depth_of_names {g : Grammar} {xs : List Identifier} {n : Nat} {ts rest : Tokens}
    (h : Reads g (.names xs) n ts rest) : n = 0 := by
  cases h <;> rfl

theorem Reads.depth_of_parameters {g : Grammar} {xs : List Identifier} {n : Nat} {ts rest : Tokens}
    (h : Reads g (.parameters xs) n ts rest) : n = 0 := by
  cases h <;> rfl

/-- A token of a kind of its own is a token of the source. -/
theorem Tokens.exists_cons_of_kind (ts : Tokens) {kind : Kind} (h : ts.current.kind = kind)
    (hkind : kind ≠ .eof) : ∃ t us, ts = t :: us ∧ t.kind = kind := by
  cases ts with
  | nil => exact absurd h.symm hkind
  | cons t us => exact ⟨t, us, rfl, h⟩

/-- An expression goes on at a token of the source only. -/
theorem Grammar.StopsAtEof.exists_cons_of_continuesAt {g : Grammar} (hg : g.StopsAtEof)
    {power : BindingPower} (ts : Tokens) {next : Continuation}
    (h : g.continuesAt? power ts.current = some next) : ∃ t us, ts = t :: us := by
  have hne := Tokens.ne_nil_of_current_kind (hg.continuesAt?_eof h)
  exact List.exists_cons_of_ne_nil hne

/-- An expression starts at a token of the source only. -/
theorem Grammar.StopsAtEof.exists_cons_of_prefixRule {g : Grammar} (hg : g.StopsAtEof)
    {ts : Tokens} {rule : PrefixRule} (h : g.prefixRule ts.current.kind = some rule) :
    ∃ t us, ts = t :: us := by
  have heof : ts.current.kind ≠ .eof := by
    intro heof
    rw [heof, hg.prefixRule_eof] at h
    cases h
  exact List.exists_cons_of_ne_nil (Tokens.ne_nil_of_current_kind heof)

namespace Phrase

variable {g : Grammar} {expr : ExprReader} {stmt : Step Stmt} {ts out : Tokens} {e : Expr}
  {last : Token}

/-! ### Lists of names and of expressions -/

theorem readTo_names {rounds : Nat} {xs : List Identifier}
    (h : (Rule.parameterNames rounds : Step _) (last :: ts) = .ok xs out []) :
    (names xs).ReadTo g ts out := by
  induction rounds generalizing last ts xs with
  | zero => cases h
  | succ rounds ih =>
    rw [Rule.parameterNames] at h
    obtain ⟨u, mid, hexpect, hmore⟩ := Step.bind_eq_ok h
    obtain ⟨hname, rest, rfl, rfl⟩ := Step.expect_cons_eq_ok hexpect (by decide)
    rw [Step.peek_bind] at hmore
    -- a comma goes on with the list
    by_cases hcomma : (Tokens.peek (u :: rest)).kind = .comma
    · rw [if_pos hcomma, Step.advance_bind] at hmore
      obtain ⟨ys, mid, hnames, hpure⟩ := Step.bind_eq_ok hmore
      obtain ⟨rfl, rfl⟩ := Step.pure_eq_ok hpure
      obtain ⟨c, vs, rfl, hcomma⟩ := Tokens.exists_cons_of_kind rest hcomma (by decide)
      obtain ⟨n, last', rest', rfl, hread⟩ := ih hnames
      obtain rfl := hread.depth_of_names
      exact ⟨0, last', rest', rfl, .moreNames hname hcomma hread⟩
    · rw [if_neg hcomma] at hmore
      obtain ⟨rfl, rfl⟩ := Step.pure_eq_ok hmore
      exact ⟨0, u, rest, rfl, .lastName hname hcomma⟩

theorem readTo_parameters {xs : List Identifier}
    (h : (Rule.parameters : Step _) (last :: ts) = .ok xs out []) :
    (parameters xs).ReadTo g ts out := by
  rw [Rule.parameters, Step.peek_bind] at h
  by_cases hclose : (Tokens.peek (last :: ts)).kind = .rparen
  · rw [if_pos hclose, Step.advance_bind] at h
    obtain ⟨rfl, rfl⟩ := Step.pure_eq_ok h
    obtain ⟨c, rest, rfl, hclose⟩ := Tokens.exists_cons_of_kind ts hclose (by decide)
    exact ⟨0, c, rest, rfl, .noParameters hclose⟩
  · rw [if_neg hclose] at h
    obtain ⟨ys, mid, hnames, hmore⟩ := Step.bind_eq_ok h
    obtain ⟨n, last', rest, rfl, hread⟩ := readTo_names (g := g) hnames
    obtain ⟨rfl, c, rest', rfl, hclose, rfl⟩ := Step.expect_pure_eq_ok hmore (by decide)
    obtain rfl := hread.depth_of_names
    exact ⟨0, c, rest', rfl, .someParameters hread hclose⟩

theorem readTo_values (hexpr : expr.ReadsPhrases g) {rounds : Nat} {es : List Expr}
    (h : Rule.argumentValues expr rounds (last :: ts) = .ok es out []) :
    (values es).ReadTo g ts out := by
  induction rounds generalizing last ts es with
  | zero => cases h
  | succ rounds ih =>
    rw [Rule.argumentValues, Step.advance_bind, List.tail_cons] at h
    obtain ⟨e, mid, hvalue, hmore⟩ := Step.bind_eq_ok h
    obtain ⟨n, last', us, rfl, hread⟩ := hexpr hvalue
    rw [Step.peek_bind] at hmore
    by_cases hcomma : (Tokens.peek (last' :: us)).kind = .comma
    · rw [if_pos hcomma, Step.advance_bind, List.tail_cons] at hmore
      obtain ⟨es, mid, hvalues, hpure⟩ := Step.bind_eq_ok hmore
      obtain ⟨rfl, rfl⟩ := Step.pure_eq_ok hpure
      obtain ⟨c, vs, rfl, hcomma⟩ := Tokens.exists_cons_of_kind us hcomma (by decide)
      obtain ⟨m, last'', rest, rfl, hreads⟩ := ih hvalues
      exact ⟨_, last'', rest, rfl, .moreValues hread hcomma hreads⟩
    · rw [if_neg hcomma] at hmore
      obtain ⟨rfl, rfl⟩ := Step.pure_eq_ok hmore
      exact ⟨n, last', us, rfl, .lastValue hread hcomma⟩

theorem readTo_arguments (hexpr : expr.ReadsPhrases g) {es : List Expr}
    (h : Rule.arguments expr (last :: ts) = .ok es out []) : (arguments es).ReadTo g ts out := by
  rw [Rule.arguments, Step.peek_bind] at h
  by_cases hclose : (Tokens.peek (last :: ts)).kind = .rparen
  · rw [if_pos hclose, Step.advance_bind] at h
    obtain ⟨rfl, rfl⟩ := Step.pure_eq_ok h
    obtain ⟨c, rest, rfl, hclose⟩ := Tokens.exists_cons_of_kind ts hclose (by decide)
    exact ⟨0, c, rest, rfl, .noArguments hclose⟩
  · rw [if_neg hclose] at h
    obtain ⟨es, mid, hvalues, hmore⟩ := Step.bind_eq_ok h
    obtain ⟨n, last', rest, rfl, hread⟩ := readTo_values hexpr hvalues
    obtain ⟨rfl, c, rest', rfl, hparen, rfl⟩ := Step.expect_pure_eq_ok hmore (by decide)
    exact ⟨n, c, rest', rfl, .someArguments hclose hread hparen⟩

/-! ### Alternatives and blocks -/

theorem readTo_alternative (hexpr : expr.ReadsPhrases g) {a : Option Expr}
    (h : Rule.alternative expr (last :: ts) = .ok a out []) : (alternative a).ReadTo g ts out := by
  rw [Rule.alternative, Step.peek_bind] at h
  by_cases hword : (Tokens.peek (last :: ts)).kind = .kwElse
  · rw [if_pos hword, Step.advance_bind, Step.advance_bind, List.tail_cons] at h
    obtain ⟨e, mid, hvalue, hpure⟩ := Step.bind_eq_ok h
    obtain ⟨rfl, rfl⟩ := Step.pure_eq_ok hpure
    obtain ⟨t, us, rfl, hword⟩ := Tokens.exists_cons_of_kind ts hword (by decide)
    obtain ⟨n, last', rest, rfl, hread⟩ := hexpr hvalue
    exact ⟨n, last', rest, rfl, .someAlternative hword hread⟩
  · rw [if_neg hword] at h
    obtain ⟨rfl, rfl⟩ := Step.pure_eq_ok h
    exact ⟨0, last, ts, rfl, .noAlternative hword⟩

theorem readTo_statements (hstmt : stmt.ReadsStatements g) {rounds : Nat} {ss : List Stmt}
    (h : Rule.blockStatements stmt rounds ts = .ok ss out []) :
    (statements ss).ReadTo g ts out := by
  induction rounds generalizing ts ss with
  | zero => cases h
  | succ rounds ih =>
    rw [Rule.blockStatements, Step.current_bind] at h
    by_cases hbrace : ts.current.kind = .rbrace
    · rw [if_pos hbrace] at h
      obtain ⟨rfl, rfl⟩ := Step.pure_eq_ok h
      obtain ⟨c, rest, rfl, hclose⟩ := Tokens.exists_cons_of_kind ts hbrace (by decide)
      exact ⟨0, c, rest, rfl, .noStatements hclose⟩
    · rw [if_neg hbrace] at h
      by_cases heof : ts.current.kind = .eof
      · rw [if_pos heof] at h
        cases h
      · rw [if_neg heof] at h
        obtain ⟨result, mid, hattempt, hmore⟩ := Step.bind_eq_ok h
        rcases Step.attempt_eq_ok hattempt with ⟨s, rfl, hs⟩ | ⟨diagnostic, rfl⟩
        · obtain ⟨n, last, us, rfl, hread⟩ := hstmt hs
          dsimp only at hmore
          rw [Step.advance_bind, List.tail_cons] at hmore
          obtain ⟨ss, mid, hss, hpure⟩ := Step.bind_eq_ok hmore
          obtain ⟨rfl, rfl⟩ := Step.pure_eq_ok hpure
          obtain ⟨m, last', rest, rfl, hreads⟩ := ih hss
          exact ⟨_, last', rest, rfl, .moreStatements hbrace heof hread hreads⟩
        · -- a statement that cannot be read ends the block or is recorded
          dsimp only at hmore
          by_cases hnesting : diagnostic.fault.isNesting = true
          · rw [if_pos hnesting] at hmore
            cases hmore
          · rw [if_neg hnesting] at hmore
            obtain ⟨_, mid, hrecord, -⟩ := Step.bind_eq_ok hmore
            cases hrecord

/-! ### Operators -/

theorem readTo_operators (hg : g.StopsAtEof) (hexpr : expr.ReadsPhrases g) {power : BindingPower}
    {rounds : Nat} {left : Expr}
    (h : g.operators expr power rounds left (last :: ts) = .ok e out []) :
    (operators power left e).ReadTo g ts out := by
  induction rounds generalizing last ts left with
  | zero => cases h
  | succ rounds ih =>
    rw [Grammar.operators, Step.peek_bind] at h
    cases hgoes : g.continuesAt? power (Tokens.peek (last :: ts)) with
    | none =>
      simp only [hgoes] at h
      obtain ⟨rfl, rfl⟩ := Step.pure_eq_ok h
      exact ⟨0, last, ts, rfl, .stop hgoes⟩
    | some next =>
      obtain ⟨q, rule⟩ := next
      simp only [hgoes, Step.advance_bind, List.tail_cons] at h
      -- the expression goes on, so that the source has not ended
      obtain ⟨t, us, rfl⟩ := hg.exists_cons_of_continuesAt ts hgoes
      obtain ⟨middle, mid, hrule, hmore⟩ := Step.bind_eq_ok h
      cases rule with
      | infixOp =>
        change Rule.infixOp expr left q (t :: us) = _ at hrule
        rw [Rule.infixOp, Step.advance_bind, List.tail_cons] at hrule
        obtain ⟨r, mid, hright, hpure⟩ := Step.bind_eq_ok hrule
        obtain ⟨rfl, rfl⟩ := Step.pure_eq_ok hpure
        obtain ⟨n, last', vs, rfl, hread⟩ := hexpr hright
        obtain ⟨m, last'', rest, rfl, hreads⟩ := ih hmore
        exact ⟨_, last'', rest, rfl, .infixOp hgoes hread hreads⟩
      | call =>
        change Rule.call expr left (t :: us) = _ at hrule
        rw [Rule.call, Step.current_bind] at hrule
        obtain ⟨es, mid, harguments, hpure⟩ := Step.bind_eq_ok hrule
        obtain ⟨rfl, rfl⟩ := Step.pure_eq_ok hpure
        obtain ⟨n, last', vs, rfl, hread⟩ := readTo_arguments hexpr harguments
        obtain ⟨m, last'', rest, rfl, hreads⟩ := ih hmore
        exact ⟨_, last'', rest, rfl, .call hgoes hread hreads⟩

/-! ### The first token of an expression -/

theorem readTo_start (hg : g.StopsAtEof) (hexpr : expr.ReadsPhrases g)
    (hstmt : stmt.ReadsStatements g) {rule : PrefixRule}
    (hrule : g.prefixRule ts.current.kind = some rule) (h : rule.read expr stmt ts = .ok e out []) :
    (start e).ReadTo g ts out := by
  -- the rule has been looked up at a token, as it is none at the end of the source
  obtain ⟨t, us, rfl⟩ := hg.exists_cons_of_prefixRule hrule
  cases rule with
  | identifier =>
    change (Rule.identifier : Step Expr) (t :: us) = _ at h
    rw [Rule.identifier, Step.current_bind] at h
    obtain ⟨rfl, rfl⟩ := Step.pure_eq_ok h
    exact ⟨0, t, us, rfl, .identifier hrule⟩
  | integer =>
    change (Rule.integer : Step Expr) (t :: us) = _ at h
    rw [Rule.integer, Step.current_bind] at h
    cases hvalue : Text.integer? (Tokens.current (t :: us)).literal with
    | none =>
      -- a number that is too large would have been given up
      simp only [hvalue] at h
      cases h
    | some v =>
      simp only [hvalue] at h
      obtain ⟨rfl, rfl⟩ := Step.pure_eq_ok h
      exact ⟨0, t, us, rfl, .integer hrule hvalue⟩
  | boolean =>
    change (Rule.boolean : Step Expr) (t :: us) = _ at h
    rw [Rule.boolean, Step.current_bind] at h
    obtain ⟨rfl, rfl⟩ := Step.pure_eq_ok h
    exact ⟨0, t, us, rfl, .boolean hrule⟩
  | prefixOp =>
    change Rule.prefixOp expr (t :: us) = _ at h
    -- where an expression stops, the rule goes on, or stops as well
    rw [Rule.prefixOp, Step.advance_bind, List.tail_cons] at h
    obtain ⟨r, mid, hright, hpure⟩ := Step.bind_eq_ok h
    obtain ⟨rfl, rfl⟩ := Step.pure_eq_ok hpure
    obtain ⟨n, last, rest, rfl, hread⟩ := hexpr hright
    exact ⟨n, last, rest, rfl, .prefixOp hrule hread⟩
  | grouping =>
    change Rule.grouping expr (t :: us) = _ at h
    rw [Rule.grouping, Step.advance_bind, List.tail_cons] at h
    obtain ⟨r, mid, hinner, hmore⟩ := Step.bind_eq_ok h
    obtain ⟨n, last, rest, rfl, hread⟩ := hexpr hinner
    obtain ⟨rfl, c, rest', rfl, hclose, rfl⟩ := Step.expect_pure_eq_ok hmore (by decide)
    exact ⟨n, c, rest', rfl, .grouping hrule hread hclose⟩
  | block =>
    change Rule.block stmt (t :: us) = _ at h
    rw [Rule.block, Step.advance_bind, List.tail_cons] at h
    obtain ⟨ss, mid, hbody, hpure⟩ := Step.bind_eq_ok h
    obtain ⟨rfl, rfl⟩ := Step.pure_eq_ok hpure
    obtain ⟨n, last, rest, rfl, hread⟩ := readTo_statements hstmt hbody
    exact ⟨n, last, rest, rfl, .block hrule hread⟩
  | conditional =>
    change Rule.conditional expr (t :: us) = _ at h
    rw [Rule.conditional, Step.advance_bind, List.tail_cons] at h
    obtain ⟨c, mid, hcondition, hmore⟩ := Step.bind_eq_ok h
    obtain ⟨n, last, vs, rfl, hc⟩ := hexpr hcondition
    -- the last token of the condition is passed over
    rw [Step.advance_bind, List.tail_cons] at hmore
    obtain ⟨k, mid, hconsequence, hmore⟩ := Step.bind_eq_ok hmore
    obtain ⟨m, last', ws, rfl, hk⟩ := hexpr hconsequence
    obtain ⟨a, mid, halternative, hpure⟩ := Step.bind_eq_ok hmore
    obtain ⟨rfl, rfl⟩ := Step.pure_eq_ok hpure
    obtain ⟨l, last'', rest, rfl, ha⟩ := readTo_alternative hexpr halternative
    exact ⟨_, last'', rest, rfl, .conditional hrule hc hk ha⟩
  | function =>
    change Rule.function expr (t :: us) = _ at h
    rw [Rule.function, Step.current_bind] at h
    obtain ⟨o, mid, hexpect, hmore⟩ := Step.bind_eq_ok h
    obtain ⟨hopen, vs, rfl, rfl⟩ := Step.expect_cons_eq_ok hexpect (by decide)
    obtain ⟨xs, mid, hparameters, hmore⟩ := Step.bind_eq_ok hmore
    obtain ⟨n, last, ws, rfl, hxs⟩ := readTo_parameters hparameters
    -- parameters are not nested, so that the body alone makes up the depth
    obtain rfl := hxs.depth_of_parameters
    rw [Step.advance_bind, List.tail_cons] at hmore
    obtain ⟨b, mid, hbody, hpure⟩ := Step.bind_eq_ok hmore
    obtain ⟨rfl, rfl⟩ := Step.pure_eq_ok hpure
    obtain ⟨m, last', rest, rfl, hb⟩ := hexpr hbody
    exact ⟨m, last', rest, rfl, .function hrule hopen hxs hb⟩

end Phrase

/-! ### Expressions and statements -/

namespace Grammar

variable {g : Grammar} {expr : ExprReader}

theorem statementRule_eq_some {kind : Kind} {rule : StatementRule}
    (h : (g.statementRule kind).getD .expression = rule) (hrule : rule ≠ .expression) :
    g.statementRule kind = some rule := by
  cases htable : g.statementRule kind with
  | none =>
    rw [htable] at h
    exact absurd h.symm hrule
  | some rule' =>
    rw [htable] at h
    exact congrArg some h

theorem readsStatements_statementWith (hexpr : expr.ReadsPhrases g) :
    (g.statementWith expr).ReadsStatements g := by
  intro ts s out h
  rw [statementWith, Step.current_bind] at h
  cases hrule : (g.statementRule ts.current.kind).getD .expression with
  | lookup =>
    -- an entry that leads back to the table reads nothing
    rw [hrule] at h
    cases h
  | letBinding =>
    rw [hrule] at h
    change Rule.letBinding expr ts = _ at h
    rw [Rule.letBinding, Step.current_bind] at h
    obtain ⟨x, mid, hexpect, hmore⟩ := Step.bind_eq_ok h
    obtain ⟨hname, t, us, rfl, rfl⟩ := Step.expect_eq_ok hexpect (by decide)
    obtain ⟨a, mid, hexpect, hmore⟩ := Step.bind_eq_ok hmore
    obtain ⟨hassign, vs, rfl, rfl⟩ := Step.expect_cons_eq_ok hexpect (by decide)
    rw [Step.advance_bind, List.tail_cons] at hmore
    obtain ⟨v, mid, hvalue, hmore⟩ := Step.bind_eq_ok hmore
    obtain ⟨n, last, ws, rfl, hread⟩ := hexpr hvalue
    obtain ⟨rfl, last', rfl⟩ := Step.skipSemicolon_pure_eq_ok hmore
    have hlet : g.statementRule t.kind = some .letBinding :=
      statementRule_eq_some hrule (by decide)
    exact ⟨n, last', _, rfl, .letBinding hlet hname hassign hread⟩
  | returnValue =>
    rw [hrule] at h
    change Rule.returnValue expr ts = _ at h
    rw [Rule.returnValue, Step.advance_bind] at h
    obtain ⟨v, mid, hvalue, hmore⟩ := Step.bind_eq_ok h
    obtain ⟨n, last, ws, rfl, hread⟩ := hexpr hvalue
    obtain ⟨rfl, last', rfl⟩ := Step.skipSemicolon_pure_eq_ok hmore
    -- the value takes a token, so that the rule has been looked up at one
    cases ts with
    | nil => exact absurd hread.length_lt_of_expr (Nat.not_lt_zero _)
    | cons t us =>
      have hreturn : g.statementRule t.kind = some .returnValue :=
        statementRule_eq_some hrule (by decide)
      exact ⟨n, last', _, rfl, .returnValue hreturn hread⟩
  | expression =>
    rw [hrule] at h
    change Rule.expressionStmt expr ts = _ at h
    rw [Rule.expressionStmt, Step.current_bind] at h
    obtain ⟨v, mid, hvalue, hmore⟩ := Step.bind_eq_ok h
    obtain ⟨n, last, ws, rfl, hread⟩ := hexpr hvalue
    obtain ⟨rfl, last', rfl⟩ := Step.skipSemicolon_pure_eq_ok hmore
    cases ts with
    | nil => exact absurd hread.length_lt_of_expr (Nat.not_lt_zero _)
    | cons t us => exact ⟨n, last', _, rfl, .expression hrule hread⟩

/-- What is read as an expression without a diagnostic is one. -/
theorem expression_readTo (hg : g.StopsAtEof) (room : Nat) :
    (g.expression room).ReadsPhrases g := by
  induction room with
  | zero =>
    -- where there is no room, nothing is read
    intro power ts e out h
    cases h
  | succ room ih =>
    intro power ts e out h
    rw [expression_succ, expressionWith, Step.current_bind] at h
    cases hrule : g.prefixRule ts.current.kind with
    | none =>
      simp only [hrule] at h
      cases h
    | some rule =>
      simp only [hrule] at h
      -- the rule and the loop are given the expressions of a smaller room
      obtain ⟨left, mid, hstart, hmore⟩ := Step.bind_eq_ok h
      obtain ⟨n, last, us, rfl, hleft⟩ :=
        Phrase.readTo_start hg ih (readsStatements_statementWith ih) hrule hstart
      obtain ⟨m, last', rest, rfl, hread⟩ := Phrase.readTo_operators hg ih hmore
      exact ⟨_, last', rest, rfl, .expr hleft hread⟩

/-- What is read as a statement without a diagnostic is one. -/
theorem statement_readTo (hg : g.StopsAtEof) (room : Nat) : (g.statement room).ReadsStatements g :=
  readsStatements_statementWith (expression_readTo hg room)

end Grammar

end Script
