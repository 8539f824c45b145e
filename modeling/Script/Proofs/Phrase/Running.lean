import Script.Proofs.Phrase

/-!
# Phrases are read to their end

Where a phrase can be read, the steps of the grammar read it: they hand back its
value, record nothing and leave the last token of the phrase before the tokens
that the phrase leaves.  They do so exactly if there is room for the depth of the
phrase.  With less room they end at some token of the phrase with the fault that
the nesting is too deep, and with no other.

## Main definitions

* `Reply.Meets` — a reply is the one that a phrase of a given depth calls for.
* `Phrase.Meets` — the steps that read a phrase give such replies.

## Main results

* `Reads.meets` — what can be read is read, in every room.
-/

namespace Script

/-! ### Moves over known tokens -/

namespace Step

variable {α β : Type}

@[simp] theorem current_bind (second : Token → Step β) (ts : Tokens) :
    (current >>= second) ts = second ts.current ts := by
  rw [bind_of_ok (current_apply ts), Reply.after_nil]

@[simp] theorem peek_bind (second : Token → Step β) (ts : Tokens) :
    (peek >>= second) ts = second ts.peek ts := by
  rw [bind_of_ok (peek_apply ts), Reply.after_nil]

@[simp] theorem advance_bind (second : Token → Step β) (ts : Tokens) :
    (advance >>= second) ts = second ts.current ts.tail := by
  rw [bind_of_ok (advance_apply ts), Reply.after_nil]

theorem expect_apply_cons {kind : Kind} {t u : Token} {ts : Tokens} (h : u.kind = kind) :
    expect kind (t :: u :: ts) = .ok u (u :: ts) [] := by
  simp [expect_apply, h]

theorem expect_bind {kind : Kind} {u : Token} (h : u.kind = kind) (second : Token → Step β)
    (t : Token) (ts : Tokens) : (expect kind >>= second) (t :: u :: ts) = second u (u :: ts) := by
  rw [bind_of_ok (expect_apply_cons h), Reply.after_nil]

/-- A token that closes what has been read is the next one. -/
theorem expect_pure {kind : Kind} {c : Token} (h : c.kind = kind) (v : β) (t : Token)
    (ts : Tokens) : (expect kind >>= fun _ => (pure v : Step β)) (t :: c :: ts) =
      .ok v (c :: ts) [] := by
  rw [expect_bind h, pure_apply]

theorem attempt_bind_of_ok {first : Step α} {ts rest : Tokens} {value : α} {log : List Diagnostic}
    (h : first ts = .ok value rest log) (second : Except Diagnostic α → Step β) :
    (attempt first >>= second) ts = (second (.ok value) rest).after log :=
  bind_of_ok (by rw [attempt_apply, h]) second

theorem attempt_bind_of_fail {first : Step α} {ts rest : Tokens} {diagnostic : Diagnostic}
    {log : List Diagnostic} (h : first ts = .fail diagnostic rest log)
    (second : Except Diagnostic α → Step β) :
    (attempt first >>= second) ts = (second (.error diagnostic) rest).after log :=
  bind_of_ok (by rw [attempt_apply, h]) second

/-- A `;` behind a statement becomes the statement's last token. -/
theorem exists_skipSemicolon (t : Token) (ts : Tokens) :
    ∃ last, skipSemicolon (t :: ts) = .ok () (last :: ts.dropSemicolon) [] := by
  cases ts with
  | nil => exact ⟨t, rfl⟩
  | cons u ts =>
    by_cases h : u.kind = .semicolon
    · exact ⟨u, by simp [skipSemicolon_apply, Tokens.dropSemicolon, h]⟩
    · exact ⟨t, by simp [skipSemicolon_apply, Tokens.dropSemicolon, h]⟩

/-- A `;` behind the value of a statement ends the statement. -/
theorem exists_skipSemicolon_pure (v : β) (t : Token) (ts : Tokens) :
    ∃ last, (skipSemicolon >>= fun _ => (pure v : Step β)) (t :: ts) =
      .ok v (last :: ts.dropSemicolon) [] := by
  obtain ⟨last, hskip⟩ := exists_skipSemicolon t ts
  refine ⟨last, ?_⟩
  rw [bind_of_ok hskip, Reply.after_nil, pure_apply]

end Step

/-! ### Replies -/

namespace Reply

variable {α β : Type}

/-- The reply that a phrase of the given depth and value calls for where the step
has `room`, the phrase is read from `ts` and leaves `rest`. -/
inductive Meets (depth room : Nat) (value : α) (ts rest : Tokens) : Reply α → Prop where
  /-- There is room, and the value is read. -/
  | reads (hroom : depth ≤ room) (last : Token) :
      Meets depth room value ts rest (.ok value (last :: rest) [])
  /-- There is no room, which is found out at a token of the phrase. -/
  | tooDeep (hroom : room < depth) (t : Token) (us : Tokens) (hleft : t :: (us ++ rest) <:+ ts) :
      Meets depth room value ts rest
        (.fail ⟨.nestingTooDeep maxNesting, t⟩ (t :: (us ++ rest)) [])

variable {n m room : Nat} {v : α} {w : β} {ts us rest : Tokens}

/-- A piece of a phrase may be seen as the whole of it. -/
theorem Meets.mono {reply : Reply α} (h : reply.Meets n room v us rest) (hus : us <:+ ts) :
    reply.Meets n room v ts rest := by
  cases h with
  | reads hroom last => exact .reads hroom last
  | tooDeep hroom t vs hleft => exact .tooDeep hroom t vs (hleft.trans hus)

/-- A part for which there is room does not change what is met. -/
theorem Meets.max_left {reply : Reply α} (h : reply.Meets m room v ts rest) (hroom : n ≤ room) :
    reply.Meets (max n m) room v ts rest := by
  cases h with
  | reads hroom' last => exact .reads (Nat.max_le.2 ⟨hroom, hroom'⟩) last
  | tooDeep hroom' t us hleft => exact .tooDeep (by omega) t us hleft

/-- The room and the depth are counted from one expression further out. -/
theorem Meets.succ {reply : Reply α} (h : reply.Meets n room v ts rest) :
    reply.Meets (n + 1) (room + 1) v ts rest := by
  cases h with
  | reads hroom last => exact .reads (Nat.succ_le_succ hroom) last
  | tooDeep hroom t vs hleft => exact .tooDeep (Nat.succ_lt_succ hroom) t vs hleft

/-- Where a phrase is too deep, what another one behind it would have taken is left as
well. -/
theorem Meets.tooDeep_of_suffix {t : Token} {vs : Tokens} (hroom : room < n)
    (hleft : t :: (vs ++ us) <:+ ts) (hrest : rest <:+ us) :
    Meets n room v ts rest (.fail ⟨.nestingTooDeep maxNesting, t⟩ (t :: (vs ++ us)) []) := by
  obtain ⟨xs, rfl⟩ := hrest
  rw [← List.append_assoc] at hleft ⊢
  exact .tooDeep hroom t (vs ++ xs) hleft

/-- One step after another meets what the two phrases together call for. -/
theorem Meets.bind {first : Step α} {second : α → Step β} {input : Tokens}
    (hfirst : (first input).Meets n room v ts us)
    (hsecond : ∀ last, (second v (last :: us)).Meets m room w us rest)
    (hus : us <:+ ts) (hrest : rest <:+ us) :
    ((first >>= second) input).Meets (max n m) room w ts rest := by
  rw [Step.bind_apply]
  generalize first input = reply at hfirst
  cases hfirst with
  | reads hroom last =>
    have hreply := hsecond last
    dsimp only
    rw [after_nil]
    generalize second v (last :: us) = reply at hreply ⊢
    cases hreply with
    | reads hroom' last' => exact .reads (Nat.max_le.2 ⟨hroom, hroom'⟩) last'
    | tooDeep hroom' t vs hleft => exact .tooDeep (by omega) t vs (hleft.trans hus)
  | tooDeep hroom t vs hleft => exact .tooDeep_of_suffix (by omega) hleft hrest

/-- A step that only goes on to the end of a phrase adds nothing to its depth. -/
theorem Meets.bind_ok {first : Step α} {second : α → Step β} {input : Tokens}
    (hfirst : (first input).Meets n room v ts us)
    (hsecond : ∀ last, ∃ last', second v (last :: us) = .ok w (last' :: rest) [])
    (hrest : rest <:+ us) : ((first >>= second) input).Meets n room w ts rest := by
  rw [Step.bind_apply]
  generalize first input = reply at hfirst
  cases hfirst with
  | reads hroom last =>
    obtain ⟨last', hlast'⟩ := hsecond last
    dsimp only
    rw [hlast']
    exact .reads hroom last'
  | tooDeep hroom t vs hleft => exact .tooDeep_of_suffix hroom hleft hrest

/-- What is made of a value does not change what the step meets. -/
theorem Meets.map {first : Step α} {input : Tokens} (f : α → β)
    (h : (first input).Meets n room v ts rest) :
    ((first >>= fun a => pure (f a)) input).Meets n room (f v) ts rest :=
  h.bind_ok (fun last => ⟨last, rfl⟩) (List.suffix_refl rest)

end Reply

/-! ### Phrases -/

/-- The steps by which a grammar reads a phrase from `ts`, where `room` expressions
may stand inside each other, meet what a phrase of the given depth calls for.  A
phrase that continues another one is entered with the last token of that one. -/
def Phrase.Meets (g : Grammar) (room depth : Nat) (ts rest : Tokens) : Phrase → Prop
  | .expr power e => (g.expression room power ts).Meets depth room e ts rest
  | .start e => ∃ rule, g.prefixRule ts.current.kind = some rule ∧
      (rule.read (g.expression room) (g.statement room) ts).Meets depth room e ts rest
  | .operators power left e => ∀ last rounds, ts.length + 1 < rounds →
      (g.operators (g.expression room) power rounds left (last :: ts)).Meets depth room e ts rest
  | .alternative e => ∀ last,
      (Rule.alternative (g.expression room) (last :: ts)).Meets depth room e ts rest
  | .names xs => ∀ last rounds, ts.length + 1 < rounds →
      ((Rule.parameterNames rounds : Step _) (last :: ts)).Meets depth room xs ts rest
  | .parameters xs => ∀ last, ((Rule.parameters : Step _) (last :: ts)).Meets depth room xs ts rest
  | .values es => ∀ last rounds, ts.length + 1 < rounds →
      (Rule.argumentValues (g.expression room) rounds (last :: ts)).Meets depth room es ts rest
  | .arguments es => ∀ last,
      (Rule.arguments (g.expression room) (last :: ts)).Meets depth room es ts rest
  | .statement s => (g.statement room ts).Meets depth room s ts rest
  | .statements ss => ∀ rounds, ts.length < rounds →
      (Rule.blockStatements (g.statement room) rounds ts).Meets depth room ss ts rest

namespace Phrase

open Reply

variable {g : Grammar} {room n m l : Nat} {ts us vs rest : Tokens} {t o c : Token}

/-! ### The first token of an expression -/

theorem meets_identifier (hrule : g.prefixRule t.kind = some .identifier) :
    (start (.identifier (.ofToken t))).Meets g room 0 (t :: ts) ts :=
  ⟨.identifier, hrule, .reads (Nat.zero_le _) t⟩

theorem meets_integer {v : Int64} (hrule : g.prefixRule t.kind = some .integer)
    (hvalue : Text.integer? t.literal = some v) :
    (start (.integer t v)).Meets g room 0 (t :: ts) ts := by
  refine ⟨.integer, hrule, ?_⟩
  show ((Rule.integer : Step Expr) (t :: ts)).Meets _ _ _ _ _
  rw [Rule.integer, Step.current_bind, Tokens.current_cons, hvalue]
  exact .reads (Nat.zero_le _) t

theorem meets_boolean (hrule : g.prefixRule t.kind = some .boolean) :
    (start (.boolean t (t.is .kwTrue))).Meets g room 0 (t :: ts) ts :=
  ⟨.boolean, hrule, .reads (Nat.zero_le _) t⟩

theorem meets_prefixOp {r : Expr} (hrule : g.prefixRule t.kind = some .prefixOp)
    (h : (expr .unary r).Meets g room n ts rest) :
    (start (.prefixOp t t.literal r)).Meets g room n (t :: ts) rest := by
  refine ⟨.prefixOp, hrule, ?_⟩
  show (Rule.prefixOp (g.expression room) (t :: ts)).Meets _ _ _ _ _
  rw [Rule.prefixOp, Step.advance_bind, Tokens.current_cons, List.tail_cons]
  exact (Meets.map _ h).mono (List.suffix_cons t ts)

theorem meets_grouping {e : Expr} (hrule : g.prefixRule t.kind = some .grouping)
    (h : (expr .lowest e).Meets g room n ts (c :: rest)) (hclose : c.kind = .rparen) :
    (start e).Meets g room n (t :: ts) rest := by
  refine ⟨.grouping, hrule, ?_⟩
  show (Rule.grouping (g.expression room) (t :: ts)).Meets _ _ _ _ _
  rw [Rule.grouping, Step.advance_bind, List.tail_cons]
  exact (Meets.bind_ok h (fun last => ⟨c, Step.expect_pure hclose e last rest⟩)
    (List.suffix_cons c rest)).mono (List.suffix_cons t ts)

theorem meets_block {ss : List Stmt} (hrule : g.prefixRule t.kind = some .block)
    (h : (statements ss).Meets g room n ts rest) :
    (start (.block t ss)).Meets g room n (t :: ts) rest := by
  refine ⟨.block, hrule, ?_⟩
  show (Rule.block (g.statement room) (t :: ts)).Meets _ _ _ _ _
  rw [Rule.block, Step.advance_bind, Tokens.current_cons, List.tail_cons]
  have hbody : (Step.bounded (Rule.blockStatements (g.statement room)) ts).Meets
      n room ss ts rest := h (ts.length + 1) (Nat.lt_succ_self _)
  exact (hbody.map _).mono (List.suffix_cons t ts)

theorem meets_conditional {e k : Expr} {a : Option Expr}
    (hrule : g.prefixRule t.kind = some .conditional)
    (he : (expr .lowest e).Meets g room n ts us) (hk : (expr .lowest k).Meets g room m us vs)
    (ha : (alternative a).Meets g room l vs rest) (hus : us <:+ ts) (hvs : vs <:+ us)
    (hrest : rest <:+ vs) :
    (start (.conditional t e k a)).Meets g room (max n (max m l)) (t :: ts) rest := by
  refine ⟨.conditional, hrule, ?_⟩
  show (Rule.conditional (g.expression room) (t :: ts)).Meets _ _ _ _ _
  rw [Rule.conditional, Step.advance_bind, Tokens.current_cons, List.tail_cons]
  refine (Meets.bind he (fun last => ?_) hus (hrest.trans hvs)).mono (List.suffix_cons t ts)
  rw [Step.advance_bind]
  exact Meets.bind hk (fun last' => (ha last').map _) hvs hrest

theorem meets_function {xs : List Identifier} {e : Expr}
    (hrule : g.prefixRule t.kind = some .function) (hopen : o.kind = .lparen)
    (hxs : (parameters xs).Meets g room 0 ts us) (he : (expr .lowest e).Meets g room n us rest)
    (hus : us <:+ ts) (hrest : rest <:+ us) :
    (start (.function t xs e)).Meets g room n (t :: o :: ts) rest := by
  refine ⟨.function, hrule, ?_⟩
  show (Rule.function (g.expression room) (t :: o :: ts)).Meets _ _ _ _ _
  rw [Rule.function, Step.current_bind, Tokens.current_cons, Step.expect_bind hopen]
  -- a parameter list has no depth of its own
  rw [← Nat.zero_max n]
  refine (Meets.bind (hxs o) (fun last => ?_) hus hrest).mono ⟨[t, o], rfl⟩
  rw [Step.advance_bind]
  exact Meets.map _ he

/-! ### The parts of choices, functions and calls -/

theorem meets_noAlternative (hahead : ts.current.kind ≠ .kwElse) :
    (alternative none).Meets g room 0 ts ts := by
  intro last
  rw [Rule.alternative, Step.peek_bind, Tokens.peek_cons, if_neg hahead]
  exact .reads (Nat.zero_le _) last

theorem meets_someAlternative {e : Expr} (hword : t.kind = .kwElse)
    (h : (expr .lowest e).Meets g room n ts rest) :
    (alternative (some e)).Meets g room n (t :: ts) rest := by
  intro last
  rw [Rule.alternative, Step.peek_bind, Tokens.peek_cons, Tokens.current_cons, if_pos hword]
  simp only [Step.advance_bind, List.tail_cons]
  exact (Meets.map _ h).mono (List.suffix_cons t ts)

theorem meets_lastName (hname : t.kind = .ident) (hahead : rest.current.kind ≠ .comma) :
    (names [.ofToken t]).Meets g room 0 (t :: rest) rest := by
  rintro last (_ | rounds) hrounds
  · omega
  · rw [Rule.parameterNames, Step.expect_bind hname, Step.peek_bind, Tokens.peek_cons,
      if_neg hahead]
    exact .reads (Nat.zero_le _) t

theorem meets_moreNames {xs : List Identifier} (hname : t.kind = .ident) (hcomma : c.kind = .comma)
    (h : (names xs).Meets g room 0 ts rest) :
    (names (.ofToken t :: xs)).Meets g room 0 (t :: c :: ts) rest := by
  rintro last (_ | rounds) hrounds
  · omega
  · rw [Rule.parameterNames, Step.expect_bind hname, Step.peek_bind, Tokens.peek_cons,
      Tokens.current_cons, if_pos hcomma, Step.advance_bind, List.tail_cons]
    simp only [List.length_cons] at hrounds
    exact (Meets.map _ (h c rounds (by omega))).mono ⟨[t, c], rfl⟩

theorem meets_noParameters (hclose : c.kind = .rparen) :
    (parameters []).Meets g room 0 (c :: rest) rest := by
  intro last
  rw [Rule.parameters, Step.peek_bind, Tokens.peek_cons, Tokens.current_cons, if_pos hclose,
    Step.advance_bind, List.tail_cons]
  exact .reads (Nat.zero_le _) c

theorem meets_someParameters {xs : List Identifier} (hfirst : ts.current.kind ≠ .rparen)
    (h : (names xs).Meets g room 0 ts (c :: rest)) (hclose : c.kind = .rparen) :
    (parameters xs).Meets g room 0 ts rest := by
  intro last
  rw [Rule.parameters, Step.peek_bind, Tokens.peek_cons, if_neg hfirst]
  have hnames : (Step.bounded Rule.parameterNames (last :: ts)).Meets 0 room xs ts (c :: rest) :=
    h last _ (Nat.lt_succ_self _)
  exact hnames.bind_ok (fun last' => ⟨c, Step.expect_pure hclose xs last' rest⟩)
    (List.suffix_cons c rest)

theorem meets_lastValue {e : Expr} (h : (expr .lowest e).Meets g room n ts rest)
    (hahead : rest.current.kind ≠ .comma) : (values [e]).Meets g room n ts rest := by
  rintro last (_ | rounds) hrounds
  · omega
  · rw [Rule.argumentValues, Step.advance_bind, List.tail_cons]
    refine Meets.bind_ok h (fun last' => ⟨last', ?_⟩) (List.suffix_refl rest)
    rw [Step.peek_bind, Tokens.peek_cons, if_neg hahead]
    rfl

theorem meets_moreValues {e : Expr} {es : List Expr}
    (he : (expr .lowest e).Meets g room n ts (c :: us)) (hcomma : c.kind = .comma)
    (hes : (values es).Meets g room m us rest) (hus : c :: us <:+ ts) (hrest : rest <:+ us) :
    (values (e :: es)).Meets g room (max n m) ts rest := by
  rintro last (_ | rounds) hrounds
  · omega
  · rw [Rule.argumentValues, Step.advance_bind, List.tail_cons]
    refine Meets.bind he (fun last' => ?_) hus (hrest.trans (List.suffix_cons c us))
    rw [Step.peek_bind, Tokens.peek_cons, Tokens.current_cons, if_pos hcomma, Step.advance_bind,
      List.tail_cons]
    have hlength := hus.length_le
    rw [List.length_cons] at hlength
    exact (Meets.map _ (hes c rounds (by omega))).mono (List.suffix_cons c us)

theorem meets_noArguments (hclose : c.kind = .rparen) :
    (arguments []).Meets g room 0 (c :: rest) rest := by
  intro last
  rw [Rule.arguments, Step.peek_bind, Tokens.peek_cons, Tokens.current_cons, if_pos hclose,
    Step.advance_bind, List.tail_cons]
  exact .reads (Nat.zero_le _) c

theorem meets_someArguments {es : List Expr} (hfirst : ts.current.kind ≠ .rparen)
    (h : (values es).Meets g room n ts (c :: rest)) (hclose : c.kind = .rparen) :
    (arguments es).Meets g room n ts rest := by
  intro last
  rw [Rule.arguments, Step.peek_bind, Tokens.peek_cons, if_neg hfirst]
  have hvalues : (Step.bounded (Rule.argumentValues (g.expression room)) (last :: ts)).Meets
      n room es ts (c :: rest) := h last _ (Nat.lt_succ_self _)
  exact hvalues.bind_ok (fun last' => ⟨c, Step.expect_pure hclose es last' rest⟩)
    (List.suffix_cons c rest)

/-! ### Expressions -/

theorem meets_stop {power : BindingPower} {e : Expr}
    (hstop : g.continuesAt? power ts.current = none) :
    (operators power e e).Meets g room 0 ts ts := by
  rintro last (_ | rounds) hrounds
  · omega
  · simp only [Grammar.operators, Step.peek_bind, Tokens.peek_cons, hstop]
    exact .reads (Nat.zero_le _) last

/-- What an operator or an argument list makes of an expression goes on after it. -/
theorem meets_continued {power q : BindingPower} {rule : InfixRule} {left middle e : Expr}
    (hgoes : g.continuesAt? power t = some ⟨q, rule⟩)
    (hread : (rule.read (g.expression room) left q (t :: ts)).Meets n room middle ts us)
    (he : (operators power middle e).Meets g room m us rest)
    (hus : us <:+ ts) (hrest : rest <:+ us) :
    (operators power left e).Meets g room (max n m) (t :: ts) rest := by
  rintro last (_ | rounds) hrounds
  · omega
  · simp only [Grammar.operators, Step.peek_bind, Tokens.peek_cons, Tokens.current_cons, hgoes,
      Step.advance_bind, List.tail_cons]
    -- the operator has been taken, so that a round less is enough for what is left
    have hlength := hus.length_le
    rw [List.length_cons] at hrounds
    exact (Meets.bind hread (fun last' => he last' rounds (by omega)) hus hrest).mono
      (List.suffix_cons t ts)

theorem meets_infixOp {power q : BindingPower} {left r e : Expr}
    (hgoes : g.continuesAt? power t = some ⟨q, .infixOp⟩)
    (hr : (expr q r).Meets g room n ts us)
    (he : (operators power (.infixOp t left t.literal r) e).Meets g room m us rest)
    (hus : us <:+ ts) (hrest : rest <:+ us) :
    (operators power left e).Meets g room (max n m) (t :: ts) rest := by
  refine meets_continued hgoes ?_ he hus hrest
  show (Rule.infixOp (g.expression room) left q (t :: ts)).Meets _ _ _ _ _
  rw [Rule.infixOp, Step.advance_bind, Tokens.current_cons, List.tail_cons]
  exact Meets.map _ hr

theorem meets_call {power q : BindingPower} {left e : Expr} {es : List Expr}
    (hgoes : g.continuesAt? power t = some ⟨q, .call⟩)
    (hes : (arguments es).Meets g room n ts us)
    (he : (operators power (.call t left es) e).Meets g room m us rest)
    (hus : us <:+ ts) (hrest : rest <:+ us) :
    (operators power left e).Meets g room (max n m) (t :: ts) rest := by
  refine meets_continued hgoes ?_ he hus hrest
  show (Rule.call (g.expression room) left (t :: ts)).Meets _ _ _ _ _
  rw [Rule.call, Step.current_bind, Tokens.current_cons]
  exact (hes t).map _

/-- An expression is one deeper than its parts: where there is no room at all, it
fails at its first token. -/
theorem meets_expr {power : BindingPower} {left e : Expr}
    (hleft : ∀ room, (start left).Meets g room n ts us)
    (he : ∀ room, (operators power left e).Meets g room m us rest)
    (hus : us <:+ ts) (hrest : rest <:+ us) (hlength : rest.length < ts.length) :
    (expr power e).Meets g room (max n m + 1) ts rest := by
  cases room with
  | zero =>
    -- the phrase has a token at which the fault can be found
    obtain ⟨xs, rfl⟩ := hrest.trans hus
    cases xs with
    | nil => simp at hlength
    | cons t xs => exact .tooDeep (Nat.succ_pos _) t xs (List.suffix_refl _)
  | succ room =>
    obtain ⟨rule, hrule, hread⟩ := hleft room
    show (g.expression (room + 1) power ts).Meets _ _ _ _ _
    simp only [Grammar.expression_succ, Grammar.expressionWith, Step.current_bind, hrule]
    refine (Meets.bind hread (fun last => ?_) hus hrest).succ
    exact he room last _ (Nat.lt_succ_self _)

/-! ### Statements -/

theorem meets_letBinding {x a : Token} {v : Expr}
    (hrule : g.statementRule t.kind = some .letBinding)
    (hname : x.kind = .ident) (hassign : a.kind = .assign)
    (hv : (expr .lowest v).Meets g room n ts us) :
    (statement (.letBinding t (.ofToken x) v)).Meets g room n (t :: x :: a :: ts)
      us.dropSemicolon := by
  show (g.statement room (t :: x :: a :: ts)).Meets _ _ _ _ _
  simp only [Grammar.statement, Grammar.statementWith, Step.current_bind, Tokens.current_cons,
    hrule, Option.getD_some, StatementRule.read, Rule.letBinding, Step.expect_bind hname,
    Step.expect_bind hassign, Step.advance_bind, List.tail_cons]
  exact (Meets.bind_ok hv (fun last => Step.exists_skipSemicolon_pure _ last us)
    us.dropSemicolon_suffix).mono ⟨[t, x, a], rfl⟩

theorem meets_returnValue {v : Expr} (hrule : g.statementRule t.kind = some .returnValue)
    (hv : (expr .lowest v).Meets g room n ts us) :
    (statement (.returnValue t v)).Meets g room n (t :: ts) us.dropSemicolon := by
  show (g.statement room (t :: ts)).Meets _ _ _ _ _
  simp only [Grammar.statement, Grammar.statementWith, Step.current_bind, Tokens.current_cons,
    hrule, Option.getD_some, StatementRule.read, Rule.returnValue, Step.advance_bind,
    List.tail_cons]
  exact (Meets.bind_ok hv (fun last => Step.exists_skipSemicolon_pure _ last us)
    us.dropSemicolon_suffix).mono (List.suffix_cons t ts)

theorem meets_expression {e : Expr}
    (hrule : (g.statementRule t.kind).getD .expression = .expression)
    (he : (expr .lowest e).Meets g room n (t :: ts) us) :
    (statement (.expression t e)).Meets g room n (t :: ts) us.dropSemicolon := by
  show (g.statement room (t :: ts)).Meets _ _ _ _ _
  simp only [Grammar.statement, Grammar.statementWith, Step.current_bind, Tokens.current_cons,
    hrule, StatementRule.read, Rule.expressionStmt]
  exact Meets.bind_ok he (fun last => Step.exists_skipSemicolon_pure _ last us)
    us.dropSemicolon_suffix

theorem meets_noStatements (hclose : c.kind = .rbrace) :
    (statements []).Meets g room 0 (c :: rest) rest := by
  rintro (_ | rounds) hrounds
  · omega
  · rw [Rule.blockStatements, Step.current_bind, if_pos (show (Tokens.current (c :: rest)).kind = _
      from hclose)]
    exact .reads (Nat.zero_le _) c

/-- A statement that has been read is followed by the others. -/
theorem blockStatements_of_ok {stmt : Step Stmt} {last : Token} {s : Stmt}
    (hbrace : ts.current.kind ≠ .rbrace) (heof : ts.current.kind ≠ .eof)
    (h : stmt ts = .ok s (last :: us) []) (rounds : Nat) :
    Rule.blockStatements stmt (rounds + 1) ts =
      (Rule.blockStatements stmt rounds >>= fun ss => pure (s :: ss)) us := by
  rw [Rule.blockStatements, Step.current_bind, if_neg hbrace, if_neg heof,
    Step.attempt_bind_of_ok h, Reply.after_nil]
  exact Step.advance_bind _ _

/-- A statement that is nested too deeply ends the block. -/
theorem blockStatements_of_nesting {stmt : Step Stmt} {diagnostic : Diagnostic}
    (hbrace : ts.current.kind ≠ .rbrace) (heof : ts.current.kind ≠ .eof)
    (h : stmt ts = .fail diagnostic us []) (hnesting : diagnostic.fault.isNesting = true)
    (rounds : Nat) :
    Rule.blockStatements stmt (rounds + 1) ts = .fail diagnostic us [] := by
  rw [Rule.blockStatements, Step.current_bind, if_neg hbrace, if_neg heof,
    Step.attempt_bind_of_fail h, Reply.after_nil]
  exact congrFun (if_pos hnesting) us

theorem meets_moreStatements {s : Stmt} {ss : List Stmt} (hbrace : ts.current.kind ≠ .rbrace)
    (heof : ts.current.kind ≠ .eof) (hs : (statement s).Meets g room n ts us)
    (hss : (statements ss).Meets g room m us rest) (hus : us <:+ ts) (hrest : rest <:+ us)
    (hlength : us.length < ts.length) :
    (statements (s :: ss)).Meets g room (max n m) ts rest := by
  rintro (_ | rounds) hrounds
  · omega
  · change (g.statement room ts).Meets n room s ts us at hs
    generalize hreply : g.statement room ts = reply at hs
    cases hs with
    | reads hroom last =>
      rw [blockStatements_of_ok hbrace heof hreply]
      exact ((Meets.map _ (hss rounds (by omega))).max_left hroom).mono hus
    | tooDeep hroom t xs hleft =>
      rw [blockStatements_of_nesting hbrace heof hreply rfl]
      exact .tooDeep_of_suffix (by omega) hleft hrest

end Phrase

/-- **What can be read is read.**  The steps of a grammar read a phrase where there
is room for its depth, and end with the fault of nesting where there is not. -/
theorem Reads.meets {g : Grammar} {φ : Phrase} {n : Nat} {ts rest : Tokens}
    (h : Reads g φ n ts rest) : ∀ room, φ.Meets g room n ts rest := by
  -- but for an expression, the parts of a phrase are run in the same room as the phrase
  induction h with
  | identifier hrule =>
    intro _
    exact Phrase.meets_identifier hrule
  | integer hrule hvalue =>
    intro _
    exact Phrase.meets_integer hrule hvalue
  | boolean hrule =>
    intro _
    exact Phrase.meets_boolean hrule
  | prefixOp hrule _ ih =>
    intro room
    exact Phrase.meets_prefixOp hrule (ih room)
  | grouping hrule _ hclose ih =>
    intro room
    exact Phrase.meets_grouping hrule (ih room) hclose
  | block hrule _ ih =>
    intro room
    exact Phrase.meets_block hrule (ih room)
  | conditional hrule hc hk ha ihc ihk iha =>
    -- where a part is too deep, those behind it are left as well
    intro room
    exact Phrase.meets_conditional hrule (ihc room) (ihk room) (iha room)
      hc.suffix hk.suffix ha.suffix
  | function hrule hopen hp hb ihp ihb =>
    intro room
    exact Phrase.meets_function hrule hopen (ihp room) (ihb room) hp.suffix hb.suffix
  | noAlternative hahead =>
    intro _
    exact Phrase.meets_noAlternative hahead
  | someAlternative hword _ ih =>
    intro room
    exact Phrase.meets_someAlternative hword (ih room)
  | lastName hname hahead =>
    -- names take no room
    intro _
    exact Phrase.meets_lastName hname hahead
  | moreNames hname hcomma _ ih =>
    intro room
    exact Phrase.meets_moreNames hname hcomma (ih room)
  | noParameters hclose =>
    intro _
    exact Phrase.meets_noParameters hclose
  | someParameters hnames hclose ih =>
    -- a list that starts with a name is not taken for the empty one
    intro room
    exact Phrase.meets_someParameters hnames.current_ne_rparen (ih room) hclose
  | lastValue _ hahead ih =>
    intro room
    exact Phrase.meets_lastValue (ih room) hahead
  | moreValues he hcomma hes ihe ihes =>
    intro room
    exact Phrase.meets_moreValues (ihe room) hcomma (ihes room) he.suffix hes.suffix
  | noArguments hclose =>
    intro _
    exact Phrase.meets_noArguments hclose
  | someArguments hfirst _ hclose ih =>
    intro room
    exact Phrase.meets_someArguments hfirst (ih room) hclose
  | stop hstop =>
    intro _
    exact Phrase.meets_stop hstop
  | infixOp hgoes hr he ihr ihe =>
    intro room
    exact Phrase.meets_infixOp hgoes (ihr room) (ihe room) hr.suffix he.suffix
  | call hgoes hes he ihes ihe =>
    intro room
    exact Phrase.meets_call hgoes (ihes room) (ihe room) hes.suffix he.suffix
  | expr hleft he ihleft ihe =>
    -- a level is entered; where there is no room for it, the start has a token to say so at
    intro _
    exact Phrase.meets_expr ihleft ihe hleft.suffix he.suffix
      (Nat.lt_of_le_of_lt he.suffix.length_le hleft.length_lt_of_start)
  | letBinding hrule hname hassign _ ih =>
    intro room
    exact Phrase.meets_letBinding hrule hname hassign (ih room)
  | returnValue hrule _ ih =>
    intro room
    exact Phrase.meets_returnValue hrule (ih room)
  | expression hrule _ ih =>
    intro room
    exact Phrase.meets_expression hrule (ih room)
  | noStatements hclose =>
    intro _
    exact Phrase.meets_noStatements hclose
  | moreStatements hbrace heof hs hss ihs ihss =>
    intro room
    exact Phrase.meets_moreStatements hbrace heof (ihs room) (ihss room)
      hs.suffix hss.suffix hs.length_lt_of_statement

end Script
