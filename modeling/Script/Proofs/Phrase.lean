import Script.Proofs.Tables

/-!
# Phrases and their readings

A phrase is a piece of a source together with what it is understood as.  The
relation `Reads` says which tokens a phrase takes off the front of the unread
ones, and how many expressions stand inside each other while it is read.  It has
one rule for each way in which reading goes well; what it says of the steps
themselves is proved from it, in both directions, elsewhere.

A phrase that continues another one, such as the operators after an operand, is
read from the token after the operand on.  Every rule looks at most at one token
that it does not take, the one that comes first in what is left.

## Main definitions

* `Phrase` — what can be read: expressions, statements and their parts.
* `Reads g φ depth ts rest` — by the grammar `g` the phrase `φ` is read from `ts`,
  which leaves `rest`, and the expressions in it stand `depth` deep.

## Main results

* `Reads.suffix` — a phrase takes tokens from the front.
* `Reads.length_lt_of_expr`, `Reads.length_lt_of_statement` — an expression and a
  statement take at least one token.
-/

namespace Script

/-- What is left behind a statement that may end in a `;`. -/
def Tokens.dropSemicolon (ts : Tokens) : Tokens :=
  if ts.current.kind = .semicolon then ts.tail else ts

theorem Tokens.dropSemicolon_suffix (ts : Tokens) : ts.dropSemicolon <:+ ts := by
  unfold Tokens.dropSemicolon
  split
  · exact List.tail_suffix ts
  · exact List.suffix_refl ts

/-- The tokens are the `;` that ends a statement, or it has been left out. -/
def Tokens.IsEnding (ts : Tokens) : Prop := ts = [] ∨ ∃ t : Token, t.kind = .semicolon ∧ ts = [t]

theorem Tokens.exists_ending (ts : Tokens) : ∃ ending : Tokens, ending.IsEnding ∧
    ts = ending ++ ts.dropSemicolon := by
  unfold dropSemicolon
  by_cases h : ts.current.kind = .semicolon
  · rw [if_pos h]
    cases ts with
    | nil => cases h
    | cons t ts => exact ⟨[t], .inr ⟨t, h, rfl⟩, rfl⟩
  · rw [if_neg h]
    exact ⟨[], .inl rfl, rfl⟩

/-- What can be read off the front of the unread tokens. -/
inductive Phrase where
  /-- An expression whose operators all bind tighter than a power. -/
  | expr (power : BindingPower) (e : Expr)
  /-- The part of an expression that the rule for its first token reads. -/
  | start (e : Expr)
  /-- The operators and argument lists that continue `left`, bind tighter than a
  power and make `e` of it. -/
  | operators (power : BindingPower) (left e : Expr)
  /-- The alternative of a choice, with the word in front of it. -/
  | alternative (e : Option Expr)
  /-- One or more names with commas between them. -/
  | names (xs : List Identifier)
  /-- A parameter list behind its opening parenthesis. -/
  | parameters (xs : List Identifier)
  /-- One or more expressions with commas between them. -/
  | values (es : List Expr)
  /-- An argument list behind its opening parenthesis. -/
  | arguments (es : List Expr)
  /-- A statement. -/
  | statement (s : Stmt)
  /-- The statements of a block and the brace that closes it. -/
  | statements (ss : List Stmt)

/-- By the grammar `g` the phrase is read from the first tokens and leaves the
second ones; the number counts the expressions that stand inside each other. -/
inductive Reads (g : Grammar) : Phrase → Nat → Tokens → Tokens → Prop where
  /-- A name. -/
  | identifier {t : Token} {ts : Tokens} (hrule : g.prefixRule t.kind = some .identifier) :
      Reads g (.start (.identifier (.ofToken t))) 0 (t :: ts) ts
  /-- A number within the limits. -/
  | integer {t : Token} {ts : Tokens} {v : Int64}
      (hrule : g.prefixRule t.kind = some .integer) (hvalue : Text.integer? t.literal = some v) :
      Reads g (.start (.integer t v)) 0 (t :: ts) ts
  /-- A truth value. -/
  | boolean {t : Token} {ts : Tokens} (hrule : g.prefixRule t.kind = some .boolean) :
      Reads g (.start (.boolean t (t.is .kwTrue))) 0 (t :: ts) ts
  /-- An operator and its operand. -/
  | prefixOp {t : Token} {ts rest : Tokens} {r : Expr} {n : Nat}
      (hrule : g.prefixRule t.kind = some .prefixOp) (hright : Reads g (.expr .unary r) n ts rest) :
      Reads g (.start (.prefixOp t t.literal r)) n (t :: ts) rest
  /-- An expression in parentheses. -/
  | grouping {t c : Token} {ts rest : Tokens} {e : Expr} {n : Nat}
      (hrule : g.prefixRule t.kind = some .grouping)
      (hinner : Reads g (.expr .lowest e) n ts (c :: rest)) (hclose : c.kind = .rparen) :
      Reads g (.start e) n (t :: ts) rest
  /-- A block. -/
  | block {t : Token} {ts rest : Tokens} {ss : List Stmt} {n : Nat}
      (hrule : g.prefixRule t.kind = some .block) (hbody : Reads g (.statements ss) n ts rest) :
      Reads g (.start (.block t ss)) n (t :: ts) rest
  /-- A choice. -/
  | conditional {t : Token} {ts us vs rest : Tokens} {c k : Expr} {a : Option Expr}
      {n m l : Nat} (hrule : g.prefixRule t.kind = some .conditional)
      (hcondition : Reads g (.expr .lowest c) n ts us)
      (hconsequence : Reads g (.expr .lowest k) m us vs)
      (halternative : Reads g (.alternative a) l vs rest) :
      Reads g (.start (.conditional t c k a)) (max n (max m l)) (t :: ts) rest
  /-- A function. -/
  | function {t o : Token} {ts us rest : Tokens} {xs : List Identifier} {e : Expr} {n : Nat}
      (hrule : g.prefixRule t.kind = some .function) (hopen : o.kind = .lparen)
      (hparameters : Reads g (.parameters xs) 0 ts us)
      (hbody : Reads g (.expr .lowest e) n us rest) :
      Reads g (.start (.function t xs e)) n (t :: o :: ts) rest
  /-- A choice that the word `else` does not follow has no alternative. -/
  | noAlternative {ts : Tokens} (hahead : ts.current.kind ≠ .kwElse) :
      Reads g (.alternative none) 0 ts ts
  /-- The alternative that follows the word `else`. -/
  | someAlternative {t : Token} {ts rest : Tokens} {e : Expr} {n : Nat}
      (hword : t.kind = .kwElse) (hvalue : Reads g (.expr .lowest e) n ts rest) :
      Reads g (.alternative (some e)) n (t :: ts) rest
  /-- The last name of a parameter list. -/
  | lastName {t : Token} {rest : Tokens} (hname : t.kind = .ident)
      (hahead : rest.current.kind ≠ .comma) : Reads g (.names [.ofToken t]) 0 (t :: rest) rest
  /-- A name with a comma and more names behind it. -/
  | moreNames {t c : Token} {ts rest : Tokens} {xs : List Identifier} (hname : t.kind = .ident)
      (hcomma : c.kind = .comma) (hnames : Reads g (.names xs) 0 ts rest) :
      Reads g (.names (.ofToken t :: xs)) 0 (t :: c :: ts) rest
  /-- A parameter list without names. -/
  | noParameters {c : Token} {rest : Tokens} (hclose : c.kind = .rparen) :
      Reads g (.parameters []) 0 (c :: rest) rest
  /-- A parameter list with names. -/
  | someParameters {c : Token} {ts rest : Tokens} {xs : List Identifier}
      (hnames : Reads g (.names xs) 0 ts (c :: rest)) (hclose : c.kind = .rparen) :
      Reads g (.parameters xs) 0 ts rest
  /-- The last expression of an argument list. -/
  | lastValue {ts rest : Tokens} {e : Expr} {n : Nat} (hvalue : Reads g (.expr .lowest e) n ts rest)
      (hahead : rest.current.kind ≠ .comma) : Reads g (.values [e]) n ts rest
  /-- An expression with a comma and more expressions behind it. -/
  | moreValues {c : Token} {ts us rest : Tokens} {e : Expr} {es : List Expr} {n m : Nat}
      (hvalue : Reads g (.expr .lowest e) n ts (c :: us)) (hcomma : c.kind = .comma)
      (hvalues : Reads g (.values es) m us rest) :
      Reads g (.values (e :: es)) (max n m) ts rest
  /-- An argument list without expressions. -/
  | noArguments {c : Token} {rest : Tokens} (hclose : c.kind = .rparen) :
      Reads g (.arguments []) 0 (c :: rest) rest
  /-- An argument list with expressions. -/
  | someArguments {c : Token} {ts rest : Tokens} {es : List Expr} {n : Nat}
      (hfirst : ts.current.kind ≠ .rparen) (hvalues : Reads g (.values es) n ts (c :: rest))
      (hclose : c.kind = .rparen) : Reads g (.arguments es) n ts rest
  /-- Nothing that binds tighter than the power follows. -/
  | stop {power : BindingPower} {e : Expr} {ts : Tokens}
      (hstop : g.continuesAt? power ts.current = none) : Reads g (.operators power e e) 0 ts ts
  /-- An operator between operands. -/
  | infixOp {power q : BindingPower} {left r e : Expr} {t : Token} {ts us rest : Tokens}
      {n m : Nat} (hgoes : g.continuesAt? power t = some ⟨q, .infixOp⟩)
      (hright : Reads g (.expr q r) n ts us)
      (hmore : Reads g (.operators power (.infixOp t left t.literal r) e) m us rest) :
      Reads g (.operators power left e) (max n m) (t :: ts) rest
  /-- An argument list. -/
  | call {power q : BindingPower} {left e : Expr} {es : List Expr} {t : Token}
      {ts us rest : Tokens} {n m : Nat} (hgoes : g.continuesAt? power t = some ⟨q, .call⟩)
      (harguments : Reads g (.arguments es) n ts us)
      (hmore : Reads g (.operators power (.call t left es) e) m us rest) :
      Reads g (.operators power left e) (max n m) (t :: ts) rest
  /-- An expression is its start and the operators that continue it. -/
  | expr {power : BindingPower} {left e : Expr} {ts us rest : Tokens} {n m : Nat}
      (hstart : Reads g (.start left) n ts us)
      (hmore : Reads g (.operators power left e) m us rest) :
      Reads g (.expr power e) (max n m + 1) ts rest
  /-- A binding of a name. -/
  | letBinding {t x a : Token} {ts us : Tokens} {v : Expr} {n : Nat}
      (hrule : g.statementRule t.kind = some .letBinding) (hname : x.kind = .ident)
      (hassign : a.kind = .assign) (hvalue : Reads g (.expr .lowest v) n ts us) :
      Reads g (.statement (.letBinding t (.ofToken x) v)) n (t :: x :: a :: ts) us.dropSemicolon
  /-- A value that is handed back. -/
  | returnValue {t : Token} {ts us : Tokens} {v : Expr} {n : Nat}
      (hrule : g.statementRule t.kind = some .returnValue)
      (hvalue : Reads g (.expr .lowest v) n ts us) :
      Reads g (.statement (.returnValue t v)) n (t :: ts) us.dropSemicolon
  /-- An expression that stands alone. -/
  | expression {t : Token} {ts us : Tokens} {e : Expr} {n : Nat}
      (hrule : (g.statementRule t.kind).getD .expression = .expression)
      (hvalue : Reads g (.expr .lowest e) n (t :: ts) us) :
      Reads g (.statement (.expression t e)) n (t :: ts) us.dropSemicolon
  /-- The end of a block. -/
  | noStatements {c : Token} {rest : Tokens} (hclose : c.kind = .rbrace) :
      Reads g (.statements []) 0 (c :: rest) rest
  /-- A statement of a block and those behind it. -/
  | moreStatements {ts us rest : Tokens} {s : Stmt} {ss : List Stmt} {n m : Nat}
      (hbrace : ts.current.kind ≠ .rbrace) (heof : ts.current.kind ≠ .eof)
      (hstatement : Reads g (.statement s) n ts us)
      (hstatements : Reads g (.statements ss) m us rest) :
      Reads g (.statements (s :: ss)) (max n m) ts rest

namespace Reads

open Grammar

variable {g : Grammar} {φ : Phrase} {n m : Nat} {ts rest : Tokens}

/-- A phrase takes tokens from the front only. -/
theorem suffix (h : Reads g φ n ts rest) : rest <:+ ts := by
  induction h with
  | identifier | integer | boolean | noParameters | noArguments | noStatements | lastName =>
    exact List.suffix_cons _ _
  | noAlternative | stop => exact List.suffix_refl _
  | prefixOp _ _ ih | block _ _ ih | someAlternative _ _ ih => exact ih.trans (List.suffix_cons _ _)
  | lastValue _ _ ih => exact ih
  | grouping _ _ _ ih => exact (List.suffix_cons _ _).trans (ih.trans (List.suffix_cons _ _))
  | someParameters _ _ ih | someArguments _ _ _ ih => exact (List.suffix_cons _ _).trans ih
  | conditional _ _ _ _ ihc ihk iha =>
    exact iha.trans (ihk.trans (ihc.trans (List.suffix_cons _ _)))
  | function _ _ _ _ ihp ihb =>
    exact ihb.trans (ihp.trans ((List.suffix_cons _ _).trans (List.suffix_cons _ _)))
  | moreNames _ _ _ ih => exact ih.trans ((List.suffix_cons _ _).trans (List.suffix_cons _ _))
  | moreValues _ _ _ ihe ihes => exact ihes.trans ((List.suffix_cons _ _).trans ihe)
  | infixOp _ _ _ ihr ihm | call _ _ _ ihr ihm =>
    exact ihm.trans (ihr.trans (List.suffix_cons _ _))
  | expr _ _ ihs ihm | moreStatements _ _ _ _ ihs ihm => exact ihm.trans ihs
  | letBinding _ _ _ _ ih =>
    exact (Tokens.dropSemicolon_suffix _).trans (ih.trans ⟨[_, _, _], rfl⟩)
  | returnValue _ _ ih =>
    exact (Tokens.dropSemicolon_suffix _).trans (ih.trans (List.suffix_cons _ _))
  | expression _ _ ih => exact (Tokens.dropSemicolon_suffix _).trans ih

/-- The start of an expression takes at least one token. -/
theorem length_lt_of_start {e : Expr} (h : Reads g (.start e) n ts rest) :
    rest.length < ts.length := by
  cases h with
  | identifier | integer | boolean => simp
  | prefixOp _ h | block _ h => exact Nat.lt_succ_of_le h.suffix.length_le
  | grouping _ h => exact Nat.lt_succ_of_lt (Nat.lt_of_succ_le h.suffix.length_le)
  | conditional _ hc hk ha =>
    exact Nat.lt_succ_of_le ((ha.suffix.trans (hk.suffix.trans hc.suffix)).length_le)
  | function _ _ hp hb =>
    exact Nat.lt_succ_of_lt (Nat.lt_succ_of_le (hb.suffix.trans hp.suffix).length_le)

/-- An expression takes at least one token. -/
theorem length_lt_of_expr {power : BindingPower} {e : Expr}
    (h : Reads g (.expr power e) n ts rest) : rest.length < ts.length := by
  cases h with
  | expr hstart hmore => exact Nat.lt_of_le_of_lt hmore.suffix.length_le hstart.length_lt_of_start

/-- A statement takes at least one token. -/
theorem length_lt_of_statement {s : Stmt} (h : Reads g (.statement s) n ts rest) :
    rest.length < ts.length := by
  have hsemicolon (us : Tokens) : us.dropSemicolon.length ≤ us.length :=
    us.dropSemicolon_suffix.length_le
  cases h with
  | @letBinding _ _ _ _ us _ _ _ _ _ hvalue =>
    have := hsemicolon us
    have := hvalue.length_lt_of_expr
    simp only [List.length_cons]
    omega
  | @returnValue _ _ us _ _ _ hvalue =>
    have := hsemicolon us
    have := hvalue.length_lt_of_expr
    simp only [List.length_cons]
    omega
  | @expression _ _ us _ _ _ hvalue =>
    exact Nat.lt_of_le_of_lt (hsemicolon us) hvalue.length_lt_of_expr

/-- A list of names starts with a name. -/
theorem current_ne_rparen {xs : List Identifier} (h : Reads g (.names xs) n ts rest) :
    ts.current.kind ≠ .rparen := by
  cases h with
  | lastName hname | moreNames hname =>
    rw [Tokens.current_cons, hname]
    decide

theorem of_depth (h : Reads g φ n ts rest) (hdepth : n = m) : Reads g φ m ts rest :=
  hdepth ▸ h

/-- The first token of an expression has a rule. -/
theorem exists_prefixRule {power : BindingPower} {e : Expr}
    (h : Reads g (.expr power e) n ts rest) : ∃ rule, g.prefixRule ts.current.kind = some rule := by
  cases h with
  | expr hstart _ =>
    cases hstart with
    | identifier hrule | integer hrule | boolean hrule | prefixOp hrule | grouping hrule
    | block hrule | conditional hrule | function hrule => exact ⟨_, hrule⟩

/-- The same for the first token of an argument list. -/
theorem exists_prefixRule_of_values {es : List Expr} (h : Reads g (.values es) n ts rest) :
    ∃ rule, g.prefixRule ts.current.kind = some rule := by
  cases h with
  | lastValue hvalue | moreValues hvalue => exact hvalue.exists_prefixRule

/-- An expression that nothing continues is its start. -/
theorem of_start {power : BindingPower} {e : Expr} (hstart : Reads g (.start e) n ts rest)
    (hstop : g.continuesAt? power rest.current = none) :
    Reads g (.expr power e) (n + 1) ts rest := by
  have hread : Reads g (.expr power e) (max n 0 + 1) ts rest := .expr hstart (.stop hstop)
  rwa [Nat.max_zero] at hread

/-- A statement starts neither at the end of a block nor at that of the source. -/
theorem current_of_statement (hg : g.Repowered) {s : Stmt} (h : Reads g (.statement s) n ts rest) :
    ts.current.kind ≠ .rbrace ∧ ts.current.kind ≠ .eof := by
  cases h with
  | letBinding hrule | returnValue hrule =>
    rw [hg.statementRule] at hrule
    exact standard_statement hrule
  | expression _ hvalue =>
    obtain ⟨rule, hrule⟩ := hvalue.exists_prefixRule
    rw [hg.prefixRule] at hrule
    exact (standard_first hrule).2.2

/-- An expression that stands alone is a statement. -/
theorem expressionStmt (hg : g.Repowered) {e : Expr} {ending : Tokens}
    (h : Reads g (.expr .lowest e) n (ts ++ ending) ending) :
    Reads g (.statement (.expression ts.current e)) n (ts ++ ending) ending.dropSemicolon := by
  -- the expression has a first token, and no statement rule belongs to that
  have hlength := h.length_lt_of_expr
  obtain ⟨rule, hrule⟩ := h.exists_prefixRule
  cases ts with
  | nil => exact absurd hlength (Nat.lt_irrefl _)
  | cons t ts =>
    rw [hg.prefixRule] at hrule
    have hnone : g.statementRule t.kind = none := by
      rw [hg.statementRule]
      exact (standard_first hrule).1
    have hexpression : (g.statementRule t.kind).getD .expression = .expression := by
      rw [hnone]
      rfl
    exact .expression hexpression h

end Reads

end Script
