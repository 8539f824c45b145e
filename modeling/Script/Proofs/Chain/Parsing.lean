import Script.Proofs.Chain.Reading
import Script.Proofs.Program
import Script.Proofs.Spelling

/-!
# Chains are parsed as their trees

A source that is one chain of operators is parsed as the tree of the chain or given up
because it is nested too deeply, with the powers of the language and with any others
that a parser has been told of.  The length of a chain does not matter for that: only
parentheses, argument lists and operators in front of an operand take room.

## Main definitions

* `Parser.registerPowers` — a parser with other powers for some operators.
* `Parser.Parses` — a parser reads a program and ends with given diagnostics.

## Main results

* `Parser.parses_chain` — a chain is parsed as its tree.
-/

namespace Script

open Grammar

/-! ### The tokens of chains -/

mutual

/-- No token of a chain ends a statement or starts one with a word. -/
theorem Chain.plain_tokens : ∀ c : Chain, c.WellFormed → c.tokens.Plain
  | .operand a, h => by
    rw [Chain.WellFormed] at h
    exact a.plain_tokens h
  | .infixOp a t c, h => by
    rw [Chain.WellFormed] at h
    obtain ⟨ha, ht, hc⟩ := h
    rw [Chain.tokens, Tokens.plain_append, Tokens.plain_cons]
    exact ⟨a.plain_tokens ha, Kind.infixKinds_plain ht, c.plain_tokens hc⟩

theorem Operand.plain_tokens : ∀ a : Operand, a.WellFormed → a.tokens.Plain
  | .primary x, h => by
    rw [Operand.WellFormed] at h
    exact x.plain_tokens h
  | .prefixOp t a, h => by
    rw [Operand.WellFormed] at h
    rw [Operand.tokens, Tokens.plain_cons]
    exact ⟨Kind.prefixKinds_plain h.1, a.plain_tokens h.2⟩

theorem Primary.plain_tokens : ∀ x : Primary, x.WellFormed → x.tokens.Plain
  | .identifier name, h => by
    rw [Primary.WellFormed] at h
    exact .of_kind h.1 (by decide)
  | .integer t v, h => by
    rw [Primary.WellFormed] at h
    exact .of_kind h.1 (by decide)
  | .boolean t v, h => by
    rw [Primary.WellFormed] at h
    rcases h with ⟨ht, -⟩ | ⟨ht, -⟩
    · exact .of_kind ht (by decide)
    · exact .of_kind ht (by decide)
  | .parens c, h => by
    rw [Primary.WellFormed] at h
    rw [Primary.tokens, Tokens.plain_cons, Tokens.plain_append, Tokens.plain_cons]
    exact ⟨by decide, c.plain_tokens h, by decide, Tokens.plain_nil⟩
  | .call x cs, h => by
    rw [Primary.WellFormed] at h
    rw [Primary.tokens, Tokens.plain_append, Tokens.plain_cons, Tokens.plain_append,
      Tokens.plain_cons]
    exact ⟨x.plain_tokens h.1, by decide, Chain.plain_tokensList cs h.2, by decide,
      Tokens.plain_nil⟩

theorem Chain.plain_tokensMore : ∀ cs : List Chain, Chain.WellFormedList cs →
    Tokens.Plain (Chain.tokensMore cs)
  | [], _ => Tokens.plain_nil
  | c :: cs, h => by
    rw [Chain.WellFormedList] at h
    rw [Chain.tokensMore, Tokens.plain_cons, Tokens.plain_append]
    exact ⟨by decide, c.plain_tokens h.1, Chain.plain_tokensMore cs h.2⟩

theorem Chain.plain_tokensList : ∀ cs : List Chain, Chain.WellFormedList cs →
    Tokens.Plain (Chain.tokensList cs)
  | [], _ => Tokens.plain_nil
  | c :: cs, h => by
    rw [Chain.WellFormedList] at h
    rw [Chain.tokensList, Tokens.plain_append]
    exact ⟨c.plain_tokens h.1, Chain.plain_tokensMore cs h.2⟩

end

/-! ### Statements -/

/-- Nothing goes on with an expression behind which the statement ends. -/
theorem Tokens.IsEnding.continuesAt?_eq_none {g : Grammar} (hg : g.Repowered) {ending : Tokens}
    (h : ending.IsEnding) (power : BindingPower) :
    g.continuesAt? power ending.current = none := by
  rcases h with rfl | ⟨t, ht, rfl⟩
  · exact hg.continuesAt?_of_other (by decide) rfl
  · have hother : t.kind ∉ Kind.infixKinds := by
      rw [ht]
      decide
    have hnone : standard.continuation t.kind = none := by
      rw [ht]
      rfl
    exact hg.continuesAt?_of_other hother hnone

theorem Tokens.IsEnding.dropSemicolon_eq_nil {ending : Tokens} (h : ending.IsEnding) :
    ending.dropSemicolon = [] := by
  rcases h with rfl | ⟨t, ht, rfl⟩
  · rfl
  · exact if_pos ht

/-- A chain that stands alone is read as its tree. -/
theorem Chain.reads_statement {g : Grammar} (hg : g.Repowered) {c : Chain} (h : c.WellFormed)
    {ending : Tokens} (hending : ending.IsEnding) :
    ∃ k, k ≤ c.depth + BindingPower.multiplicative.rank ∧
      Reads g (.statement (.expression c.tokens.current (c.tree g.bindingPower))) k
        (c.tokens ++ ending) [] := by
  obtain ⟨k, hk, hread⟩ := c.reads hg h (hending.continuesAt?_eq_none hg .lowest)
  have hstatement := hread.expressionStmt hg
  rw [hending.dropSemicolon_eq_nil] at hstatement
  exact ⟨k, hk, hstatement⟩

/-! ### Parsers -/

namespace Parser

/-- The parser with other powers for some operators between operands. -/
def registerPowers (p : Parser) (powers : List (Kind × BindingPower)) : Parser :=
  powers.foldl (fun p entry => p.registerContinuation entry.1 entry.2 .infixOp) p

/-- The kind is that of an operator between operands, and the power is one that such an
operator can have. -/
def IsPowerOf (entry : Kind × BindingPower) : Prop :=
  entry.1 ∈ Kind.infixKinds ∧ .equality ≤ entry.2 ∧ entry.2 ≤ .multiplicative

/-- New powers change the grammar of the parser, and that only as to the powers. -/
theorem registerPowers_eq {p : Parser} (hp : p.grammar.Repowered)
    {powers : List (Kind × BindingPower)} (hpowers : ∀ entry ∈ powers, IsPowerOf entry) :
    ∃ g : Grammar, g.Repowered ∧ p.registerPowers powers = { p with grammar := g } := by
  induction powers generalizing p with
  | nil => exact ⟨p.grammar, hp, rfl⟩
  | cons entry powers ih =>
    rw [List.forall_mem_cons] at hpowers
    obtain ⟨⟨hkind, hlow, hhigh⟩, hpowers⟩ := hpowers
    exact ih (p := p.registerContinuation entry.1 entry.2 .infixOp)
      (hp.withContinuation hkind hlow hhigh) hpowers

/-- Reading to the end of the source comes to the program and the diagnostics. -/
def Parses (p : Parser) (program : Program) (log : List Diagnostic) : Prop :=
  ∃ q : Parser, p.parseProgram = some (program, q) ∧ q.diagnostics = log

theorem Parses.of_statements {p : Parser} {ss : List Stmt} {rest : Tokens}
    {log : List Diagnostic} (hdiagnostics : p.diagnostics = [])
    (h : programStatements (p.grammar.statement p.room) (p.tokens.length + 1) p.tokens =
      .ok ss rest log) : p.Parses ⟨ss⟩ log := by
  refine ⟨_, parseProgram_of_statements h, ?_⟩
  show p.diagnostics ++ log = log
  rw [hdiagnostics, List.nil_append]

/-- **Chains are parsed as their trees.**  Whatever powers the operators are given, a
source that is one chain is parsed as the tree of the chain, or it is nested too deeply
and that is the only diagnostic.  A chain without parentheses and argument lists and
with at most 59 operators in front of each operand is never nested too deeply. -/
theorem parses_chain {powers : List (Kind × BindingPower)}
    (hpowers : ∀ entry ∈ powers, IsPowerOf entry) {c : Chain} (hc : c.WellFormed)
    {ending : Tokens} (hending : ending.IsEnding) {source : String}
    (hsource : tokenize source = c.tokens ++ ending ++ [Token.eof]) :
    let p := (ofString source).registerPowers powers
    let program : Program :=
      ⟨[.expression c.tokens.current (c.tree p.grammar.bindingPower)]⟩
    (p.Parses program [] ∨
      ∃ t ∈ c.tokens ++ ending, p.Parses ⟨[]⟩ [⟨.nestingTooDeep maxNesting, t⟩]) ∧
    ((∀ a ∈ c.operands, a.isAtom = true ∧ a.prefixes ≤ 59) → p.Parses program []) := by
  intro p program
  obtain ⟨g, hg, hp⟩ := registerPowers_eq (p := ofString source) repowered_standard hpowers
  have hgrammar : p.grammar = g := congrArg Parser.grammar hp
  have hdiagnostics : p.diagnostics = [] := congrArg Parser.diagnostics hp
  have hroom : p.room = maxNesting := congrArg Parser.room hp
  have htokens : p.tokens = c.tokens ++ ending := by
    have hlexer : p.tokens = Lexer.tokens source.toList := congrArg Parser.tokens hp
    rw [hlexer]
    exact List.append_cancel_right hsource
  rw [← hgrammar] at hg
  obtain ⟨k, hk, hread⟩ := c.reads_statement hg hc hending
  have heof := (hread.current_of_statement hg).2
  -- the loop has a round for the statement and one for the end of the source
  obtain ⟨rounds, hrounds⟩ : ∃ rounds, p.tokens.length + 1 = rounds + 2 := by
    have hlength := hread.length_lt_of_statement
    rw [← htokens, List.length_nil] at hlength
    exact ⟨p.tokens.length - 1, by omega⟩
  have hrecover : ∀ t us, t :: us <:+ c.tokens ++ ending →
      Tokens.recover false (t :: us) = [] := by
    intro t us h
    exact Tokens.recover_plain_ending (c.plain_tokens hc) hending h
  have hparses {ss : List Stmt} {log : List Diagnostic}
      (h : programStatements (p.grammar.statement maxNesting) (rounds + 2) (c.tokens ++ ending) =
        .ok ss [] log) : p.Parses ⟨ss⟩ log := by
    rw [← hrounds, ← htokens, ← hroom] at h
    exact .of_statements hdiagnostics h
  rcases programStatements_of_reads hread heof hrecover with ⟨-, hok⟩ | ⟨hdeep, t, ht, hfail⟩
  · exact ⟨.inl (hparses hok), fun _ => hparses hok⟩
  · refine ⟨.inr ⟨t, ht, hparses hfail⟩, ?_⟩
    intro hflat
    -- operators between operands take room for four powers at most
    have hdepth : c.depth ≤ 60 := Chain.depth_le_of_isAtom hflat
    have hrank : BindingPower.multiplicative.rank = 4 := rfl
    have hmax : maxNesting = 64 := rfl
    omega

end Parser

/-! ### An example -/

/-- The operand that is a name. -/
def Operand.ofName (word : String) : Operand :=
  .primary (.identifier (.ofToken ⟨.ident, word⟩))

/-- The chain `a + b * c`. -/
def Chain.sumProduct : Chain :=
  .infixOp (.ofName "a") ⟨.plus, "+"⟩ (.infixOp (.ofName "b") ⟨.asterisk, "*"⟩
    (.operand (.ofName "c")))

theorem Chain.wellFormed_sumProduct : sumProduct.WellFormed := by
  simp [sumProduct, Operand.ofName, WellFormed, Operand.WellFormed, Primary.WellFormed,
    Kind.infixKinds]

theorem Chain.tokenize_sumProduct :
    tokenize "a + b * c" = sumProduct.tokens ++ [] ++ [Token.eof] := by
  have hspelled : ∀ t ∈ sumProduct.tokens, t.Spelled := by
    show ∀ t ∈ [⟨.ident, "a"⟩, ⟨.plus, "+"⟩, ⟨.ident, "b"⟩, ⟨.asterisk, "*"⟩, ⟨.ident, "c"⟩],
      Token.Spelled t
    simp only [List.forall_mem_cons]
    exact ⟨Token.spelled_word "a" (by decide) (by decide), .sign (c := '+') rfl rfl rfl,
      Token.spelled_word "b" (by decide) (by decide), .sign (c := '*') rfl rfl rfl,
      Token.spelled_word "c" (by decide) (by decide), List.forall_mem_nil _⟩
  rw [List.append_nil]
  exact congrArg (· ++ [Token.eof]) (Lexer.tokens_spaced hspelled)

/-- Where a product does not bind tighter than a sum, it is the product of the sum. -/
theorem Chain.tree_sumProduct {power : Kind → BindingPower} (h : power .asterisk ≤ power .plus) :
    sumProduct.tree power = .infixOp ⟨.asterisk, "*"⟩
      (.infixOp ⟨.plus, "+"⟩ (.identifier (.ofToken ⟨.ident, "a"⟩)) "+"
        (.identifier (.ofToken ⟨.ident, "b"⟩))) "*" (.identifier (.ofToken ⟨.ident, "c"⟩)) := by
  let sum : Operation := ⟨⟨.plus, "+"⟩, .identifier (.ofToken ⟨.ident, "b"⟩)⟩
  let product : Operation := ⟨⟨.asterisk, "*"⟩, .identifier (.ofToken ⟨.ident, "c"⟩)⟩
  have hproduct : (Operation.Split.mk [sum] product []).AtWeakest power :=
    ⟨List.forall_mem_singleton.2 h, List.forall_mem_nil _⟩
  have hsum : (Operation.Split.mk [] sum []).AtWeakest power :=
    ⟨List.forall_mem_nil _, List.forall_mem_nil _⟩
  have htop := Operation.tree_append_cons hproduct (.identifier (.ofToken ⟨.ident, "a"⟩))
  have hleft := Operation.tree_append_cons hsum (.identifier (.ofToken ⟨.ident, "a"⟩))
  rw [Operation.tree_nil] at htop
  rw [Operation.tree_nil, Operation.tree_nil] at hleft
  exact htop.trans (congrArg (Expr.infixOp product.operator · product.operator.literal
    product.operand) hleft)

/-- A parser that has been told so reads sums before products. -/
theorem Parser.parses_chain_sumProduct :
    ((ofString "a + b * c").registerPowers
        [(.plus, .multiplicative), (.asterisk, .additive)]).Parses
      ⟨[.expression ⟨.ident, "a"⟩ (.infixOp ⟨.asterisk, "*"⟩
        (.infixOp ⟨.plus, "+"⟩ (.identifier (.ofToken ⟨.ident, "a"⟩)) "+"
          (.identifier (.ofToken ⟨.ident, "b"⟩)))
        "*" (.identifier (.ofToken ⟨.ident, "c"⟩)))]⟩ [] := by
  have hpowers : ∀ entry ∈ [(Kind.plus, BindingPower.multiplicative), (.asterisk, .additive)],
      IsPowerOf entry := by
    rw [List.forall_mem_cons, List.forall_mem_singleton]
    exact ⟨⟨by decide, by decide, by decide⟩, by decide, by decide, by decide⟩
  have hflat : ∀ a ∈ Chain.sumProduct.operands, a.isAtom = true ∧ a.prefixes ≤ 59 := by
    simp [Chain.sumProduct, Chain.operands, Operand.ofName, Operand.isAtom, Operand.prefixes]
  have hparses := (parses_chain hpowers Chain.wellFormed_sumProduct (.inl rfl)
    Chain.tokenize_sumProduct).2 hflat
  rwa [Chain.tree_sumProduct (by decide)] at hparses

end Script
