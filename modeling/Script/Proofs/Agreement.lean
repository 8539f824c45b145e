import Script.Proofs.Classification
import Script.Proofs.Rounds

/-!
# Trees that agree with their tokens

Every node of a tree keeps the token it was built from beside what it means.  The two agree
if the token is one that the node can have, spelled as it has to be, and if the node means
what the token says.

## Main definitions

* `Token.IsName`, `Token.Denotes`, `Token.prefixOperators`, `Token.infixOperators` — what the
  tokens of names, numbers and operators look like.
* `Expr.Agrees`, `Stmt.Agrees` — every node of the tree agrees with its token.
* `Expr.stored`, `Stmt.stored` — the tokens that the nodes of a tree keep.

## Main results

* `Stmt.Agrees.stored` — a tree that agrees with its tokens keeps none that closes, separates
  or ends something.
* `Token.Spelled.eq_of_kind`, `Token.Spelled.isName`, `Token.denotes_of_integer?` — what is
  known about a token that has been read, once its kind is.
-/

namespace Script

/-! ### Tokens of nodes -/

/-- The operators in front of an operand. -/
def Token.prefixOperators : List Token := [⟨.bang, "!"⟩, ⟨.minus, "-"⟩]

/-- The operators between operands. -/
def Token.infixOperators : List Token :=
  [⟨.equal, "=="⟩, ⟨.notEqual, "!="⟩, ⟨.lessThan, "<"⟩, ⟨.lessThanOrEqual, "<="⟩,
    ⟨.greaterThan, ">"⟩, ⟨.greaterThanOrEqual, ">="⟩, ⟨.plus, "+"⟩, ⟨.minus, "-"⟩,
    ⟨.asterisk, "*"⟩, ⟨.slash, "/"⟩]

/-- The kinds of which no node keeps a token. -/
def Kind.unstored : List Kind :=
  [.illegal, .eof, .kwElse, .rparen, .rbrace, .comma, .assign, .semicolon]

/-- The token is a name: one or more unaccented letters or underscores, and no reserved
word. -/
structure Token.IsName (t : Token) : Prop where
  /-- It is taken for a name. -/
  kind : t.kind = .ident
  /-- There is a letter. -/
  ne_nil : t.literal.toList ≠ []
  /-- There are only letters. -/
  letters : ∀ c ∈ t.literal.toList, ('a' ≤ c ∧ c ≤ 'z') ∨ ('A' ≤ c ∧ c ≤ 'Z') ∨ c = '_'
  /-- The word is free. -/
  free : t.literal ∉ ["else", "false", "fn", "if", "let", "return", "true"]

/-- The token is a number that stands for the value, which fits into 64 bits and has no
sign. -/
structure Token.Denotes (t : Token) (value : Int64) : Prop where
  /-- It is taken for a number. -/
  kind : t.kind = .int
  /-- There is a digit. -/
  ne_nil : t.literal.toList ≠ []
  /-- There are only digits. -/
  digits : ∀ c ∈ t.literal.toList, '0' ≤ c ∧ c ≤ '9'
  /-- The digits are those of the value. -/
  value_eq : value.toInt = Text.decimalValue t.literal.toList
  /-- The value has no sign. -/
  nonneg : 0 ≤ value.toInt
  /-- The value is at most `2 ^ 63 - 1`. -/
  le : value.toInt ≤ 9223372036854775807

/-- The token is a name, and the identifier its text. -/
structure Identifier.Agrees (x : Identifier) : Prop where
  /-- The token is a name. -/
  isName : x.token.IsName
  /-- The name is the text of the token. -/
  value : x.value = x.token.literal

/-! ### Trees -/

mutual

/-- Every node of the expression agrees with its token. -/
inductive Expr.Agrees : Expr → Prop where
  /-- A name. -/
  | identifier {x : Identifier} (hname : x.Agrees) : Expr.Agrees (.identifier x)
  /-- A number. -/
  | integer {t : Token} {v : Int64} (hvalue : t.Denotes v) : Expr.Agrees (.integer t v)
  /-- A truth value. -/
  | boolean {t : Token} {v : Bool} (hword : t = ⟨.kwTrue, "true"⟩ ∨ t = ⟨.kwFalse, "false"⟩)
      (hvalue : v = true ↔ t.kind = .kwTrue) : Expr.Agrees (.boolean t v)
  /-- An operator in front of its operand. -/
  | prefixOp {t : Token} {operator : String} {r : Expr} (hsign : t ∈ Token.prefixOperators)
      (hoperator : operator = t.literal) (hright : r.Agrees) :
      Expr.Agrees (.prefixOp t operator r)
  /-- An operator between its operands. -/
  | infixOp {t : Token} {operator : String} {l r : Expr} (hsign : t ∈ Token.infixOperators)
      (hoperator : operator = t.literal) (hleft : l.Agrees) (hright : r.Agrees) :
      Expr.Agrees (.infixOp t l operator r)
  /-- A choice, with or without an alternative. -/
  | conditional {t : Token} {c k : Expr} {a : Option Expr} (hword : t = ⟨.kwIf, "if"⟩)
      (hcondition : c.Agrees) (hconsequence : k.Agrees) (halternative : ∀ e ∈ a, Expr.Agrees e) :
      Expr.Agrees (.conditional t c k a)
  /-- A block. -/
  | block {t : Token} {ss : List Stmt} (hsign : t = ⟨.lbrace, "\x7b"⟩)
      (hbody : ∀ s ∈ ss, Stmt.Agrees s) : Expr.Agrees (.block t ss)
  /-- A function. -/
  | function {t : Token} {xs : List Identifier} {e : Expr} (hword : t = ⟨.kwFunction, "fn"⟩)
      (hparameters : ∀ x ∈ xs, x.Agrees) (hbody : e.Agrees) : Expr.Agrees (.function t xs e)
  /-- A call. -/
  | call {t : Token} {f : Expr} {es : List Expr} (hsign : t = ⟨.lparen, "("⟩)
      (hcallee : f.Agrees) (hvalues : ∀ e ∈ es, Expr.Agrees e) : Expr.Agrees (.call t f es)

/-- Every node of the statement agrees with its token. -/
inductive Stmt.Agrees : Stmt → Prop where
  /-- A binding of a name. -/
  | letBinding {t : Token} {x : Identifier} {v : Expr} (hword : t = ⟨.kwLet, "let"⟩)
      (hname : x.Agrees) (hvalue : v.Agrees) : Stmt.Agrees (.letBinding t x v)
  /-- A value that is handed back. -/
  | returnValue {t : Token} {v : Expr} (hword : t = ⟨.kwReturn, "return"⟩)
      (hvalue : v.Agrees) : Stmt.Agrees (.returnValue t v)
  /-- An expression that stands alone, with a token that starts an expression. -/
  | expression {t : Token} {e : Expr} (hfirst : t.kind ∈ Grammar.standard.prefixKinds)
      (hvalue : e.Agrees) : Stmt.Agrees (.expression t e)

end

/-! ### The tokens of a tree -/

mutual

/-- The tokens that the nodes of an expression keep. -/
def Expr.stored : Expr → List Token
  | .identifier name => [name.token]
  | .integer token _ | .boolean token _ => [token]
  | .prefixOp token _ right => token :: right.stored
  | .infixOp token left _ right => token :: (left.stored ++ right.stored)
  | .conditional token condition consequence alternative =>
    token :: (condition.stored ++ (consequence.stored ++ Expr.storedAlternative alternative))
  | .block token statements => token :: Stmt.storedList statements
  | .function token parameters body => token :: (parameters.map Identifier.token ++ body.stored)
  | .call token function arguments => token :: (function.stored ++ Expr.storedList arguments)

/-- The tokens that the alternative of a choice keeps. -/
def Expr.storedAlternative : Option Expr → List Token
  | none => []
  | some e => e.stored

/-- The tokens that the values of an argument list keep. -/
def Expr.storedList : List Expr → List Token
  | [] => []
  | e :: es => e.stored ++ Expr.storedList es

/-- The tokens that the nodes of a statement keep. -/
def Stmt.stored : Stmt → List Token
  | .letBinding token name value => token :: name.token :: value.stored
  | .returnValue token value | .expression token value => token :: value.stored

/-- The tokens that the statements of a block keep. -/
def Stmt.storedList : List Stmt → List Token
  | [] => []
  | s :: ss => s.stored ++ Stmt.storedList ss

end

/-- The token is of a kind that nodes keep. -/
def Token.Storable (t : Token) : Prop := t.kind ∉ Kind.unstored

instance (t : Token) : Decidable t.Storable := inferInstanceAs (Decidable (t.kind ∉ Kind.unstored))

theorem Token.IsName.storable {t : Token} (h : t.IsName) : t.Storable := by
  rw [Storable, h.kind]
  decide

theorem Token.Denotes.storable {t : Token} {value : Int64} (h : t.Denotes value) : t.Storable := by
  rw [Storable, h.kind]
  decide

theorem Token.storable_of_mem_prefixOperators {t : Token} (h : t ∈ prefixOperators) :
    t.Storable := by
  revert t
  decide

theorem Token.storable_of_mem_infixOperators {t : Token} (h : t ∈ infixOperators) :
    t.Storable := by
  revert t
  decide

/-- A token that starts an expression is no punctuation that closes or separates. -/
theorem Token.storable_of_mem_prefixKinds {t : Token}
    (h : t.kind ∈ Grammar.standard.prefixKinds) : t.Storable := by
  have hkinds : ∀ kind ∈ Grammar.standard.prefixKinds, kind ∉ Kind.unstored := by decide
  exact hkinds t.kind h

mutual

/-- An expression that agrees with its tokens keeps none that closes, separates or ends
something. -/
theorem Expr.Agrees.stored : ∀ {e : Expr}, e.Agrees → ∀ t ∈ e.stored, t.Storable
  | .identifier name, .identifier hname => by
    simp only [Expr.stored, List.forall_mem_singleton]
    exact hname.isName.storable
  | .integer token value, .integer hvalue => by
    simp only [Expr.stored, List.forall_mem_singleton]
    exact hvalue.storable
  | .boolean token value, .boolean hword _ => by
    simp only [Expr.stored, List.forall_mem_singleton]
    rcases hword with rfl | rfl <;> decide
  | .prefixOp token operator right, .prefixOp hsign _ hright => by
    simp only [Expr.stored, List.forall_mem_cons]
    exact ⟨Token.storable_of_mem_prefixOperators hsign, hright.stored⟩
  | .infixOp token left operator right, .infixOp hsign _ hleft hright => by
    simp only [Expr.stored, List.forall_mem_cons, List.forall_mem_append]
    exact ⟨Token.storable_of_mem_infixOperators hsign, hleft.stored, hright.stored⟩
  | .conditional token condition consequence alternative,
    .conditional hword hcondition hconsequence halternative => by
    simp only [Expr.stored, List.forall_mem_cons, List.forall_mem_append]
    refine ⟨by rw [hword]; decide, hcondition.stored, hconsequence.stored, ?_⟩
    exact Expr.storable_of_alternative halternative
  | .block token statements, .block hsign hbody => by
    simp only [Expr.stored, List.forall_mem_cons]
    exact ⟨by rw [hsign]; decide, Stmt.storable_of_list hbody⟩
  | .function token parameters body, .function hword hparameters hbody => by
    simp only [Expr.stored, List.forall_mem_cons, List.forall_mem_append, List.forall_mem_map]
    exact ⟨by rw [hword]; decide, fun x hx => (hparameters x hx).isName.storable, hbody.stored⟩
  | .call token function arguments, .call hsign hcallee hvalues => by
    simp only [Expr.stored, List.forall_mem_cons, List.forall_mem_append]
    exact ⟨by rw [hsign]; decide, hcallee.stored, Expr.storable_of_list hvalues⟩

theorem Expr.storable_of_alternative : ∀ {a : Option Expr}, (∀ e ∈ a, Expr.Agrees e) →
    ∀ t ∈ Expr.storedAlternative a, t.Storable
  | none, _ => nofun
  | some e, h => (h e rfl).stored

theorem Expr.storable_of_list : ∀ {es : List Expr}, (∀ e ∈ es, Expr.Agrees e) →
    ∀ t ∈ Expr.storedList es, t.Storable
  | [], _ => nofun
  | e :: es, h => by
    simp only [Expr.storedList, List.forall_mem_append]
    obtain ⟨he, hes⟩ := List.forall_mem_cons.1 h
    exact ⟨he.stored, Expr.storable_of_list hes⟩

/-- So does a statement. -/
theorem Stmt.Agrees.stored : ∀ {s : Stmt}, s.Agrees → ∀ t ∈ s.stored, t.Storable
  | .letBinding token name value, .letBinding hword hname hvalue => by
    simp only [Stmt.stored, List.forall_mem_cons]
    exact ⟨by rw [hword]; decide, hname.isName.storable, hvalue.stored⟩
  | .returnValue token value, .returnValue hword hvalue => by
    simp only [Stmt.stored, List.forall_mem_cons]
    exact ⟨by rw [hword]; decide, hvalue.stored⟩
  | .expression token expression, .expression hfirst hvalue => by
    simp only [Stmt.stored, List.forall_mem_cons]
    exact ⟨Token.storable_of_mem_prefixKinds hfirst, hvalue.stored⟩

theorem Stmt.storable_of_list : ∀ {ss : List Stmt}, (∀ s ∈ ss, Stmt.Agrees s) →
    ∀ t ∈ Stmt.storedList ss, t.Storable
  | [], _ => nofun
  | s :: ss, h => by
    simp only [Stmt.storedList, List.forall_mem_append]
    obtain ⟨hs, hss⟩ := List.forall_mem_cons.1 h
    exact ⟨hs.stored, Stmt.storable_of_list hss⟩

end

/-! ### Spelled tokens -/

/-- The text of the kinds that are always written the same. -/
def Kind.spelling? : Kind → Option String
  | assign => some "="
  | plus => some "+"
  | minus => some "-"
  | asterisk => some "*"
  | slash => some "/"
  | bang => some "!"
  | equal => some "=="
  | notEqual => some "!="
  | lessThan => some "<"
  | greaterThan => some ">"
  | lessThanOrEqual => some "<="
  | greaterThanOrEqual => some ">="
  | comma => some ","
  | semicolon => some ";"
  | lparen => some "("
  | rparen => some ")"
  | lbrace => some "\x7b"
  | rbrace => some "\x7d"
  | kwLet => some "let"
  | kwReturn => some "return"
  | kwFunction => some "fn"
  | kwTrue => some "true"
  | kwFalse => some "false"
  | kwIf => some "if"
  | kwElse => some "else"
  | eof | illegal | ident | int => none

/-- A word is a name, or the spelling of its kind. -/
theorem Kind.spelling?_ofWord (word : String) :
    ofWord word = ident ∨ (ofWord word).spelling? = some word := by
  unfold ofWord
  cases h : reserved.lookup word with
  | none => exact .inl rfl
  | some kind =>
    have hreserved : ∀ entry ∈ reserved, entry.2.spelling? = some entry.1 := by decide
    obtain ⟨pre, post, heq, -⟩ := List.lookup_eq_some_iff.1 h
    exact .inr (hreserved (word, kind) (by rw [heq]; simp))

namespace Token

variable {t : Token}

/-- A token that is read is spelled as its kind has to be. -/
theorem Spelled.literal_eq (ht : t.Spelled) {text : String} (h : t.kind.spelling? = some text) :
    t.literal = text := by
  cases ht with
  | @word cs hne hletters =>
    rcases Kind.spelling?_ofWord (String.ofList cs) with hident | hword
    · rw [show (⟨Kind.ofWord _, String.ofList cs⟩ : Token).kind = .ident from hident] at h
      cases h
    · exact Option.some.inj (hword.symm.trans h)
  | number => cases h
  | signWithEqual hsign =>
    unfold Lexer.signWithEqual? at hsign
    split at hsign <;> cases hsign <;> cases h <;> rfl
  | @sign c hblank hletter hdigit =>
    revert h
    unfold Lexer.sign?
    split <;> intro h <;> cases h <;> rfl

/-- A token of a kind that is always written the same is known by its kind. -/
theorem Spelled.eq_of_kind (ht : t.Spelled) {kind : Kind} {text : String} (hkind : t.kind = kind)
    (h : kind.spelling? = some text) : t = ⟨kind, text⟩ := by
  subst hkind
  rw [← ht.literal_eq h]

/-- A token that is taken for a name is one. -/
theorem Spelled.isName (ht : t.Spelled) (hkind : t.kind = .ident) : t.IsName := by
  cases ht with
  | @word cs hne hletters =>
    refine ⟨hkind, by simpa using hne, ?_, ?_⟩
    · rw [String.toList_ofList]
      exact fun c hc => Lexer.isLetter_iff.1 (hletters c hc)
    · -- each of the reserved words has a kind of its own
      have hreserved : ∀ word ∈ ["else", "false", "fn", "if", "let", "return", "true"],
          Kind.ofWord word ≠ .ident := by decide
      exact fun hmem => hreserved _ hmem hkind
  | number => cases hkind
  | signWithEqual hsign => exact absurd hkind (Lexer.signWithEqual_ne hsign (by decide))
  | @sign c hblank hletter hdigit =>
    revert hkind
    unfold Lexer.sign?
    split <;> exact fun hkind => by cases hkind

/-- A number whose text stands for a value denotes it. -/
theorem denotes_of_integer? {value : Int64} (hkind : t.kind = .int)
    (h : Text.integer? t.literal = some value) : t.Denotes value := by
  obtain ⟨hne, hdigits, hle, hvalue⟩ := Text.integer?_eq_some_iff.1 h
  have hmax : Text.maxInteger = 9223372036854775807 := rfl
  exact ⟨hkind, hne, fun c hc => Lexer.isDigit_iff.1 (hdigits c hc), hvalue, by omega, by omega⟩

end Token

end Script
