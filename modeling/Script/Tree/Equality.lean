import Script.Tree

/-!
# Equality of syntax trees

Two trees are equal when they have the same shape and agree in every field, the
tokens included.  The comparison walks both trees at once, and equality of
expressions, statements and programs is decidable by it.

## Main definitions

* `Expr.same`, `Stmt.same` — the comparison, with `Expr.sameOption`,
  `Expr.sameList` and `Stmt.sameList` for the children of a node.

## Main results

* `Expr.same_iff`, `Stmt.same_iff` — the comparison succeeds on equal trees only.
-/

namespace Script

mutual

/-- Whether two expressions are equal. -/
def Expr.same : Expr → Expr → Bool
  | .identifier name, .identifier name' => name = name'
  | .integer token value, .integer token' value' => token = token' && value = value'
  | .boolean token value, .boolean token' value' => token = token' && value = value'
  | .prefixOp token operator right, .prefixOp token' operator' right' =>
    token = token' && operator = operator' && right.same right'
  | .infixOp token left operator right, .infixOp token' left' operator' right' =>
    token = token' && left.same left' && operator = operator' && right.same right'
  | .conditional token condition consequence alternative,
      .conditional token' condition' consequence' alternative' =>
    token = token' && condition.same condition' && consequence.same consequence' &&
      Expr.sameOption alternative alternative'
  | .block token statements, .block token' statements' =>
    token = token' && Stmt.sameList statements statements'
  | .function token parameters body, .function token' parameters' body' =>
    token = token' && parameters = parameters' && body.same body'
  | .call token function arguments, .call token' function' arguments' =>
    token = token' && function.same function' && Expr.sameList arguments arguments'
  | _, _ => false

/-- Whether two optional expressions are equal. -/
def Expr.sameOption : Option Expr → Option Expr → Bool
  | none, none => true
  | some e, some e' => e.same e'
  | _, _ => false

/-- Whether two lists of expressions are equal. -/
def Expr.sameList : List Expr → List Expr → Bool
  | [], [] => true
  | e :: es, e' :: es' => e.same e' && Expr.sameList es es'
  | _, _ => false

/-- Whether two statements are equal. -/
def Stmt.same : Stmt → Stmt → Bool
  | .letBinding token name value, .letBinding token' name' value' =>
    token = token' && name = name' && value.same value'
  | .returnValue token value, .returnValue token' value' => token = token' && value.same value'
  | .expression token expression, .expression token' expression' =>
    token = token' && expression.same expression'
  | _, _ => false

/-- Whether two lists of statements are equal. -/
def Stmt.sameList : List Stmt → List Stmt → Bool
  | [], [] => true
  | s :: ss, s' :: ss' => s.same s' && Stmt.sameList ss ss'
  | _, _ => false

end

mutual

/-- The comparison of expressions decides their equality. -/
theorem Expr.same_iff : ∀ e e' : Expr, e.same e' = true ↔ e = e'
  | .identifier _, e' | .integer _ _, e' | .boolean _ _, e' => by
    cases e' <;> simp [Expr.same]
  | .prefixOp _ _ right, e' => by
    cases e' <;> simp [Expr.same, right.same_iff, and_assoc]
  | .infixOp _ left _ right, e' => by
    cases e' <;> simp [Expr.same, left.same_iff, right.same_iff, and_assoc]
  | .conditional _ condition consequence alternative, e' => by
    cases e' <;> simp [Expr.same, condition.same_iff, consequence.same_iff,
      Expr.sameOption_iff alternative, and_assoc]
  | .block _ statements, e' => by
    cases e' <;> simp [Expr.same, Stmt.sameList_iff statements]
  | .function _ _ body, e' => by
    cases e' <;> simp [Expr.same, body.same_iff, and_assoc]
  | .call _ function arguments, e' => by
    cases e' <;> simp [Expr.same, function.same_iff, Expr.sameList_iff arguments, and_assoc]

theorem Expr.sameOption_iff : ∀ e e' : Option Expr, Expr.sameOption e e' = true ↔ e = e'
  | none, e' => by cases e' <;> simp [Expr.sameOption]
  | some e, e' => by cases e' <;> simp [Expr.sameOption, e.same_iff]

theorem Expr.sameList_iff : ∀ es es' : List Expr, Expr.sameList es es' = true ↔ es = es'
  | [], es' => by cases es' <;> simp [Expr.sameList]
  | e :: es, es' => by cases es' <;> simp [Expr.sameList, e.same_iff, Expr.sameList_iff es]

/-- The comparison of statements decides their equality. -/
theorem Stmt.same_iff : ∀ s s' : Stmt, s.same s' = true ↔ s = s'
  | .letBinding _ _ value, s' => by cases s' <;> simp [Stmt.same, value.same_iff, and_assoc]
  | .returnValue _ value, s' => by cases s' <;> simp [Stmt.same, value.same_iff]
  | .expression _ expression, s' => by cases s' <;> simp [Stmt.same, expression.same_iff]

theorem Stmt.sameList_iff : ∀ ss ss' : List Stmt, Stmt.sameList ss ss' = true ↔ ss = ss'
  | [], ss' => by cases ss' <;> simp [Stmt.sameList]
  | s :: ss, ss' => by cases ss' <;> simp [Stmt.sameList, s.same_iff, Stmt.sameList_iff ss]

end

instance : DecidableEq Expr := fun e e' => decidable_of_iff _ (Expr.same_iff e e')

instance : DecidableEq Stmt := fun s s' => decidable_of_iff _ (Stmt.same_iff s s')

deriving instance DecidableEq for Program

end Script
