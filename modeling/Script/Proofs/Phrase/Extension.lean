import Script.Grammar.Progress
import Script.Proofs.Phrase

/-!
# More tokens behind a phrase

A phrase that is read up to the end of the tokens is read from the same tokens with others
behind them, unless the first of those goes on with it.  A statement that ends in a `;` is
gone on with by nothing.

## Main definitions

* `Grammar.Closes` — no phrase goes on at a token.
* `Tokens.PlainEnd` — the last token that has been taken is no `;`.
* `Tokens.Ended` — the last token of all is one.

## Main results

* `Reads.append` — a phrase is read with more tokens behind it.
* `Reads.append_statement` — so is a statement that ends in a `;`, whatever they are.
-/

namespace Script

/-- No expression, list, choice or statement goes on at the token. -/
structure Grammar.Closes (g : Grammar) (t : Token) : Prop where
  /-- The token is neither an operator nor the start of an argument list. -/
  continuesAt? : ∀ power, g.continuesAt? power t = none
  /-- It goes on with no list, -/
  ne_comma : t.kind ≠ .comma
  /-- with no choice -/
  ne_else : t.kind ≠ .kwElse
  /-- and with no statement. -/
  ne_semicolon : t.kind ≠ .semicolon

namespace Tokens

variable {ts us rest : Tokens} {t : Token}

theorem current_append_of_ne_nil (h : ts ≠ []) (us : Tokens) : current (ts ++ us) = ts.current := by
  cases ts with
  | nil => exact absurd rfl h
  | cons t ts => rfl

/-- What is appended to a list of tokens is looked at only where the list has ended. -/
theorem current_append_of {P : Token → Prop} (hts : P ts.current) (hus : ts = [] → P us.current) :
    P (current (ts ++ us)) := by
  cases ts with
  | nil => exact hus rfl
  | cons t ts => exact hts

/-- If anything has been taken of `ts` to leave `rest`, the last of it is no `;`. -/
def PlainEnd (ts rest : Tokens) : Prop := ∀ s : Token, s :: rest <:+ ts → s.kind ≠ .semicolon

theorem plainEnd_refl (ts : Tokens) : PlainEnd ts ts := by
  intro s hs
  exact absurd hs.length_le (Nat.not_succ_le_self _)

theorem plainEnd_cons (ht : t.kind ≠ .semicolon) : PlainEnd (t :: rest) rest := by
  intro s hs
  obtain ⟨rfl, -⟩ := List.cons.inj (hs.eq_of_length rfl)
  exact ht

/-- If anything has been taken last, only that counts. -/
theorem PlainEnd.of_lt (hus : PlainEnd us rest) (hlength : rest.length < us.length)
    (hsuffix : us <:+ ts) : PlainEnd ts rest :=
  fun s hs => hus s (List.suffix_of_suffix_length_le hs hsuffix hlength)

theorem PlainEnd.trans (hts : PlainEnd ts us) (hus : PlainEnd us rest) (hsuffix : us <:+ ts)
    (hrest : rest <:+ us) : PlainEnd ts rest := by
  by_cases hlength : rest.length < us.length
  · exact hus.of_lt hlength hsuffix
  · obtain rfl := hrest.eq_of_length_le (Nat.le_of_not_lt hlength)
    exact hts

theorem dropSemicolon_of_eq_nil (h : ts = []) : ts.dropSemicolon = [] := by
  rw [h]
  rfl

/-- What is skipped behind a statement is so with more tokens behind it. -/
theorem dropSemicolon_append (hclose : ts = [] → us.current.kind ≠ .semicolon) :
    dropSemicolon (ts ++ us) = ts.dropSemicolon ++ us := by
  cases ts with
  | nil => exact if_neg (hclose rfl)
  | cons t ts =>
    unfold dropSemicolon
    rw [List.cons_append, current_cons, current_cons]
    split <;> rfl

/-- The last token is a `;`. -/
def Ended (ts : Tokens) : Prop := ∃ s : Token, s.kind = .semicolon ∧ [s] <:+ ts

theorem Ended.of_suffix (h : ts.Ended) (hrest : rest <:+ ts) (hne : rest ≠ []) : rest.Ended := by
  obtain ⟨s, hs, hlast⟩ := h
  exact ⟨s, hs, List.suffix_of_suffix_length_le hlast hrest (List.length_pos_iff.2 hne)⟩

end Tokens

namespace Reads

open Grammar Tokens

variable {g : Grammar} {φ : Phrase} {n : Nat} {ts rest us : Tokens}

/-- The statements of a block take at least the brace that closes it. -/
theorem length_lt_of_statements {ss : List Stmt} (h : Reads g (.statements ss) n ts rest) :
    rest.length < ts.length := by
  cases h with
  | noStatements => exact Nat.lt_succ_self _
  | moreStatements _ _ hs hss =>
    exact Nat.lt_of_le_of_lt hss.suffix.length_le hs.length_lt_of_statement

/-- No phrase but a statement ends in a `;`. -/
theorem plainEnd (hg : g.prefixRule .semicolon = none) (h : Reads g φ n ts rest)
    (hφ : ∀ s, φ ≠ .statement s) : PlainEnd ts rest := by
  have hfirst {t : Token} {rule : PrefixRule} (h : g.prefixRule t.kind = some rule) :
      t.kind ≠ .semicolon := by
    intro hsemicolon
    rw [hsemicolon, hg] at h
    cases h
  have hkind {t : Token} {kind : Kind} (h : t.kind = kind) (hne : kind ≠ .semicolon) :
      t.kind ≠ .semicolon := h ▸ hne
  -- only the part counts that takes tokens last
  induction h with
  | identifier hrule | integer hrule | boolean hrule => exact plainEnd_cons (hfirst hrule)
  | prefixOp _ h ih | someAlternative _ h ih =>
    exact (ih nofun).of_lt h.length_lt_of_expr (List.suffix_cons _ _)
  | grouping _ h hclose _ =>
    refine (plainEnd_cons (hkind hclose (by decide))).of_lt (Nat.lt_succ_self _) ?_
    exact h.suffix.trans (List.suffix_cons _ _)
  | block _ h ih => exact (ih nofun).of_lt h.length_lt_of_statements (List.suffix_cons _ _)
  | conditional _ hc hk ha _ ihk iha =>
    exact ((ihk nofun).of_lt hk.length_lt_of_expr (hc.suffix.trans (List.suffix_cons _ _))).trans
      (iha nofun) (hk.suffix.trans (hc.suffix.trans (List.suffix_cons _ _))) ha.suffix
  | function _ _ hp hb _ ihb =>
    exact (ihb nofun).of_lt hb.length_lt_of_expr (hp.suffix.trans ⟨[_, _], rfl⟩)
  | noAlternative | stop => exact plainEnd_refl _
  | lastName hname _ => exact plainEnd_cons (hkind hname (by decide))
  | @moreNames t c ts _ _ _ hcomma h ih =>
    have hlist : PlainEnd (t :: c :: ts) ts := (plainEnd_cons (hkind hcomma (by decide))).of_lt
      (Nat.lt_succ_self _) (List.suffix_cons _ _)
    exact hlist.trans (ih nofun) ⟨[t, c], rfl⟩ h.suffix
  | noParameters hclose | noArguments hclose | noStatements hclose =>
    exact plainEnd_cons (hkind hclose (by decide))
  | someParameters h hclose _ | someArguments _ h hclose _ =>
    exact (plainEnd_cons (hkind hclose (by decide))).of_lt (Nat.lt_succ_self _) h.suffix
  | lastValue _ _ ih => exact ih nofun
  | moreValues he hcomma hes _ ihes =>
    have hlist := (plainEnd_cons (hkind hcomma (by decide))).of_lt (Nat.lt_succ_self _) he.suffix
    exact hlist.trans (ihes nofun) ((List.suffix_cons _ _).trans he.suffix) hes.suffix
  | infixOp _ hr hm ihr ihm =>
    exact ((ihr nofun).of_lt hr.length_lt_of_expr (List.suffix_cons _ _)).trans (ihm nofun)
      (hr.suffix.trans (List.suffix_cons _ _)) hm.suffix
  | call hgoes ha hm iha ihm =>
    have hopen := (plainEnd_cons (ne_semicolon_of_continuesAt hgoes)).trans (iha nofun)
      (List.suffix_cons _ _) ha.suffix
    exact hopen.trans (ihm nofun) (ha.suffix.trans (List.suffix_cons _ _)) hm.suffix
  | expr hs hm ihs ihm => exact (ihs nofun).trans (ihm nofun) hs.suffix hm.suffix
  | letBinding | returnValue | expression => exact absurd rfl (hφ _)
  | moreStatements _ _ hs hss _ ihss =>
    exact (ihss nofun).of_lt hss.length_lt_of_statements hs.suffix

/-! ### Appending -/

/-- An expression starts at a token. -/
theorem ne_nil_of_expr {power : BindingPower} {e : Expr} (h : Reads g (.expr power e) n ts rest) :
    ts ≠ [] := by
  rintro rfl
  exact Nat.not_lt_zero _ h.length_lt_of_expr

/-- Where there are no tokens none are left. -/
theorem eq_nil (h : Reads g φ n ts rest) (hts : ts = []) : rest = [] := by
  have hrest := h.suffix
  rw [hts] at hrest
  exact List.suffix_nil.1 hrest

/-- **A phrase is read with more tokens behind it**, if it has not looked past its own or
does not go on with the first of them. -/
theorem append (h : Reads g φ n ts rest) (hclose : rest = [] → g.Closes us.current) :
    Reads g φ n (ts ++ us) (rest ++ us) := by
  -- what stands behind the tokens counts for the part that is taken last; the parts before it
  -- have tokens behind them
  induction h with
  | identifier hrule => exact .identifier hrule
  | integer hrule hvalue => exact .integer hrule hvalue
  | boolean hrule => exact .boolean hrule
  | prefixOp hrule _ ih => exact .prefixOp hrule (ih hclose)
  | grouping hrule _ hparen ih => exact .grouping hrule (ih nofun) hparen
  | block hrule _ ih => exact .block hrule (ih hclose)
  | conditional hrule _ hk ha ihc ihk iha =>
    exact .conditional hrule (ihc fun h => absurd h hk.ne_nil_of_expr)
      (ihk fun h => hclose (ha.eq_nil h)) (iha hclose)
  | function hrule hopen _ hb ihp ihb =>
    exact .function hrule hopen (ihp fun h => absurd h hb.ne_nil_of_expr) (ihb hclose)
  | noAlternative hahead =>
    exact .noAlternative (current_append_of (P := fun t => t.kind ≠ .kwElse) hahead
      fun h => (hclose h).ne_else)
  | someAlternative hword _ ih => exact .someAlternative hword (ih hclose)
  | lastName hname hahead =>
    exact .lastName hname (current_append_of (P := fun t => t.kind ≠ .comma) hahead
      fun h => (hclose h).ne_comma)
  | moreNames hname hcomma _ ih => exact .moreNames hname hcomma (ih hclose)
  | noParameters hparen => exact .noParameters hparen
  | someParameters _ hparen ih => exact .someParameters (ih nofun) hparen
  | lastValue _ hahead ih =>
    exact .lastValue (ih hclose) (current_append_of (P := fun t => t.kind ≠ .comma) hahead
      fun h => (hclose h).ne_comma)
  | moreValues _ hcomma _ ihe ihes => exact .moreValues (ihe nofun) hcomma (ihes hclose)
  | noArguments hparen => exact .noArguments hparen
  | someArguments hfirst h hparen ih =>
    refine .someArguments ?_ (ih nofun) hparen
    rwa [current_append_of_ne_nil (List.ne_nil_of_mem (h.suffix.subset List.mem_cons_self))]
  | stop hstop =>
    exact .stop (current_append_of (P := fun t => g.continuesAt? _ t = none) hstop
      fun h => (hclose h).continuesAt? _)
  | infixOp hgoes _ hm ihr ihm =>
    exact .infixOp hgoes (ihr fun h => hclose (hm.eq_nil h)) (ihm hclose)
  | call hgoes _ hm iha ihm =>
    exact .call hgoes (iha fun h => hclose (hm.eq_nil h)) (ihm hclose)
  | expr _ hm ihs ihm =>
    exact .expr (ihs fun h => hclose (hm.eq_nil h)) (ihm hclose)
  | letBinding hrule hname hassign _ ih =>
    -- a statement without a `;` ends where its value does
    have hvalue := fun hnil => hclose (dropSemicolon_of_eq_nil hnil)
    rw [← dropSemicolon_append fun hnil => (hvalue hnil).ne_semicolon]
    exact .letBinding hrule hname hassign (ih hvalue)
  | returnValue hrule _ ih =>
    have hvalue := fun hnil => hclose (dropSemicolon_of_eq_nil hnil)
    rw [← dropSemicolon_append fun hnil => (hvalue hnil).ne_semicolon]
    exact .returnValue hrule (ih hvalue)
  | expression hrule _ ih =>
    have hvalue := fun hnil => hclose (dropSemicolon_of_eq_nil hnil)
    rw [← dropSemicolon_append fun hnil => (hvalue hnil).ne_semicolon]
    exact .expression hrule (ih hvalue)
  | noStatements hbrace => exact .noStatements hbrace
  | moreStatements hbrace heof _ hss ihs ihss =>
    have hcurrent := current_append_of_ne_nil (ne_nil_of_current_kind heof) us
    refine .moreStatements (by rwa [hcurrent]) (by rwa [hcurrent]) (ihs ?_) (ihss hclose)
    rintro rfl
    exact absurd hss.length_lt_of_statements (Nat.not_lt_zero _)

/-- A statement up to the end of the tokens is read with more behind it as well if it ends in
a `;`: an expression does not, so that the `;` is the one that ends the statement. -/
theorem append_statement (hg : g.prefixRule .semicolon = none) {s : Stmt}
    (h : Reads g (.statement s) n ts rest)
    (hclose : rest = [] → ts.Ended ∨ g.Closes us.current) :
    Reads g (.statement s) n (ts ++ us) (rest ++ us) := by
  have hvalue {v : Expr} {n : Nat} {vs ws : Tokens} (hv : Reads g (.expr .lowest v) n vs ws)
      (hvs : vs <:+ ts) (hws : ws.dropSemicolon = rest) (hnil : ws = []) :
      g.Closes us.current := by
    subst hnil hws
    refine (hclose rfl).resolve_left fun hended => ?_
    obtain ⟨s, hs, hlast⟩ := hended.of_suffix hvs hv.ne_nil_of_expr
    exact hv.plainEnd hg nofun s hlast hs
  cases h with
  | @letBinding t x a _ _ _ _ hrule hname hassign h =>
    have hclose := hvalue h ⟨[t, x, a], rfl⟩ rfl
    rw [← dropSemicolon_append fun hnil => (hclose hnil).ne_semicolon]
    exact .letBinding hrule hname hassign (h.append hclose)
  | returnValue hrule h =>
    have hclose := hvalue h (List.suffix_cons _ _) rfl
    rw [← dropSemicolon_append fun hnil => (hclose hnil).ne_semicolon]
    exact .returnValue hrule (h.append hclose)
  | expression hrule h =>
    have hclose := hvalue h (List.suffix_refl _) rfl
    rw [← dropSemicolon_append fun hnil => (hclose hnil).ne_semicolon]
    exact .expression hrule (h.append hclose)

end Reads

end Script
