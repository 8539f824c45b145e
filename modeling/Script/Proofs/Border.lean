import Script.Proofs.Phrase.Extension
import Script.Proofs.Rounds

/-!
# Up to a border

A `;`, a `let`, a `return` and the end of the source have in common that no expression starts
or goes on there and that nothing is closed by them.  In front of such a border, a text that
closes every block it opens is read without looking past it: whatever stands behind makes no
difference to what is read and to where it is given up.

The level is the number of blocks that are open.  As long as there is one, the text has a
brace left to close it, so that recovery inside of blocks stays inside of the text.

## Main definitions

* `Tokens.Closed` — the tokens close the blocks that are open, and those that they open.
* `Tokens.Border` — the two ways in which a text goes on are alike at their first tokens.
* `Tokens.Reached`, `Tokens.Over` — the states in which an expression and a statement end.
* `Reply.Bordered` — two replies on a text with different tokens behind it agree.

## Main results

* `Tokens.Closed.recover_append` — recovery in a block stays in the text.
* `Reply.Bordered.bind` — agreement is kept by sequencing.
* `Step.bordered_collectWhile`, `Step.bordered_fold` — and by the loops.
-/

namespace Script

/-- The kinds of token with which no expression starts or goes on, and which close nothing. -/
def Kind.borders : List Kind := [.eof, .semicolon, .kwLet, .kwReturn]

/-- The kinds that open or close blocks, and those of borders. -/
def Kind.delimiters : List Kind := .lbrace :: .rbrace :: borders

theorem Kind.standard_of_mem_borders {kind : Kind} (h : kind ∈ borders) :
    Grammar.standard.prefixRule kind = none ∧ Grammar.standard.continuation kind = none := by
  simp only [borders, List.mem_cons, List.not_mem_nil, or_false] at h
  rcases h with rfl | rfl | rfl | rfl <;> exact ⟨rfl, rfl⟩

/-! ### Blocks that are open -/

namespace Tokens

/-- With so many blocks open, the tokens close all of them, and all that they open on the way.
A closing brace is passed over where no block is open. -/
def Closed : Nat → Tokens → Prop
  | level, [] => level = 0
  | level, t :: ts =>
    if t.kind = .lbrace then Closed (level + 1) ts
    else if t.kind = .rbrace then Closed (level - 1) ts
    else Closed level ts

variable {level : Nat} {t : Token} {ts us rest : Tokens}

theorem closed_lbrace (h : t.kind = .lbrace) : Closed level (t :: ts) ↔ Closed (level + 1) ts := by
  rw [Closed, if_pos h]

theorem closed_rbrace (h : t.kind = .rbrace) : Closed level (t :: ts) ↔ Closed (level - 1) ts := by
  have hopen : t.kind ≠ .lbrace := by
    rw [h]
    decide
  rw [Closed, if_neg hopen, if_pos h]

theorem closed_cons (hopen : t.kind ≠ .lbrace) (hclose : t.kind ≠ .rbrace) :
    Closed level (t :: ts) ↔ Closed level ts := by
  rw [Closed, if_neg hopen, if_neg hclose]

/-- Braces that close more blocks than are open do no harm. -/
theorem Closed.of_succ (h : Closed (level + 1) ts) : Closed level ts := by
  induction ts generalizing level with
  | nil => exact absurd h (Nat.succ_ne_zero level)
  | cons t ts ih =>
    by_cases hopen : t.kind = .lbrace
    · rw [closed_lbrace hopen] at h ⊢
      exact ih h
    · by_cases hclose : t.kind = .rbrace
      · rw [closed_rbrace hclose] at h ⊢
        cases level with
        | zero => exact h
        | succ level => exact ih h
      · rw [closed_cons hopen hclose] at h ⊢
        exact ih h

theorem Closed.ne_nil (h : Closed (level + 1) ts) : ts ≠ [] := by
  rintro rfl
  exact absurd h (Nat.succ_ne_zero level)

/-- What stands behind the current token closes as many blocks, unless the token has closed
one. -/
theorem Closed.tail (h : Closed level ts) (hclose : ts.current.kind ≠ .rbrace) :
    Closed level ts.tail := by
  cases ts with
  | nil => exact h
  | cons t ts =>
    by_cases hopen : t.kind = .lbrace
    · exact ((closed_lbrace hopen).1 h).of_succ
    · exact (closed_cons hopen hclose).1 h

/-- Outside of blocks, what is left of a text is a text. -/
theorem Closed.of_suffix (h : Closed 0 ts) (hrest : rest <:+ ts) : Closed 0 rest := by
  induction ts with
  | nil => rwa [List.suffix_nil.1 hrest]
  | cons t ts ih =>
    rcases List.suffix_cons_iff.1 hrest with rfl | hrest
    · exact h
    · refine ih ?_ hrest
      by_cases hclose : t.kind = .rbrace
      · exact (closed_rbrace hclose).1 h
      · exact h.tail hclose

/-- A text without blocks leaves none open. -/
theorem closed_of_ne_lbrace (h : ∀ t ∈ ts, t.kind ≠ .lbrace) : Closed 0 ts := by
  induction ts with
  | nil => rfl
  | cons t ts ih =>
    rw [List.forall_mem_cons] at h
    by_cases hclose : t.kind = .rbrace
    · exact (closed_rbrace hclose).2 (ih h.2)
    · exact (closed_cons h.1 hclose).2 (ih h.2)

theorem tail_append (h : ts ≠ []) (us : Tokens) : (ts ++ us).tail = ts.tail ++ us := by
  cases ts with
  | nil => exact absurd rfl h
  | cons t ts => rfl

theorem peek_append (h : ts.tail ≠ []) (us : Tokens) : peek (ts ++ us) = ts.peek := by
  have hne : ts ≠ [] := by
    rintro rfl
    exact h rfl
  rw [peek, tail_append hne, current_append_of_ne_nil h]
  rfl

/-- Behind the last token of a text stands what follows it. -/
theorem peek_append_last (h : ts ≠ []) (htail : ts.tail = []) (us : Tokens) :
    peek (ts ++ us) = us.current := by
  rw [peek, tail_append h, htail, List.nil_append]

/-- Inside of a block, recovery ends in the text, and the text still closes the block. -/
theorem Closed.recover_append (h : Closed (level + 1) ts) (us : Tokens) :
    recover true (ts ++ us) = recover true ts ++ us ∧ Closed (level + 1) (recover true ts) := by
  induction ts with
  | nil => exact absurd rfl h.ne_nil
  | cons t ts ih =>
    rw [List.cons_append, recover, recover]
    by_cases hclose : t.kind = .rbrace
    · have hstop : (true && t.kind = .rbrace) = true := by simp [hclose]
      rw [if_pos hstop, if_pos hstop]
      exact ⟨rfl, h⟩
    · have hgo : ¬(true && t.kind = .rbrace) = true := by simp [hclose]
      have htail : Closed (level + 1) ts := h.tail hclose
      rw [if_neg hgo, if_neg hgo, current_append_of_ne_nil htail.ne_nil]
      split
      · exact ⟨rfl, htail⟩
      · split
        · exact ⟨rfl, htail⟩
        · exact ih htail

/-! ### Borders and states -/

/-- Both kinds of tokens start with a border, a `;` if the other one does. -/
structure Border (us₁ us₂ : Tokens) : Prop where
  /-- The first one is a border. -/
  first : us₁.current.kind ∈ Kind.borders
  /-- So is the second one. -/
  second : us₂.current.kind ∈ Kind.borders
  /-- Statements take the `;` with them. -/
  semicolon : us₁.current.kind = .semicolon ↔ us₂.current.kind = .semicolon

/-- An expression has been read up to the current token, and what is behind it closes the
blocks. -/
structure Reached (level : Nat) (ts : Tokens) : Prop where
  /-- The current token is one of the text. -/
  ne_nil : ts ≠ []
  /-- The blocks are closed from here, -/
  closed : Closed level ts
  /-- and from the next token on. -/
  tail : Closed level ts.tail

/-- A statement has been read up to the current token, which is one of the text or, outside of
blocks, the `;` behind it. -/
def Over (us : Tokens) (level : Nat) (ts : Tokens) : Prop :=
  Reached level ts ∨ ts = [] ∧ level = 0 ∧ us.current.kind = .semicolon

theorem Closed.reached (h : Closed level ts) (hne : ts ≠ []) (hclose : ts.current.kind ≠ .rbrace) :
    Reached level ts :=
  ⟨hne, h, h.tail hclose⟩

/-- A token ahead that is no delimiter is one of the text, and can be moved to. -/
theorem Reached.tail_reached (h : Reached level ts) (htail : ts.tail ≠ [])
    (hpeek : ts.peek.kind ≠ .rbrace) : Reached level ts.tail :=
  h.tail.reached htail hpeek

/-- A token ahead is no delimiter if and only if it is one of the text that is none, since a
border is one. -/
theorem Reached.peek_append_iff (h : Reached level ts) {kind : Kind}
    (hkind : kind ∉ Kind.delimiters) (hus : us.current.kind ∈ Kind.borders) :
    (peek (ts ++ us)).kind = kind ↔ Reached level ts.tail ∧ ts.peek.kind = kind := by
  by_cases htail : ts.tail = []
  · rw [peek_append_last h.ne_nil htail]
    constructor
    · rintro rfl
      exact absurd (List.mem_cons_of_mem _ (List.mem_cons_of_mem _ hus)) hkind
    · exact fun hreached => absurd htail hreached.1.ne_nil
  · rw [peek_append htail]
    refine ⟨fun hpeek => ⟨h.tail_reached htail ?_, hpeek⟩, And.right⟩
    rw [hpeek]
    rintro rfl
    exact hkind (by decide)

/-- There is no token of the text behind the current one only if no block is open. -/
theorem Reached.eq_zero (h : Reached level ts) (htail : ts.tail = []) : level = 0 := by
  have hclosed := h.tail
  rwa [htail] at hclosed

end Tokens

/-! ### Replies in front of a border -/

open Tokens

/-- The second diagnostic is the first one, except that it may be about the border.  If the
border has been moved to, then it is, and nothing else had been expected there. -/
structure Diagnostic.Bordered (us₁ us₂ : Tokens) (level : Nat) (rest : Tokens)
    (d₁ d₂ : Diagnostic) : Prop where
  /-- They agree in a block, and if the borders do. -/
  eq : level ≠ 0 ∨ us₁.current = us₂.current → d₁ = d₂
  /-- They are about the border if there is nothing left in front of it. -/
  atEnd : rest = [] → d₂.token = us₂.current ∧
    ∀ expected found, d₂.fault ≠ .unexpectedToken expected found

namespace Reply

variable {α β : Type} {us₁ us₂ ts : Tokens} {loose : Prop} {level : Nat}
  {post : α → Tokens → Prop} {post' : β → Tokens → Prop}

/-- Two replies of a step on a text, one with `us₁` behind it and one with `us₂`: both have
read the same value or failed at the same token, and recorded the same.  If they are compared
loosely, the first one may have been nested too deeply instead. -/
inductive Bordered (us₁ us₂ : Tokens) (loose : Prop) (level : Nat) (post : α → Tokens → Prop) :
    Reply α → Reply α → Prop where
  /-- Both have read the value. -/
  | ok {value : α} {rest : Tokens} {log : List Diagnostic} (hrest : post value rest) :
      Bordered us₁ us₂ loose level post (.ok value (rest ++ us₁) log) (.ok value (rest ++ us₂) log)
  /-- Both have failed. -/
  | fail {d₁ d₂ : Diagnostic} {rest : Tokens} {log : List Diagnostic} (hrest : Closed level rest)
      (hdiagnostic : Diagnostic.Bordered us₁ us₂ level rest d₁ d₂) :
      Bordered us₁ us₂ loose level post (.fail d₁ (rest ++ us₁) log) (.fail d₂ (rest ++ us₂) log)
  /-- The first one is nested too deeply. -/
  | tooDeep {diagnostic : Diagnostic} {rest : Tokens} {log : List Diagnostic} {reply : Reply α}
      (hloose : loose) (hnesting : diagnostic.fault.isNesting = true) :
      Bordered us₁ us₂ loose level post (.fail diagnostic rest log) reply

/-- An expression has been read in both of them, or neither. -/
abbrev Reaches (us₁ us₂ : Tokens) (loose : Prop) (level : Nat) : Reply α → Reply α → Prop :=
  Bordered us₁ us₂ loose level fun _ => Reached level

theorem Bordered.after {reply₁ reply₂ : Reply α}
    (h : Bordered us₁ us₂ loose level post reply₁ reply₂) (log : List Diagnostic) :
    Bordered us₁ us₂ loose level post (reply₁.after log) (reply₂.after log) := by
  cases h with
  | ok hrest => exact .ok hrest
  | fail hrest hdiagnostic => exact .fail hrest hdiagnostic
  | tooDeep hloose hnesting => exact .tooDeep hloose hnesting

/-- One step after another: the second ones start where the first ones have stopped. -/
theorem Bordered.bind_of_eq {first₁ first₂ : Step α} {second₁ second₂ : α → Step β}
    {in₁ in₂ : Tokens} (hfirst : Bordered us₁ us₂ loose level post (first₁ in₁) (first₂ in₂))
    (hsecond : ∀ value rest log, first₂ in₂ = .ok value (rest ++ us₂) log → post value rest →
      Bordered us₁ us₂ loose level post' (second₁ value (rest ++ us₁))
        (second₂ value (rest ++ us₂))) :
    Bordered us₁ us₂ loose level post' ((first₁ >>= second₁) in₁) ((first₂ >>= second₂) in₂) := by
  rw [Step.bind_apply, Step.bind_apply]
  generalize first₁ in₁ = reply₁ at hfirst
  generalize first₂ in₂ = reply₂ at hfirst hsecond
  cases hfirst with
  | ok hrest => exact (hsecond _ _ _ rfl hrest).after _
  | fail hrest hdiagnostic => exact .fail hrest hdiagnostic
  | tooDeep hloose hnesting => exact .tooDeep hloose hnesting

theorem Bordered.bind {first₁ first₂ : Step α} {second₁ second₂ : α → Step β} {in₁ in₂ : Tokens}
    (hfirst : Bordered us₁ us₂ loose level post (first₁ in₁) (first₂ in₂))
    (hsecond : ∀ value rest, post value rest →
      Bordered us₁ us₂ loose level post' (second₁ value (rest ++ us₁))
        (second₂ value (rest ++ us₂))) :
    Bordered us₁ us₂ loose level post' ((first₁ >>= second₁) in₁) ((first₂ >>= second₂) in₂) :=
  hfirst.bind_of_eq fun value rest _ _ => hsecond value rest

theorem Bordered.pure {value : α} (hts : post value ts) :
    Bordered us₁ us₂ loose level post ((pure value : Step α) (ts ++ us₁))
      ((Pure.pure value : Step α) (ts ++ us₂)) :=
  .ok hts

end Reply

section

open Reply

variable {α β : Type} {us₁ us₂ ts : Tokens} {loose : Prop} {level : Nat}
  {post : β → Tokens → Prop}

/-! ### Single moves -/

namespace Step

theorem bordered_current (hts : ts ≠ []) {second₁ second₂ : Token → Step β}
    (h : Bordered us₁ us₂ loose level post (second₁ ts.current (ts ++ us₁))
      (second₂ ts.current (ts ++ us₂))) :
    Bordered us₁ us₂ loose level post ((current >>= second₁) (ts ++ us₁))
      ((current >>= second₂) (ts ++ us₂)) := by
  rw [current_bind, current_bind, current_append_of_ne_nil hts, current_append_of_ne_nil hts]
  exact h

theorem bordered_advance (hts : ts ≠ []) {second₁ second₂ : Token → Step β}
    (h : Bordered us₁ us₂ loose level post (second₁ ts.current (ts.tail ++ us₁))
      (second₂ ts.current (ts.tail ++ us₂))) :
    Bordered us₁ us₂ loose level post ((advance >>= second₁) (ts ++ us₁))
      ((advance >>= second₂) (ts ++ us₂)) := by
  rw [advance_bind, advance_bind, current_append_of_ne_nil hts, current_append_of_ne_nil hts,
    tail_append hts, tail_append hts]
  exact h

/-- A step that goes on at a token ahead that is no delimiter, and otherwise stays, does the
same in both. -/
theorem bordered_peek (hborder : Border us₁ us₂) (hts : Reached level ts) {kind : Kind}
    (hkind : kind ∉ Kind.delimiters) {yes₁ yes₂ no₁ no₂ : Step β}
    (hyes : Reached level ts.tail →
      Bordered us₁ us₂ loose level post (yes₁ (ts ++ us₁)) (yes₂ (ts ++ us₂)))
    (hno : Bordered us₁ us₂ loose level post (no₁ (ts ++ us₁)) (no₂ (ts ++ us₂))) :
    Bordered us₁ us₂ loose level post
      ((peek >>= fun ahead => if ahead.kind = kind then yes₁ else no₁) (ts ++ us₁))
      ((peek >>= fun ahead => if ahead.kind = kind then yes₂ else no₂) (ts ++ us₂)) := by
  rw [peek_bind, peek_bind]
  by_cases hahead : Reached level ts.tail ∧ ts.peek.kind = kind
  · rw [if_pos ((hts.peek_append_iff hkind hborder.first).2 hahead),
      if_pos ((hts.peek_append_iff hkind hborder.second).2 hahead)]
    exact hyes hahead.1
  · rw [if_neg fun h => hahead ((hts.peek_append_iff hkind hborder.first).1 h),
      if_neg fun h => hahead ((hts.peek_append_iff hkind hborder.second).1 h)]
    exact hno

theorem bordered_expect (hborder : Border us₁ us₂) (hts : Reached level ts) {kind : Kind}
    (hkind : kind ∉ Kind.delimiters) :
    Reaches us₁ us₂ loose level (expect kind (ts ++ us₁)) (expect kind (ts ++ us₂)) := by
  rw [expect_apply, expect_apply]
  by_cases hahead : Reached level ts.tail ∧ ts.peek.kind = kind
  · rw [if_pos ((hts.peek_append_iff hkind hborder.first).2 hahead),
      if_pos ((hts.peek_append_iff hkind hborder.second).2 hahead)]
    rw [peek_append hahead.1.ne_nil, peek_append hahead.1.ne_nil, tail_append hts.ne_nil,
      tail_append hts.ne_nil]
    exact .ok hahead.1
  · rw [if_neg fun h => hahead ((hts.peek_append_iff hkind hborder.first).1 h),
      if_neg fun h => hahead ((hts.peek_append_iff hkind hborder.second).1 h)]
    refine .fail hts.closed ⟨fun hsame => ?_, fun hnil => absurd hnil hts.ne_nil⟩
    -- in a block there is a token of the text ahead, and without one the borders agree
    by_cases htail : ts.tail = []
    · have hlevel : level = 0 := hts.eq_zero htail
      rw [peek_append_last hts.ne_nil htail, peek_append_last hts.ne_nil htail,
        hsame.resolve_left (not_not_intro hlevel)]
    · rw [peek_append htail, peek_append htail]

/-- A `;` behind the text belongs to the statement in front of it. -/
theorem bordered_skipSemicolon (hborder : Border us₁ us₂) (hts : Reached level ts) (value : α) :
    Bordered us₁ us₂ loose level (fun _ => Over us₁ level)
      ((skipSemicolon >>= fun _ => (pure value : Step α)) (ts ++ us₁))
      ((skipSemicolon >>= fun _ => (pure value : Step α)) (ts ++ us₂)) := by
  suffices h : Bordered us₁ us₂ loose level (fun _ => Over us₁ level) (skipSemicolon (ts ++ us₁))
      (skipSemicolon (ts ++ us₂)) from h.bind fun _ rest hrest => .pure hrest
  rw [skipSemicolon_apply, skipSemicolon_apply, tail_append hts.ne_nil, tail_append hts.ne_nil]
  by_cases htail : ts.tail = []
  · have hlevel : level = 0 := hts.eq_zero htail
    rw [peek_append_last hts.ne_nil htail, peek_append_last hts.ne_nil htail, htail]
    by_cases hsemicolon : us₁.current.kind = .semicolon
    · rw [if_pos hsemicolon, if_pos (hborder.semicolon.1 hsemicolon)]
      exact .ok (.inr ⟨rfl, hlevel, hsemicolon⟩)
    · rw [if_neg hsemicolon, if_neg fun h => hsemicolon (hborder.semicolon.2 h)]
      exact .ok (.inl hts)
  · rw [peek_append htail, peek_append htail]
    by_cases hsemicolon : ts.peek.kind = .semicolon
    · rw [if_pos hsemicolon, if_pos hsemicolon]
      exact .ok (.inl (hts.tail_reached htail (by rw [hsemicolon]; decide)))
    · rw [if_neg hsemicolon, if_neg hsemicolon]
      exact .ok (.inl hts)

/-- A fault at the current token is the same in both, unless the current token is the
border. -/
theorem bordered_reject (hts : Closed level ts) {cause₁ cause₂ : Fault}
    (hcause : Tokens.current (ts ++ us₁) = Tokens.current (ts ++ us₂) → cause₁ = cause₂)
    (hexpected : ∀ expected found, cause₂ ≠ .unexpectedToken expected found) :
    Bordered us₁ us₂ loose level post ((reject cause₁ : Step β) (ts ++ us₁))
      ((reject cause₂ : Step β) (ts ++ us₂)) := by
  rw [reject_apply, reject_apply]
  refine .fail hts ⟨fun hsame => ?_, ?_⟩
  · have hcurrent : Tokens.current (ts ++ us₁) = Tokens.current (ts ++ us₂) := by
      by_cases hnil : ts = []
      · subst hnil
        exact hsame.resolve_left (not_not_intro hts)
      · rw [current_append_of_ne_nil hnil, current_append_of_ne_nil hnil]
    rw [hcause hcurrent, hcurrent]
  · rintro rfl
    exact ⟨rfl, hexpected⟩

/-! ### Loops -/

/-- A round that goes on has taken a token of the text, so that there are enough rounds for
the text on both sides. -/
theorem length_lt_of_append {round : Step α} {goesOn : α → Prop} (h : round.Progresses goesOn)
    {rest : Tokens} {value : α} {log : List Diagnostic}
    (hround : round (ts ++ us₂) = .ok value (rest ++ us₂) log) (hgoes : goesOn value) :
    rest.length < ts.length := by
  have hlt := h.length_lt hround hgoes
  rw [List.length_append, List.length_append] at hlt
  omega

/-- A bounded loop takes as many rounds as the text needs. -/
theorem length_lt_length_append (us : Tokens) : ts.length < (ts ++ us).length + 1 := by
  rw [List.length_append]
  omega

theorem bordered_collectWhile {round₁ round₂ : Step (α × Bool)}
    (hprogress : round₂.Progresses fun value => value.2 = true)
    (hround : ∀ ts, Reached level ts →
      Reaches us₁ us₂ loose level (round₁ (ts ++ us₁)) (round₂ (ts ++ us₂)))
    {n₁ n₂ : Nat} (hts : Reached level ts) (h₁ : ts.length < n₁) (h₂ : ts.length < n₂) :
    Reaches us₁ us₂ loose level (collectWhile round₁ n₁ (ts ++ us₁))
      (collectWhile round₂ n₂ (ts ++ us₂)) := by
  induction n₁ generalizing n₂ ts with
  | zero => omega
  | succ n₁ ih =>
    cases n₂ with
    | zero => omega
    | succ n₂ =>
      refine (hround ts hts).bind_of_eq fun ⟨value, more⟩ rest log heq hrest => ?_
      cases more with
      | false => exact .pure hrest
      | true =>
        have hlt := length_lt_of_append hprogress heq rfl
        exact (ih hrest (by omega) (by omega)).bind fun _ _ hrest => .pure hrest

theorem bordered_fold {round₁ round₂ : α → Step (Option α)}
    (hprogress : ∀ left, (round₂ left).Progresses fun next => next.isSome = true)
    (hround : ∀ left ts, Reached level ts →
      Reaches us₁ us₂ loose level (round₁ left (ts ++ us₁)) (round₂ left (ts ++ us₂)))
    {n₁ n₂ : Nat} (left : α) (hts : Reached level ts) (h₁ : ts.length < n₁)
    (h₂ : ts.length < n₂) :
    Reaches us₁ us₂ loose level (fold round₁ n₁ left (ts ++ us₁))
      (fold round₂ n₂ left (ts ++ us₂)) := by
  induction n₁ generalizing n₂ ts left with
  | zero => omega
  | succ n₁ ih =>
    cases n₂ with
    | zero => omega
    | succ n₂ =>
      refine (hround left ts hts).bind_of_eq fun next rest log heq hrest => ?_
      cases next with
      | none => exact .pure hrest
      | some value =>
        have hlt := length_lt_of_append (hprogress left) heq rfl
        exact ih value hrest (by omega) (by omega)

end Step

end

end Script
