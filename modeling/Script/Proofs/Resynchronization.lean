import Script.Proofs.Attempts
import Script.Proofs.Tables

/-!
# Where reading goes on

A statement that is given up is skipped up to a point where another one may start: behind a `;`,
which recovery consumes, or at a `let` or `return`, on which it stops.  A `let` that recovery has
stopped on may be the start of the next statement that is given up; but then recovery stops
further on.  So there is such a token between the starts of any two statements that are given up
one after the other, and none of them serves twice.  In a source without blocks nothing else is
reported than that statements are given up, and so what follows the first of them is reported no
more than once for each of these tokens.

## Main definitions

* `Law.quiet` — nothing is recorded where there is no brace.
* `Attempt.ResumesAt` — the token by which reading goes on behind a statement that is given up.
* `Separated` — there is such a token between any two attempts.

## Main results

* `Grammar.upholds_quiet` — without blocks, an attempt records only what it is given up over.
* `Attempt.exists_resumesAt` — recovery gets to a token that has not served yet.
* `Separated.exists_cons` — which separates an attempt from those behind it.
* `Attempts.exists_separated` — the attempts that are given up are separated.
* `parse_resynchronizes` — **one diagnostic, and one more at most for each of these tokens.**
-/

namespace Script

open Step

/-! ### Points of recovery -/

/-- The kinds of token by which reading goes on behind a statement that is given up. -/
def Kind.resuming : List Kind := [.semicolon, .kwLet, .kwReturn]

namespace Tokens

variable {all ts us : Tokens}

/-- Recovery stops right behind a `;`, at a `let` or `return` further on, or at the end. -/
theorem recover_cases (ts : Tokens) :
    (∃ t, t.kind = .semicolon ∧ t :: ts.recover false <:+ ts) ∨
      startsStatement (ts.recover false).current.kind = true ∧ ts.recover false <:+ ts.tail ∨
      ts.recover false = [] := by
  induction ts with
  | nil => exact .inr (.inr rfl)
  | cons t ts ih =>
    rw [recover, if_neg (by simp)]
    by_cases hsemicolon : t.kind = .semicolon
    · rw [if_pos hsemicolon]
      exact .inl ⟨t, hsemicolon, List.suffix_refl _⟩
    rw [if_neg hsemicolon]
    by_cases hstart : startsStatement (current ts).kind = true
    · rw [if_pos hstart]
      exact .inr (.inl ⟨hstart, List.suffix_refl ts⟩)
    rw [if_neg hstart]
    rcases ih with ⟨u, hu, hsuffix⟩ | ⟨hu, hsuffix⟩ | hnil
    · exact .inl ⟨u, hu, hsuffix.trans (List.suffix_cons t ts)⟩
    · exact .inr (.inl ⟨hu, hsuffix.trans (List.tail_suffix ts)⟩)
    · exact .inr (.inr hnil)

/-- The index of the first of the tokens that are left, among all tokens. -/
def index (all ts : Tokens) : ℕ := all.length - ts.length

/-- The index from which on a token has not served recovery yet: a `let` or `return` that one is
at may have. -/
def fresh (all ts : Tokens) : ℕ :=
  if startsStatement ts.current.kind then index all ts + 1 else index all ts

theorem index_le_fresh (all ts : Tokens) : index all ts ≤ fresh all ts := by
  unfold fresh
  split <;> omega

theorem fresh_le_index (all ts : Tokens) : fresh all ts ≤ index all ts + 1 := by
  unfold fresh
  split <;> omega

theorem fresh_of_startsStatement (h : startsStatement ts.current.kind = true) :
    fresh all ts = index all ts + 1 := if_pos h

theorem index_le_of_suffix (all : Tokens) (h : us <:+ ts) : index all ts ≤ index all us := by
  have hle := h.length_le
  unfold index
  omega

theorem index_lt_of_length_lt (hts : ts <:+ all) (h : us.length < ts.length) :
    index all ts < index all us := by
  have hle := hts.length_le
  unfold index
  omega

theorem fresh_le_of_length_lt (hts : ts <:+ all) (h : us.length < ts.length) :
    fresh all ts ≤ fresh all us :=
  Nat.le_trans (fresh_le_index all ts)
    (Nat.le_trans (index_lt_of_length_lt hts h) (index_le_fresh all us))

/-- Where no statement starts, a token has not served. -/
theorem fresh_le_index_of_suffix (hts : ts <:+ all) (h : us <:+ ts)
    (hstart : startsStatement us.current.kind = false) : fresh all ts ≤ index all us := by
  by_cases heq : us = ts
  · rw [heq] at hstart ⊢
    rw [fresh, if_neg (by rw [hstart]; decide)]
  · have hlt : us.length < ts.length :=
      Nat.lt_of_le_of_ne h.length_le fun hlen => heq (h.eq_of_length hlen)
    exact Nat.le_trans (fresh_le_index all ts) (index_lt_of_length_lt hts hlt)

/-- The token that is left first, by its index. -/
theorem exists_index {t : Token} (h : t :: ts <:+ all) :
    ∃ i : Fin all.length, (i : ℕ) = index all (t :: ts) ∧ all[i] = t ∧
      all.drop i = t :: ts ∧ all.drop (i + 1) = ts := by
  have hdrop := List.suffix_iff_eq_drop.1 h
  have hlt : index all (t :: ts) < all.length := by
    have hle := h.length_le
    unfold index
    rw [List.length_cons] at hle ⊢
    omega
  have hcons := hdrop
  rw [List.drop_eq_getElem_cons (show all.length - (t :: ts).length < all.length from hlt)] at hcons
  obtain ⟨ht, hts⟩ := List.cons.inj hcons
  exact ⟨⟨index all (t :: ts), hlt⟩, rfl, ht.symm, hdrop.symm, hts.symm⟩

end Tokens

open Tokens

/-! ### Nothing is recorded outside blocks -/

/-- Where there is no brace, nothing is recorded. -/
def Law.quiet : Law := fun ts _ log _ => (∀ t ∈ ts, t.kind ≠ .lbrace) → log = []

/-- Only blocks record anything, and they start with a brace. -/
theorem Grammar.upholds_quiet : Grammar.standard.Upholds Law.quiet where
  stay _ _ := rfl
  advance _ _ := rfl
  trans hus hvs hlog hlog' hbrace := by
    rw [hlog hbrace, hlog' fun t ht => hbrace t (hus.mem ht)]
    rfl
  found _ _ := rfl
  skip hblock := by
    intro us rest log log' diagnostic _ _ _ _ _ _ _ hbrace
    have hkind := Grammar.standard_block hblock
    have hmem := current_mem (ne_nil_of_current_kind (by rw [hkind]; decide))
    exact absurd hkind (hbrace _ hmem)

/-! ### From one attempt to the next -/

namespace Attempt

/-- The statement is given up. -/
def failed (a : Attempt) : Bool := a.error?.isSome

/-- Reading goes on behind an attempt by the token with the index `i`: recovery, which starts
where the statement has been given up, consumes the `;` or stops on the `let` or `return`. -/
inductive ResumesAt (all : Tokens) (a : Attempt) (i : Fin all.length) : Prop where
  | semicolon (hkind : all[i].kind = .semicolon) (hstop : index all a.stop ≤ i)
      (hnext : a.next = all.drop (i + 1)) : ResumesAt all a i
  | keyword (hkind : all[i].kind = .kwLet ∨ all[i].kind = .kwReturn) (hstop : index all a.stop < i)
      (hnext : a.next = all.drop i) : ResumesAt all a i

variable {all : Tokens} {a : Attempt}

theorem ResumesAt.mem_resuming {i : Fin all.length} (h : a.ResumesAt all i) :
    all[i].kind ∈ Kind.resuming := by
  cases h with
  | semicolon hkind =>
    rw [hkind]
    decide
  | keyword hkind =>
    rcases hkind with hkind | hkind <;> rw [hkind] <;> decide

/-- A `;` that recovery consumes has not served. -/
theorem exists_resumesAt_semicolon {t : Token} (hstop : a.stop <:+ a.start) (hall : a.start <:+ all)
    (ht : t.kind = .semicolon) (hsuffix : t :: a.next <:+ a.stop) :
    ∃ i : Fin all.length, a.ResumesAt all i ∧ fresh all a.start ≤ i ∧ i < fresh all a.next := by
  have hleft : t :: a.next <:+ all := hsuffix.trans (hstop.trans hall)
  obtain ⟨i, hi, hget, -, hdrop⟩ := exists_index hleft
  have hstart : startsStatement (Tokens.current (t :: a.next)).kind = false := by
    rw [current_cons, ht]
    rfl
  have hmoved := index_lt_of_length_lt hleft (Nat.lt_succ_self a.next.length)
  rw [← hi] at hmoved
  refine ⟨i, .semicolon (by rw [hget, ht]) ?_ hdrop.symm, ?_, ?_⟩
  · exact hi ▸ index_le_of_suffix all hsuffix
  · exact hi ▸ fresh_le_index_of_suffix hall (hsuffix.trans hstop) hstart
  · exact Nat.lt_of_lt_of_le hmoved (index_le_fresh all a.next)

/-- A `let` or `return` that recovery stops on has not served, and will not serve again. -/
theorem exists_resumesAt_keyword (hstop : a.stop <:+ a.start) (hall : a.start <:+ all)
    (hkind : startsStatement a.next.current.kind = true) (hsuffix : a.next <:+ a.stop.tail) :
    ∃ i : Fin all.length, a.ResumesAt all i ∧ fresh all a.start ≤ i ∧ i < fresh all a.next := by
  obtain ⟨t, ts, hts⟩ : ∃ t ts, a.next = t :: ts :=
    List.exists_cons_of_ne_nil fun hnil => by rw [hnil] at hkind; cases hkind
  rw [hts] at hkind hsuffix ⊢
  have hlt : (t :: ts).length < a.stop.length := by
    have hle := hsuffix.length_le
    rw [List.length_tail, List.length_cons] at hle
    rw [List.length_cons]
    omega
  have hmoved := index_lt_of_length_lt (hstop.trans hall) hlt
  have hleft : t :: ts <:+ all := (hsuffix.trans (List.tail_suffix _)).trans (hstop.trans hall)
  obtain ⟨i, hi, hget, hdrop, -⟩ := exists_index hleft
  rw [← hi] at hmoved
  refine ⟨i, .keyword ?_ hmoved (hts.trans hdrop.symm), ?_, ?_⟩
  · rw [hget]
    exact startsStatement_iff.1 hkind
  · have hstart := index_le_of_suffix all hstop
    have hfresh := fresh_le_index all a.start
    omega
  · rw [fresh_of_startsStatement hkind, hi]
    exact Nat.lt_succ_self _

/-- **Recovery gets to a token that has not served yet**, unless the source is over. -/
theorem exists_resumesAt (hstop : a.stop <:+ a.start) (hall : a.start <:+ all)
    (hfailed : a.failed = true) (hnext : a.next ≠ []) :
    ∃ i : Fin all.length, a.ResumesAt all i ∧ fresh all a.start ≤ i ∧ i < fresh all a.next := by
  have hskip : a.next = a.stop.recover false := by
    obtain ⟨ts, rest, log, result⟩ := a
    cases result with
    | ok statement => cases hfailed
    | error diagnostic => rfl
  have hcases := a.stop.recover_cases
  rw [← hskip] at hcases
  rcases hcases with ⟨t, ht, hsuffix⟩ | ⟨hkind, hsuffix⟩ | hnil
  · exact exists_resumesAt_semicolon hstop hall ht hsuffix
  · exact exists_resumesAt_keyword hstop hall hkind hsuffix
  · exact absurd hnil hnext

end Attempt

/-- Behind each of the attempts but the last, reading goes on by the token with the index given
for it, which stands between the start of that attempt and the start of the next. -/
inductive Separated (all : Tokens) : List Attempt → List (Fin all.length) → Prop where
  | nil : Separated all [] []
  | single (a : Attempt) : Separated all [a] []
  | cons {a b : Attempt} {as : List Attempt} {i : Fin all.length} {marks : List (Fin all.length)}
      (hresumes : a.ResumesAt all i) (hbehind : index all a.start ≤ i)
      (hbefore : i ≤ index all b.start) (hmore : Separated all (b :: as) marks) :
      Separated all (a :: b :: as) (i :: marks)

namespace Separated

variable {all : Tokens} {as : List Attempt} {marks : List (Fin all.length)}

theorem length_le (h : Separated all as marks) : as.length ≤ 1 + marks.length := by
  induction h with
  | nil => exact Nat.zero_le _
  | single => exact Nat.le_refl _
  | cons _ _ _ _ ih =>
    simp only [List.length_cons] at ih ⊢
    omega

theorem mem_resuming (h : Separated all as marks) : ∀ i ∈ marks, all[i].kind ∈ Kind.resuming := by
  induction h with
  | nil => exact List.forall_mem_nil _
  | single => exact List.forall_mem_nil _
  | cons hresumes _ _ _ ih => exact List.forall_mem_cons.2 ⟨hresumes.mem_resuming, ih⟩

/-- There are no more attempts than tokens by which reading goes on, but for the first one. -/
theorem length_le_countP (h : Separated all as marks) (hmarks : marks.Pairwise (· < ·)) :
    as.length ≤ 1 + all.countP (·.kind ∈ Kind.resuming) := by
  have hle := (List.map_getElem_sublist hmarks).countP_le (p := (·.kind ∈ Kind.resuming))
  have hall : (marks.map (all[·])).countP (·.kind ∈ Kind.resuming) = marks.length := by
    rw [List.countP_map, List.countP_eq_length]
    intro i hi
    simpa using h.mem_resuming i hi
  have hlength := h.length_le
  omega

/-- An attempt that is given up in front of others is separated from them by a token that does
not serve again. -/
theorem exists_cons {a b : Attempt} (h : Separated all (b :: as) marks)
    (hmarks : marks.Pairwise (· < ·)) (hfresh : ∀ i ∈ marks, fresh all a.next ≤ i)
    (hstop : a.stop <:+ a.start) (hall : a.start <:+ all) (hfailed : a.failed = true)
    (hnext : b.start <:+ a.next) (hb : b.start ≠ []) :
    ∃ i, Separated all (a :: b :: as) (i :: marks) ∧ (i :: marks).Pairwise (· < ·) ∧
      fresh all a.start ≤ i := by
  have hleft : a.next ≠ [] := fun hnil => hb (List.suffix_nil.1 (hnil ▸ hnext))
  obtain ⟨i, hresumes, hi, hlater⟩ := Attempt.exists_resumesAt hstop hall hfailed hleft
  have hbefore : (i : ℕ) ≤ index all b.start := by
    have hle := fresh_le_index all a.next
    have hindex := index_le_of_suffix all hnext
    omega
  refine ⟨i, .cons hresumes (Nat.le_trans (index_le_fresh all a.start) hi) hbefore h, ?_, hi⟩
  exact List.pairwise_cons.2 ⟨fun j hj => Nat.lt_of_lt_of_le hlater (hfresh j hj), hmarks⟩

end Separated

namespace Attempts

variable {stmt : Step Stmt} {all ts : Tokens} {as : List Attempt}

/-- The attempts that are given up are separated by tokens that serve once, and the first of
these has not served before. -/
theorem exists_separated (h : Attempts stmt ts as) (hstmt : stmt.Settles) (hts : ts <:+ all) :
    ∃ marks, Separated all (as.filter Attempt.failed) marks ∧ marks.Pairwise (· < ·) ∧
      ∀ i ∈ marks, fresh all ts ≤ i := by
  induction h with
  | done => exact ⟨[], .nil, .nil, List.forall_mem_nil _⟩
  | @cons a as heof hreply hmore ih =>
    obtain ⟨hnext, hlt⟩ := Attempt.next_suffix hstmt heof hreply
    have hmoved := fresh_le_of_length_lt hts hlt
    obtain ⟨marks, hseparated, hmarks, hfresh⟩ := ih (hnext.trans hts)
    by_cases hfailed : a.failed = true
    · rw [List.filter_cons_of_pos hfailed]
      cases hothers : as.filter Attempt.failed with
      | nil => exact ⟨[], .single a, .nil, List.forall_mem_nil _⟩
      | cons b bs =>
        rw [hothers] at hseparated
        have hmem : b ∈ as := List.mem_of_mem_filter (hothers ▸ List.mem_cons_self)
        obtain ⟨hstart, hb, -⟩ := hmore.made hstmt b hmem
        obtain ⟨i, hcons, hincreasing, hi⟩ := hseparated.exists_cons hmarks hfresh
          (Attempt.stop_suffix hstmt hreply) hts hfailed hstart (ne_nil_of_current_kind hb)
        refine ⟨i :: marks, hcons, hincreasing, List.forall_mem_cons.2 ⟨hi, fun j hj => ?_⟩⟩
        exact Nat.le_trans hmoved (hfresh j hj)
    · rw [List.filter_cons_of_neg hfailed]
      exact ⟨marks, hseparated, hmarks, fun i hi => Nat.le_trans hmoved (hfresh i hi)⟩

/-- Where attempts record nothing before they are given up, no more is reported than that they
are. -/
theorem diagnostics_eq (h : ∀ a ∈ as, a.log = []) :
    as.flatMap Attempt.diagnostics = as.filterMap Attempt.error? := by
  induction as with
  | nil => rfl
  | cons a as ih =>
    obtain ⟨hlog, hmore⟩ := List.forall_mem_cons.1 h
    rw [List.flatMap_cons, ih hmore, Attempt.diagnostics, hlog, List.nil_append]
    cases herror : a.error? with
    | none => rw [List.filterMap_cons_none herror]; rfl
    | some diagnostic => rw [List.filterMap_cons_some herror]; rfl

end Attempts

/-- **Errors do not cascade.**  In a source without braces each diagnostic is the one over which
an attempt at a statement is given up.  Between the starts of two attempts that are given up one
after the other there is a `;` that recovery consumes, or a `let` or `return` on which it stops;
these tokens are in the order of the source, so that none of them serves twice.  And so there is
one diagnostic, and one more at most for each token of these kinds. -/
theorem parse_resynchronizes (source : String) (h : ∀ t ∈ tokenize source, t.kind ≠ .lbrace) :
    (parse source).2.length ≤ 1 + (tokenize source).countP (·.kind ∈ Kind.resuming) ∧
      ∃ as marks,
        Attempts (Grammar.standard.statement maxNesting) (Lexer.tokens source.toList) as ∧
        (parse source).2 = as.filterMap Attempt.error? ∧
        Separated (Lexer.tokens source.toList) (as.filter Attempt.failed) marks ∧
        marks.Pairwise (· < ·) := by
  obtain ⟨as, has, hparse⟩ := exists_attempts_of_parse source
  have hstmt := Grammar.settles_statement Grammar.wellFounded_standard maxNesting
  have hquiet : ∀ a ∈ as, a.log = [] := by
    intro a ha
    obtain ⟨hstart, hlog⟩ := has.obeys Grammar.wellFounded_standard Grammar.upholds_quiet a ha
    exact hlog fun t ht => h t (List.mem_append_left _ (hstart.mem ht))
  have hdiagnostics : (parse source).2 = as.filterMap Attempt.error? := by
    rw [hparse]
    exact Attempts.diagnostics_eq hquiet
  obtain ⟨marks, hseparated, hmarks, -⟩ := has.exists_separated hstmt (List.suffix_refl _)
  refine ⟨?_, as, marks, has, hdiagnostics, hseparated, hmarks⟩
  have hle := hseparated.length_le_countP hmarks
  have hsublist : (Lexer.tokens source.toList).Sublist (tokenize source) :=
    List.sublist_append_left _ _
  have hcount := hsublist.countP_le (p := (·.kind ∈ Kind.resuming))
  have hlength : (parse source).2.length = (as.filter Attempt.failed).length := by
    rw [hdiagnostics, List.length_filterMap_eq_countP, List.countP_eq_length_filter]
    rfl
  omega

/-- Three statements are given up: recovery consumes the `;` behind the first and stops on the
`let` behind the second, which is given up itself. -/
theorem parse_resynchronizes_let :
    let source := ") + ; ) 5 let 5"
    (∀ t ∈ tokenize source, t.kind ≠ .lbrace) ∧ (parse source).2.length ≤ 3 ∧
      ∃ as marks,
        Attempts (Grammar.standard.statement maxNesting) (Lexer.tokens source.toList) as ∧
        (parse source).2 = as.filterMap Attempt.error? ∧
        Separated (Lexer.tokens source.toList) (as.filter Attempt.failed) marks ∧
        marks.Pairwise (· < ·) := by
  intro source
  have hbrace : ∀ t ∈ tokenize source, t.kind ≠ .lbrace := by decide +kernel
  have hcount : (tokenize source).countP (·.kind ∈ Kind.resuming) = 2 := by decide +kernel
  obtain ⟨hle, hseparated⟩ := parse_resynchronizes source hbrace
  rw [hcount] at hle
  exact ⟨hbrace, hle, hseparated⟩

/-- The bound is reached there. -/
example : (parse ") + ; ) 5 let 5").2.length = 3 := by decide +kernel

end Script
