import Script.Proofs.Rounds

/-!
# One token of lookahead

A step that comes to an end has taken tokens off the front.  Which ones, and what it made of
them, depends on these tokens, on the one at which the step stops and on the one ahead of
it.  It makes no difference what stands further on, not even how much of it there is, which
decides how many rounds the loops may take.

## Main definitions

* `Reply.rest?`, `Reply.withRest` — what a reply leaves, and the reply with something else
  left.
* `Tokens.LooksLike` — what is left cannot be told apart by looking at it.
* `Step.Local` — a step depends on nothing but what it takes and what it can see.

## Main results

* `Step.Local.bind` — sequencing keeps locality.
* `Step.local_bounded`, `Step.local_collect`, `Step.local_collectWhile`, `Step.local_fold` —
  and so do the loops, although their rounds are counted by all tokens that are left.
-/

namespace Script

/-! ### What is left -/

namespace Reply

variable {α β : Type}

/-- What a reply leaves, if the step has come to an end. -/
def rest? : Reply α → Option Tokens
  | ok _ rest _ => some rest
  | fail _ rest _ => some rest
  | diverges => none

/-- The reply with other tokens left. -/
def withRest (us : Tokens) : Reply α → Reply α
  | ok value _ log => ok value us log
  | fail diagnostic _ log => fail diagnostic us log
  | diverges => diverges

@[simp] theorem rest?_after (log : List Diagnostic) (reply : Reply α) :
    (reply.after log).rest? = reply.rest? := by
  cases reply <;> rfl

@[simp] theorem withRest_after (us : Tokens) (log : List Diagnostic) (reply : Reply α) :
    (reply.after log).withRest us = (reply.withRest us).after log := by
  cases reply <;> rfl

theorem rest?_withRest {reply : Reply α} {rest : Tokens} (h : reply.rest? = some rest)
    (us : Tokens) : (reply.withRest us).rest? = some us := by
  cases reply with
  | ok value _ log => rfl
  | fail diagnostic _ log => rfl
  | diverges => cases h

theorem withRest_rest {reply : Reply α} {rest : Tokens} (h : reply.rest? = some rest) :
    reply.withRest rest = reply := by
  cases reply with
  | ok value _ log =>
    cases h
    rfl
  | fail diagnostic _ log =>
    cases h
    rfl
  | diverges => cases h

end Reply

namespace Tokens

variable {us rest : Tokens}

/-- The tokens agree in the current one and in the one ahead, or in their end. -/
def LooksLike (us rest : Tokens) : Prop := us.take 2 = rest.take 2

theorem LooksLike.current (h : us.LooksLike rest) : us.current = rest.current := by
  have hhead := congrArg List.head? h
  rw [List.head?_take, List.head?_take] at hhead
  simpa [Tokens.current, List.headD_eq_head?_getD] using congrArg (Option.getD · Token.eof) hhead

theorem LooksLike.peek (h : us.LooksLike rest) : us.peek = rest.peek := by
  have hsecond : us[1]? = rest[1]? := by
    have hget := congrArg (fun ts : Tokens => ts[1]?) h
    simpa [List.getElem?_take] using hget
  have hpeek (ts : Tokens) : ts.peek = (ts[1]?).getD Token.eof := by
    rcases ts with _ | ⟨t, _ | ⟨u, ts⟩⟩ <;> rfl
  rw [hpeek, hpeek, hsecond]

/-- What has been taken before it makes no difference. -/
theorem LooksLike.append (h : us.LooksLike rest) (p : Tokens) :
    LooksLike (p ++ us) (p ++ rest) := by
  have hshort (n : Nat) : us.take (2 - n) = rest.take (2 - n) := by
    have htake := congrArg (List.take (2 - n)) h
    rwa [List.take_take, List.take_take, Nat.min_eq_left (Nat.sub_le 2 n)] at htake
  unfold LooksLike
  rw [List.take_append, List.take_append, hshort]

/-- Where there is at most one token, all of what is left can be seen. -/
theorem LooksLike.eq_nil (h : us.LooksLike []) : us = [] := by
  have hlength := congrArg List.length h
  rw [List.length_take, List.take_nil, List.length_nil] at hlength
  exact List.length_eq_zero_iff.1 (by omega)

theorem LooksLike.ne_nil (h : us.LooksLike rest) (hrest : rest ≠ []) : us ≠ [] := by
  rintro rfl
  exact hrest (LooksLike.eq_nil h.symm)

end Tokens

/-! ### Local steps -/

namespace Step

open Tokens

variable {α β : Type} {first : Step α} {second : α → Step β} {ts rest : Tokens}

/-- If the step comes to an end, it has taken tokens off the front, and it comes to the same
wherever it finds these tokens in front of something that looks like what it has left. -/
def Local (step : Step α) : Prop :=
  ∀ ⦃ts rest⦄, (step ts).rest? = some rest →
    ∃ taken, ts = taken ++ rest ∧
      ∀ us, us.LooksLike rest → step (taken ++ us) = (step ts).withRest us

theorem Local.suffix (h : first.Local) (hrest : (first ts).rest? = some rest) : rest <:+ ts := by
  obtain ⟨taken, heq, -⟩ := h hrest
  exact ⟨taken, heq.symm⟩

/-- One local step after another is local: what the first one sees is taken by the second, or
can be seen behind it. -/
theorem Local.bind (hfirst : first.Local) (hsecond : ∀ value, (second value).Local) :
    (first >>= second).Local := by
  intro ts rest hrest
  rw [bind_apply] at hrest ⊢
  cases hreply : first ts with
  | ok value mid log =>
    simp only [hreply, Reply.rest?_after] at hrest
    have hmid : (first ts).rest? = some mid := by rw [hreply]; rfl
    obtain ⟨taken, hts, hown⟩ := hfirst hmid
    obtain ⟨more, hmid, hnext⟩ := hsecond value hrest
    refine ⟨taken ++ more, by rw [hts, hmid, List.append_assoc], fun us hus => ?_⟩
    have hlook : LooksLike (more ++ us) mid := hmid ▸ hus.append more
    rw [List.append_assoc, bind_apply, hown _ hlook, hreply, Reply.withRest_after]
    exact congrArg (Reply.after log) (hnext us hus)
  | fail diagnostic mid log =>
    simp only [hreply] at hrest
    have hmid : (first ts).rest? = some rest := by rw [hreply]; exact hrest
    obtain ⟨taken, hts, hown⟩ := hfirst hmid
    refine ⟨taken, hts, fun us hus => ?_⟩
    rw [bind_apply, hown us hus, hreply]
    rfl
  | diverges =>
    simp only [hreply] at hrest
    cases hrest

/-- What is made of a value in the end leaves what the value has left. -/
theorem rest?_bind_pure (first : Step α) (f : α → β) (ts : Tokens) :
    ((first >>= fun value => pure (f value)) ts).rest? = (first ts).rest? := by
  rw [bind_apply]
  cases first ts <;> rfl

/-! ### Single moves -/

/-- A step that takes nothing and looks at nothing but the first two tokens is local. -/
theorem local_of_stays {step : Step α} (hstays : ∀ ts, (step ts).rest? = some ts)
    (hlook : ∀ ts us, us.LooksLike ts → step us = (step ts).withRest us) : step.Local := by
  intro ts rest hrest
  obtain rfl : ts = rest := Option.some.inj ((hstays ts).symm.trans hrest)
  exact ⟨[], rfl, fun us hus => hlook ts us hus⟩

theorem local_pure (value : α) : (pure value : Step α).Local :=
  local_of_stays (fun _ => rfl) fun _ _ _ => rfl

theorem local_current : current.Local := by
  refine local_of_stays (fun _ => rfl) fun ts us hus => ?_
  rw [current_apply, current_apply, hus.current]
  rfl

theorem local_peek : peek.Local := by
  refine local_of_stays (fun _ => rfl) fun ts us hus => ?_
  rw [peek_apply, peek_apply, hus.peek]
  rfl

theorem local_fail (diagnostic : Diagnostic) : (fail diagnostic : Step α).Local :=
  local_of_stays (fun _ => rfl) fun _ _ _ => rfl

theorem local_reject (cause : Fault) : (reject cause : Step α).Local := by
  refine local_of_stays (fun _ => rfl) fun ts us hus => ?_
  rw [reject_apply, reject_apply, hus.current]
  rfl

theorem local_record (diagnostic : Diagnostic) : (record diagnostic).Local :=
  local_of_stays (fun _ => rfl) fun _ _ _ => rfl

theorem local_forever : (forever : Step α).Local := by
  intro ts rest hrest
  cases hrest

theorem local_advance : advance.Local := by
  intro ts rest hrest
  cases ts with
  | nil =>
    obtain rfl : [] = rest := Option.some.inj hrest
    refine ⟨[], rfl, fun us hus => ?_⟩
    rw [hus.eq_nil]
    rfl
  | cons t ts =>
    obtain rfl : ts = rest := Option.some.inj hrest
    exact ⟨[t], rfl, fun us hus => rfl⟩

/-- A token that is expected is looked at, and taken if it is found. -/
theorem local_expect (kind : Kind) : (expect kind).Local := by
  have heq : expect kind = (do
      let ahead ← peek
      if ahead.kind = kind then do
        let _ ← advance
        pure ahead
      else
        fail ⟨.unexpectedToken kind ahead.kind, ahead⟩) := by
    funext ts
    rw [peek_bind]
    rw [expect_apply]
    split
    · rw [advance_bind]
      rfl
    · rfl
  rw [heq]
  refine local_peek.bind fun ahead => ?_
  split
  · exact local_advance.bind fun _ => local_pure _
  · exact local_fail _

theorem local_skipSemicolon : skipSemicolon.Local := by
  have heq : skipSemicolon = (do
      let ahead ← peek
      if ahead.kind = .semicolon then do
        let _ ← advance
        pure ()
      else
        pure ()) := by
    funext ts
    rw [peek_bind, skipSemicolon_apply]
    split
    · rw [advance_bind]
      rfl
    · rfl
  rw [heq]
  refine local_peek.bind fun ahead => ?_
  split
  · exact local_advance.bind fun _ => local_pure _
  · exact local_pure _

/-- Recovery looks at the token on which it stops, and at none behind it. -/
theorem local_synchronize (inBlock : Bool) : (synchronize inBlock).Local := by
  intro ts rest hrest
  obtain rfl : ts.recover inBlock = rest := Option.some.inj hrest
  suffices h : ∃ taken, ts = taken ++ ts.recover inBlock ∧
      ∀ us : Tokens, us.LooksLike (ts.recover inBlock) → recover inBlock (taken ++ us) = us by
    obtain ⟨taken, hts, hown⟩ := h
    refine ⟨taken, hts, fun us hus => ?_⟩
    rw [synchronize_apply, synchronize_apply, hown us hus]
    rfl
  clear hrest
  induction ts with
  | nil => exact ⟨[], rfl, fun us hus => by rw [hus.eq_nil]; rfl⟩
  | cons t ts ih =>
    rw [recover]
    split
    · next hbrace =>
      refine ⟨[], rfl, fun us hus => ?_⟩
      obtain ⟨u, us, rfl⟩ := List.exists_cons_of_ne_nil (hus.ne_nil (List.cons_ne_nil t ts))
      obtain rfl : u = t := hus.current
      rw [List.nil_append, recover, if_pos hbrace]
    · next hbrace =>
      split
      · next hsemicolon =>
        refine ⟨[t], rfl, fun us hus => ?_⟩
        rw [List.singleton_append, recover, if_neg hbrace, if_pos hsemicolon]
      · next hsemicolon =>
        split
        · next hstart =>
          refine ⟨[t], rfl, fun us hus => ?_⟩
          rw [List.singleton_append, recover, if_neg hbrace, if_neg hsemicolon, hus.current,
            if_pos hstart]
        · next hstart =>
          obtain ⟨taken, hts, hown⟩ := ih
          refine ⟨t :: taken, by rw [List.cons_append, ← hts], fun us hus => ?_⟩
          -- the token at which recovery goes on is taken, or it is the one on which it stops
          have hcurrent : Tokens.current (taken ++ us) = Tokens.current ts := by
            have hlook := hus.append taken
            rw [← hts] at hlook
            exact hlook.current
          rw [List.cons_append, recover, if_neg hbrace, if_neg hsemicolon, hcurrent,
            if_neg hstart, hown us hus]

/-- A failure that is made a value leaves what it has left. -/
theorem rest?_attempt (step : Step α) (ts : Tokens) :
    (attempt step ts).rest? = (step ts).rest? := by
  rw [attempt_apply]
  cases step ts <;> rfl

theorem local_attempt {step : Step α} (h : step.Local) : (attempt step).Local := by
  intro ts rest hrest
  rw [rest?_attempt] at hrest
  obtain ⟨taken, hts, hown⟩ := h hrest
  refine ⟨taken, hts, fun us hus => ?_⟩
  rw [attempt_apply, attempt_apply, hown us hus]
  cases step ts <;> rfl

/-! ### Loops -/

/-- A bounded loop is local if it is so with any number of rounds, and if one that stops
before the end of the source does not need more rounds than there are tokens. -/
theorem local_bounded {loop : Nat → Step α} (hloop : ∀ n, (loop n).Local)
    (hrounds : ∀ {n m ts rest}, (loop n ts).rest? = some rest → rest ≠ [] →
      ts.length < m → loop m ts = loop n ts) : (bounded loop).Local := by
  intro ts rest hrest
  obtain ⟨taken, hts, hown⟩ := hloop (ts.length + 1) hrest
  refine ⟨taken, hts, fun us hus => ?_⟩
  by_cases hnil : rest = []
  · subst hnil
    rw [hus.eq_nil, ← hts]
    exact (Reply.withRest_rest hrest).symm
  · have hsame := hown us hus
    have hus' : (loop (ts.length + 1) (taken ++ us)).rest? = some us := by
      rw [hsame]
      exact Reply.rest?_withRest hrest us
    rw [bounded_apply, bounded_apply, ← hsame]
    exact hrounds hus' (hus.ne_nil hnil) (Nat.lt_succ_self _)

/-! ### Loops that collect what their rounds read -/

/-- Repeats a round for as long as what it reads says so, and puts together what is read. -/
def collecting {σ : Type} (round : Step σ) (goesOn : σ → Bool) (stop : σ → α) (cons : σ → α → α) :
    Nat → Step α
  | 0 => forever
  | rounds + 1 => do
    let value ← round
    if goesOn value then do
      let more ← collecting round goesOn stop cons rounds
      pure (cons value more)
    else
      pure (stop value)

section

variable {σ : Type} {round : Step σ} {goesOn : σ → Bool} {stop : σ → α} {cons : σ → α → α}
  {value : σ} {log : List Diagnostic}

theorem collecting_of_goesOn {mid : Tokens} (hround : round ts = .ok value mid log)
    (hgoes : goesOn value = true) (n : Nat) :
    collecting round goesOn stop cons (n + 1) ts =
      ((collecting round goesOn stop cons n >>= fun more => pure (cons value more)) mid).after
        log := by
  rw [collecting, bind_of_ok hround, if_pos hgoes]

/-- A loop whose round goes on without taking anything never ends. -/
theorem collecting_of_stuck (hround : round ts = .ok value ts log) (hgoes : goesOn value = true)
    (n : Nat) : collecting round goesOn stop cons n ts = .diverges := by
  induction n with
  | zero => rfl
  | succ n ih =>
    rw [collecting_of_goesOn hround hgoes, bind_of_diverges ih]
    rfl

/-- A loop that ends does not need more rounds than there are tokens. -/
theorem collecting_eq_of_rest (h : round.Local) {n m : Nat}
    (hrest : (collecting round goesOn stop cons n ts).rest? = some rest) (hm : ts.length < m) :
    collecting round goesOn stop cons m ts = collecting round goesOn stop cons n ts := by
  induction n generalizing ts m with
  | zero => cases hrest
  | succ n ih =>
    obtain ⟨m, rfl⟩ := Nat.exists_eq_add_one_of_ne_zero (Nat.ne_zero_of_lt hm)
    cases hround : round ts with
    | ok value mid log =>
      cases hgoes : goesOn value with
      | true =>
        -- a round that takes nothing would be repeated for ever
        have hmid : mid <:+ ts := h.suffix (by rw [hround]; rfl)
        have hlt : mid.length < ts.length := by
          refine Nat.lt_of_le_of_ne hmid.length_le fun hlength => ?_
          obtain rfl := hmid.eq_of_length hlength
          rw [collecting_of_stuck hround hgoes] at hrest
          cases hrest
        rw [collecting_of_goesOn hround hgoes, Reply.rest?_after, rest?_bind_pure] at hrest
        have hmore := ih hrest (m := m) (by omega)
        rw [collecting_of_goesOn hround hgoes, collecting_of_goesOn hround hgoes, bind_apply,
          bind_apply, hmore]
      | false =>
        rw [collecting, collecting, bind_of_ok hround, bind_of_ok hround, hgoes]
        rfl
    | fail diagnostic mid log =>
      rw [collecting, collecting, bind_of_fail hround, bind_of_fail hround]
    | diverges =>
      rw [collecting, collecting, bind_of_diverges hround, bind_of_diverges hround]

theorem local_collecting_rounds (h : round.Local) (n : Nat) :
    (collecting round goesOn stop cons n).Local := by
  induction n with
  | zero => exact local_forever
  | succ n ih =>
    refine h.bind fun value => ?_
    split
    · exact ih.bind fun _ => local_pure _
    · exact local_pure _

theorem local_collecting (h : round.Local) :
    (bounded (collecting round goesOn stop cons)).Local :=
  local_bounded (local_collecting_rounds h) fun hrest _ hm => collecting_eq_of_rest h hrest hm

end

theorem local_collect {round : Step Round} (h : round.Local) :
    (bounded (collect round)).Local := by
  have heq : collect round =
      collecting round (fun value => value matches .read _ | .skipped) (fun _ => [])
        Round.cons := by
    funext n
    induction n with
    | zero => rfl
    | succ n ih =>
      rw [collect, collecting, ← ih]
      congr 1
      funext value
      cases value with
      | finished => rfl
      | read s => rfl
      | skipped => exact (bind_pure _).symm
  rw [heq]
  exact local_collecting h

theorem local_collectWhile {round : Step (α × Bool)} (h : round.Local) :
    (bounded (collectWhile round)).Local := by
  have heq : collectWhile round =
      collecting round Prod.snd (fun value => [value.1]) fun value more => value.1 :: more := by
    funext n
    induction n with
    | zero => rfl
    | succ n ih =>
      rw [collectWhile, collecting, ← ih]
  rw [heq]
  exact local_collecting h

/-! ### Loops that hand on a value -/

section

variable {next : α → Step (Option α)}

theorem local_fold_rounds (h : ∀ left, (next left).Local) (n : Nat) (left : α) :
    (fold next n left).Local := by
  induction n generalizing left with
  | zero => exact local_forever
  | succ n ih =>
    refine (h left).bind fun value => ?_
    cases value with
    | none => exact local_pure _
    | some value => exact ih value

/-- The rounds of this loop hand on a value, so that one that takes nothing need not be
repeated for ever. -/
theorem fold_eq_of_rest (h : ∀ left, (next left).Local)
    (htakes : ∀ {left value ts mid log}, next left ts = .ok (some value) mid log → ts ≠ [] →
      mid.length < ts.length) {n m : Nat} {left : α}
    (hrest : (fold next n left ts).rest? = some rest) (hne : rest ≠ []) (hm : ts.length < m) :
    fold next m left ts = fold next n left ts := by
  induction n generalizing ts m left with
  | zero => cases hrest
  | succ n ih =>
    obtain ⟨m, rfl⟩ := Nat.exists_eq_add_one_of_ne_zero (Nat.ne_zero_of_lt hm)
    have hts : ts ≠ [] := by
      rintro rfl
      exact hne (List.suffix_nil.1 ((local_fold_rounds h (n + 1) left).suffix hrest))
    rw [fold] at hrest ⊢
    rw [fold]
    cases hround : next left ts with
    | ok value mid log =>
      rw [bind_of_ok hround] at hrest ⊢
      rw [bind_of_ok hround]
      cases value with
      | none => rfl
      | some value =>
        have hlt := htakes hround hts
        rw [Reply.rest?_after] at hrest
        exact congrArg (Reply.after log) (ih hrest (by omega))
    | fail diagnostic mid log => rw [bind_of_fail hround, bind_of_fail hround]
    | diverges => rw [bind_of_diverges hround, bind_of_diverges hround]

theorem local_fold (h : ∀ left, (next left).Local)
    (htakes : ∀ {left value ts mid log}, next left ts = .ok (some value) mid log → ts ≠ [] →
      mid.length < ts.length) (left : α) : (bounded fun n => fold next n left).Local :=
  local_bounded (fun n => local_fold_rounds h n left) fun hrest hne hm =>
    fold_eq_of_rest h htakes hrest hne hm

end

end Step

end Script
