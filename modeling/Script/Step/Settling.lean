import Script.Step

/-!
# Steps that come to an end

A step settles when it never runs for ever and only drops tokens from the front.
Settling is kept by sequencing, and a loop settles when each of its rounds either
ends it or drops a token.

## Main definitions

* `Reply.Leaves` — a reply is an end and leaves a suffix of the given tokens.
* `Step.Settles` — a step leaves a suffix of the tokens it is given, whatever they are.
* `Step.Unfailing` — a step does not end with a diagnostic.

## Main results

* `Step.settles_bind` — one settling step after another settles.
* `Step.leaves_bind` — the same for given tokens, where the second step may rely on
  what the first has left.
-/

namespace Script

variable {α β : Type}

namespace Reply

/-- The reply is an end, and what it leaves is a suffix of `ts`. -/
def Leaves (ts : Tokens) : Reply α → Prop
  | ok _ rest _ => rest <:+ ts
  | fail _ rest _ => rest <:+ ts
  | diverges => False

@[simp] theorem leaves_ok (ts : Tokens) (value : α) (rest : Tokens) (log : List Diagnostic) :
    (ok value rest log).Leaves ts ↔ rest <:+ ts := Iff.rfl

@[simp] theorem leaves_fail (ts : Tokens) (diagnostic : Diagnostic) (rest : Tokens)
    (log : List Diagnostic) :
    (fail diagnostic rest log : Reply α).Leaves ts ↔ rest <:+ ts := Iff.rfl

@[simp] theorem leaves_diverges (ts : Tokens) : ¬(diverges : Reply α).Leaves ts := id

@[simp] theorem leaves_after (ts : Tokens) (log : List Diagnostic) (reply : Reply α) :
    (reply.after log).Leaves ts ↔ reply.Leaves ts := by
  cases reply <;> rfl

theorem Leaves.mono {ts us : Tokens} {reply : Reply α} (h : reply.Leaves us) (hs : us <:+ ts) :
    reply.Leaves ts := by
  cases reply with
  | ok value rest log => exact List.IsSuffix.trans h hs
  | fail diagnostic rest log => exact List.IsSuffix.trans h hs
  | diverges => exact h

theorem Leaves.ne_diverges {ts : Tokens} {reply : Reply α} (h : reply.Leaves ts) :
    reply ≠ diverges := by
  rintro rfl
  exact h

end Reply

namespace Step

/-- The step comes to an end and drops tokens from the front only. -/
def Settles (step : Step α) : Prop := ∀ ts, (step ts).Leaves ts

/-! ### Sequencing -/

/-- One step after another, for given tokens: the second may rely on what the
first has read and left. -/
theorem leaves_bind {first : Step α} {second : α → Step β} {ts : Tokens}
    (hfirst : (first ts).Leaves ts)
    (hsecond : ∀ value rest log, first ts = .ok value rest log → (second value rest).Leaves rest) :
    ((first >>= second) ts).Leaves ts := by
  rw [bind_apply]
  split
  · next value rest log h =>
    rw [h] at hfirst
    exact (Reply.leaves_after ..).2 ((hsecond value rest log h).mono hfirst)
  · next diagnostic rest log h => rwa [h] at hfirst
  · next h => rw [h] at hfirst; exact hfirst

theorem settles_bind {first : Step α} {second : α → Step β} (hfirst : first.Settles)
    (hsecond : ∀ value, (second value).Settles) : (first >>= second).Settles :=
  fun ts => leaves_bind (hfirst ts) fun value rest _ _ => hsecond value rest

theorem settles_pure (value : α) : (pure value : Step α).Settles :=
  fun ts => List.suffix_refl ts

/-! ### Single moves -/

theorem settles_current : current.Settles := fun ts => List.suffix_refl ts

theorem settles_peek : peek.Settles := fun ts => List.suffix_refl ts

theorem settles_advance : advance.Settles := fun ts => List.tail_suffix ts

theorem settles_expect (kind : Kind) : (expect kind).Settles := by
  intro ts
  rw [expect_apply]
  split
  · exact List.tail_suffix ts
  · exact List.suffix_refl ts

theorem settles_skipSemicolon : skipSemicolon.Settles := by
  intro ts
  show (if ts.peek.kind = .semicolon then ts.tail else ts) <:+ ts
  split
  · exact List.tail_suffix ts
  · exact List.suffix_refl ts

theorem settles_synchronize (inBlock : Bool) : (synchronize inBlock).Settles :=
  fun ts => ts.recover_suffix inBlock

theorem settles_fail (diagnostic : Diagnostic) : (fail diagnostic : Step α).Settles :=
  fun ts => List.suffix_refl ts

theorem settles_reject (cause : Fault) : (reject cause : Step α).Settles :=
  fun ts => List.suffix_refl ts

theorem settles_record (diagnostic : Diagnostic) : (record diagnostic).Settles :=
  fun ts => List.suffix_refl ts

theorem settles_attempt {step : Step α} (h : step.Settles) : (attempt step).Settles := by
  intro ts
  have hts := h ts
  rw [attempt_apply]
  split
  · next heq => rwa [heq] at hts
  · next heq => rwa [heq] at hts
  · next heq => rwa [heq] at hts

/-! ### Loops -/

/-- A loop settles if it does so with more rounds than there are tokens. -/
theorem settles_bounded {loop : Nat → Step α}
    (h : ∀ rounds ts, ts.length < rounds → (loop rounds ts).Leaves ts) : (bounded loop).Settles :=
  fun ts => h (ts.length + 1) ts (Nat.lt_succ_self _)

/-! ### Steps that do not fail -/

/-- The step does not end with a diagnostic. -/
def Unfailing (step : Step α) : Prop :=
  ∀ ts diagnostic rest log, step ts ≠ .fail diagnostic rest log

theorem unfailing_bind {first : Step α} {second : α → Step β} (hfirst : first.Unfailing)
    (hsecond : ∀ value, (second value).Unfailing) : (first >>= second).Unfailing := by
  intro ts diagnostic rest log
  rw [bind_apply]
  split
  · next value rest' log' _ =>
    cases h : second value rest' with
    | ok => simp
    | fail => exact absurd h (hsecond _ _ _ _ _)
    | diverges => simp
  · next h => exact absurd h (hfirst _ _ _ _)
  · simp

theorem unfailing_pure (value : α) : (pure value : Step α).Unfailing := by
  intro ts diagnostic rest log
  simp [pure_apply]

theorem unfailing_current : current.Unfailing := by
  intro ts diagnostic rest log
  simp

theorem unfailing_advance : advance.Unfailing := by
  intro ts diagnostic rest log
  simp

theorem unfailing_synchronize (inBlock : Bool) : (synchronize inBlock).Unfailing := by
  intro ts diagnostic rest log
  simp

theorem unfailing_record (diagnostic : Diagnostic) : (record diagnostic).Unfailing := by
  intro ts diagnostic rest log
  simp

theorem unfailing_attempt (step : Step α) : (attempt step).Unfailing := by
  intro ts diagnostic rest log
  rw [attempt_apply]
  split <;> simp

theorem unfailing_forever : (forever : Step α).Unfailing := by
  intro ts diagnostic rest log
  simp [forever_apply]

/-- A step that settles and does not fail reads a value. -/
theorem Settles.eq_ok {step : Step α} (h : step.Settles) (hf : step.Unfailing) (ts : Tokens) :
    ∃ value rest log, step ts = .ok value rest log ∧ rest <:+ ts := by
  have hts := h ts
  cases hstep : step ts with
  | ok value rest log => exact ⟨value, rest, log, rfl, by rwa [hstep] at hts⟩
  | fail diagnostic rest log => exact absurd hstep (hf _ _ _ _)
  | diverges => rw [hstep] at hts; exact hts.elim

end Step

end Script
