import Script.Proofs.Phrase.Inversion
import Script.Proofs.Rounds

/-!
# Where diagnostics are raised

A diagnostic says what is wrong and at which token, but not where the token stands.  That is
what the reading steps know: a step that ends with a diagnostic leaves the tokens as they
were when it was raised, and no step moves on before a statement is given up over it.  An
observer is told what is left whenever a statement is given up, and writes something of its
own in place of the token; without an observer reading is what it is anyway.  What is found
is a diagnostic together with what was left, and it is known for all observers at once.

The findings of a step are in the order of the source.  The steps that read an expression or
a statement find nothing before their first token, and nothing of what they have found lies
behind the token after the last one they have read.  There the steps that read on find
nothing before that token.

## Main definitions

* `Observer`, `Step.observed` — what is written in place of the tokens of diagnostics.
* `Finding` — a diagnostic and what was left of the source when it was raised.
* `Diagnostic.RaisedAt` — a fault is found at the current token or at the one ahead.
* `Trace` — findings in the order of the source and between two bounds.
* `Reply.Tracked` — what a step finds is a trace, whoever observes it.

## Main results

* `Reply.Tracked.bind` — tracks are kept by sequencing.
* `Step.tracked_collectWhile`, `Step.tracked_fold` — and by the loops.
-/

namespace Script

open Tokens

/-! ### Observers -/

/-- What is written in place of the token of a diagnostic, depending on what is left of the
source.  Without an observer the token stays. -/
abbrev Observer := Option (Tokens → Token)

/-- The diagnostic as an observer notes it. -/
def Diagnostic.noted (diagnostic : Diagnostic) (observer : Observer) (rest : Tokens) :
    Diagnostic :=
  { diagnostic with token := (observer.map fun note => note rest).getD diagnostic.token }

/-- To be told twice makes no difference. -/
@[simp] theorem Diagnostic.noted_noted (diagnostic : Diagnostic) (observer : Observer)
    (rest : Tokens) :
    (diagnostic.noted observer rest).noted observer rest = diagnostic.noted observer rest := by
  cases observer <;> rfl

/-- The step, of which an observer is told what is left when it ends with a diagnostic. -/
def Step.observed {α : Type} (observer : Observer) (step : Step α) : Step α := fun ts =>
  match step ts with
  | .fail diagnostic rest log => .fail (diagnostic.noted observer rest) rest log
  | reply => reply

@[simp] theorem Step.observed_none {α : Type} (step : Step α) : step.observed none = step := by
  funext ts
  unfold observed
  cases step ts <;> rfl

/-! ### Findings -/

/-- A diagnostic and what was left of the source when it was raised. -/
structure Finding where
  /-- What has been found. -/
  diagnostic : Diagnostic
  /-- What was left, from the current token on. -/
  rest : Tokens

/-- Faults of the token ahead: it is another one than the one that must follow.  The brace
that closes a block is missed at the current token. -/
def Fault.isAhead : Fault → Bool
  | .unexpectedToken expected _ => expected ≠ .rbrace
  | _ => false

/-- The diagnostic is what is wrong with the tokens that are left, and its token is the
current one or the one ahead of it. -/
inductive Diagnostic.RaisedAt (g : Grammar) (ts : Tokens) : Diagnostic → Prop where
  /-- The token ahead has another kind than the one that must follow. -/
  | unexpectedToken {kind : Kind} (hne : ts ≠ []) (hkind : kind ≠ .rbrace)
      (hahead : ts.peek.kind ≠ kind) :
      RaisedAt g ts ⟨.unexpectedToken kind ts.peek.kind, ts.peek⟩
  /-- The source ends inside a block. -/
  | unclosedBlock (heof : ts.current.kind = .eof) :
      RaisedAt g ts ⟨.unexpectedToken .rbrace .eof, ts.current⟩
  /-- No expression starts with the current token. -/
  | noPrefixRule (hrule : g.prefixRule ts.current.kind = none) :
      RaisedAt g ts ⟨.noPrefixRule ts.current.kind, ts.current⟩
  /-- The literal of the current token is no integer. -/
  | invalidInteger (hvalue : Text.integer? ts.current.literal = none) :
      RaisedAt g ts ⟨.invalidInteger ts.current.literal, ts.current⟩
  /-- There is no room for the expression that starts with the current token. -/
  | nestingTooDeep : RaisedAt g ts ⟨.nestingTooDeep maxNesting, ts.current⟩

namespace Finding

/-- The finding as an observer notes it. -/
def noted (f : Finding) (observer : Observer) : Diagnostic := f.diagnostic.noted observer f.rest

/-- The tokens from the one on that the finding is reported at. -/
def reported (f : Finding) : Tokens :=
  if f.diagnostic.fault.isAhead then f.rest.tail else f.rest

/-- The index of the token that the finding is reported at among the given number of tokens:
that of the current token, or the next one. -/
def index (total : Nat) (f : Finding) : Nat :=
  total - f.rest.length + if f.diagnostic.fault.isAhead then 1 else 0

theorem length_rest_le (f : Finding) : f.rest.tail.length ≤ f.reported.length := by
  unfold reported
  split
  · exact Nat.le_refl _
  · exact (List.tail_suffix f.rest).length_le

/-- The token of a finding is the one it is reported at. -/
theorem token_eq {g : Grammar} {f : Finding} (h : f.diagnostic.RaisedAt g f.rest) :
    f.diagnostic.token = f.reported.current := by
  obtain ⟨diagnostic, rest⟩ := f
  dsimp only at h
  cases h with
  | unexpectedToken _ hkind _ => simp [reported, Fault.isAhead, hkind, peek]
  | unclosedBlock | noPrefixRule | invalidInteger | nestingTooDeep =>
    simp [reported, Fault.isAhead]

/-- The token ahead is reported only if there is a current one. -/
theorem rest_ne_nil {g : Grammar} {f : Finding} (h : f.diagnostic.RaisedAt g f.rest)
    (hahead : f.diagnostic.fault.isAhead = true) : f.rest ≠ [] := by
  obtain ⟨diagnostic, rest⟩ := f
  dsimp only at h
  cases h with
  | unexpectedToken hne => exact hne
  | unclosedBlock | noPrefixRule | invalidInteger | nestingTooDeep => simp [Fault.isAhead] at hahead

/-- The index counts the tokens before the one that is reported. -/
theorem index_eq {g : Grammar} {f : Finding} {ts : Tokens} (h : f.diagnostic.RaisedAt g f.rest)
    (hrest : f.rest <:+ ts) : f.index ts.length = ts.length - f.reported.length := by
  have hle := hrest.length_le
  unfold index reported
  split
  · next hahead =>
    have hpos := List.length_pos_iff.2 (rest_ne_nil h hahead)
    rw [List.length_tail]
    omega
  · rw [Nat.add_zero]

end Finding

/-! ### Traces -/

/-- Findings in tokens that are left, in the order of the source.  The bounds count the
tokens from the reported one on. -/
structure Trace (g : Grammar) (ts : Tokens) (hi lo : Nat) (fs : List Finding) : Prop where
  /-- Each has been raised somewhere in the tokens. -/
  raised : ∀ f ∈ fs, f.diagnostic.RaisedAt g f.rest ∧ f.rest <:+ ts
  /-- None is reported before the first bound, -/
  le_hi : ∀ f ∈ fs, f.reported.length ≤ hi
  /-- and none behind the last one. -/
  lo_le : ∀ f ∈ fs, lo ≤ f.reported.length
  /-- A later one is reported no earlier. -/
  sorted : fs.Pairwise fun f f' => f'.reported.length ≤ f.reported.length

namespace Trace

variable {g : Grammar} {ts us : Tokens} {hi hi' mid mid' lo : Nat} {fs fs' : List Finding}

theorem nil (g : Grammar) (ts : Tokens) (hi lo : Nat) : Trace g ts hi lo [] where
  raised := List.forall_mem_nil _
  le_hi := List.forall_mem_nil _
  lo_le := List.forall_mem_nil _
  sorted := List.Pairwise.nil

theorem singleton {f : Finding} (hf : f.diagnostic.RaisedAt g f.rest) (hrest : f.rest <:+ ts)
    (hhi : f.reported.length ≤ hi) : Trace g ts hi f.reported.length [f] where
  raised := List.forall_mem_singleton.2 ⟨hf, hrest⟩
  le_hi := List.forall_mem_singleton.2 hhi
  lo_le := List.forall_mem_singleton.2 (Nat.le_refl _)
  sorted := List.pairwise_singleton _ _

theorem mono (h : Trace g us hi lo fs) (hus : us <:+ ts) (hhi : hi ≤ hi') :
    Trace g ts hi' lo fs where
  raised f hf := ⟨(h.raised f hf).1, (h.raised f hf).2.trans hus⟩
  le_hi f hf := Nat.le_trans (h.le_hi f hf) hhi
  lo_le := h.lo_le
  sorted := h.sorted

/-- The later findings start where the earlier ones end. -/
theorem append (h : Trace g ts hi mid fs) (h' : Trace g us mid' lo fs') (hus : us <:+ ts)
    (hmid : mid' ≤ mid) (hhi : mid ≤ hi) (hlo : lo ≤ mid) : Trace g ts hi lo (fs ++ fs') where
  raised := List.forall_mem_append.2 ⟨h.raised, (h'.mono hus (Nat.le_refl _)).raised⟩
  le_hi := List.forall_mem_append.2 ⟨h.le_hi, fun f hf =>
    Nat.le_trans (h'.le_hi f hf) (Nat.le_trans hmid hhi)⟩
  lo_le := List.forall_mem_append.2 ⟨fun f hf => Nat.le_trans hlo (h.lo_le f hf), h'.lo_le⟩
  sorted := List.pairwise_append.2 ⟨h.sorted, h'.sorted, fun f hf f' hf' =>
    Nat.le_trans (h'.le_hi f' hf') (Nat.le_trans hmid (h.lo_le f hf))⟩

end Trace

/-! ### Steps that are tracked -/

namespace Tokens

variable {ts us : Tokens}

theorem length_tail_le (ts : Tokens) : ts.tail.length ≤ ts.length :=
  (List.tail_suffix ts).length_le

theorem length_tail_le_of_suffix (h : us <:+ ts) : us.tail.length ≤ ts.tail.length := by
  rw [List.length_tail, List.length_tail]
  exact Nat.sub_le_sub_right h.length_le 1

end Tokens

namespace Reply

variable {α β : Type} {g : Grammar} {hi hi' mid : Nat} {ts us : Tokens}

/-- What the replies to the observers of a step on `ts` have in common: they are the same but
for what has been noted, and what has been found is a trace.  A step that has read something
has not found anything behind the token ahead of where it stops. -/
inductive Tracked (g : Grammar) (hi : Nat) (ts : Tokens) : (Observer → Reply α) → Prop where
  /-- The step has read something, up to a last token. -/
  | ok {value : α} {rest : Tokens} {fs : List Finding} (hrest : rest <:+ ts) (hne : rest ≠ [])
      (htrace : Trace g ts hi rest.tail.length fs) :
      Tracked g hi ts fun observer => .ok value rest (fs.map fun f => f.noted observer)
  /-- The step has ended with a diagnostic, which may have been noted or not. -/
  | fail {f : Finding} {diagnostic : Observer → Diagnostic} {fs : List Finding}
      (hnoted : ∀ observer, (diagnostic observer).noted observer f.rest = f.noted observer)
      (htrace : Trace g ts hi f.reported.length (fs ++ [f])) :
      Tracked g hi ts fun observer =>
        .fail (diagnostic observer) f.rest (fs.map fun f => f.noted observer)

theorem Tracked.mono {replies : Observer → Reply α} (h : Tracked g hi us replies) (hus : us <:+ ts)
    (hhi : hi ≤ hi') : Tracked g hi' ts replies := by
  cases h with
  | ok hrest hne htrace => exact .ok (hrest.trans hus) hne (htrace.mono hus hhi)
  | fail hnoted htrace => exact .fail hnoted (htrace.mono hus hhi)

/-- What a step finds that goes on at `rest` stands behind what has been found before. -/
theorem Tracked.after {rest : Tokens} {fs : List Finding} {replies : Observer → Reply α}
    (h : Tracked g mid rest replies) (htrace : Trace g ts hi mid fs) (hrest : rest <:+ ts)
    (hmid : rest.tail.length ≤ mid) (hhi : mid ≤ hi) :
    Tracked g hi ts fun observer =>
      (replies observer).after (fs.map fun f => f.noted observer) := by
  cases h with
  | ok hrest' hne htrace' =>
    simp only [Reply.after_ok, ← List.map_append]
    refine .ok (hrest'.trans hrest) hne (htrace.append htrace' hrest (Nat.le_refl _) hhi ?_)
    exact Nat.le_trans (length_tail_le_of_suffix hrest') hmid
  | fail hnoted htrace' =>
    simp only [Reply.after_fail, ← List.map_append]
    refine .fail hnoted ?_
    rw [List.append_assoc]
    refine htrace.append htrace' hrest (Nat.le_refl _) hhi ?_
    exact htrace'.le_hi _ (List.mem_append_right _ (List.mem_singleton.2 rfl))

/-- One step after another: the second one reads on behind the last token of the first. -/
theorem Tracked.bind_of_eq {first : Observer → Step α} {second : Observer → α → Step β}
    {input : Tokens} (hfirst : Tracked g hi ts fun observer => first observer input)
    (hhi : ts.tail.length ≤ hi)
    (hsecond : ∀ value rest log, first none input = .ok value rest log → rest ≠ [] →
      Tracked g rest.tail.length rest fun observer => second observer value rest) :
    Tracked g hi ts fun observer => (first observer >>= second observer) input := by
  simp only [Step.bind_apply]
  generalize hreplies : (fun observer => first observer input) = replies at hfirst
  have hfirst' (observer : Observer) : first observer input = replies observer :=
    congrFun hreplies observer
  rw [hfirst' none] at hsecond
  simp only [hfirst']
  cases hfirst with
  | ok hrest hne htrace =>
    have htail := Nat.le_trans (length_tail_le_of_suffix hrest) hhi
    exact (hsecond _ _ _ rfl hne).after htrace hrest (Nat.le_refl _) htail
  | fail hnoted htrace => exact .fail hnoted htrace

theorem Tracked.bind {first : Observer → Step α} {second : Observer → α → Step β}
    {input : Tokens} (hfirst : Tracked g hi ts fun observer => first observer input)
    (hhi : ts.tail.length ≤ hi)
    (hsecond : ∀ value rest, rest ≠ [] →
      Tracked g rest.tail.length rest fun observer => second observer value rest) :
    Tracked g hi ts fun observer => (first observer >>= second observer) input :=
  hfirst.bind_of_eq hhi fun value rest _ _ => hsecond value rest

/-- A step that finds nothing and stops at a token. -/
theorem tracked_ok {value : α} {rest : Tokens} (hrest : rest <:+ ts) (hne : rest ≠ []) :
    Tracked g hi ts fun _ => .ok value rest [] :=
  @Tracked.ok α g hi ts value rest [] hrest hne (.nil g ts hi _)

theorem tracked_pure {value : α} (hts : ts ≠ []) :
    Tracked g hi ts fun _ => (pure value : Step α) ts :=
  tracked_ok (List.suffix_refl ts) hts

/-- A step that finds nothing but what it ends with. -/
theorem tracked_fail (f : Finding) (hf : f.diagnostic.RaisedAt g f.rest) (hrest : f.rest <:+ ts)
    (hhi : f.reported.length ≤ hi) :
    Tracked g hi ts fun _ => (.fail f.diagnostic f.rest [] : Reply α) :=
  @Tracked.fail α g hi ts f (fun _ => f.diagnostic) [] (fun _ => rfl) (.singleton hf hrest hhi)

end Reply

namespace Step

open Reply

variable {α β : Type} {g : Grammar} {hi : Nat} {ts : Tokens} {second : Observer → Token → Step β}

/-! ### Single moves -/

theorem tracked_current (h : Tracked g hi ts fun observer => second observer ts.current ts) :
    Tracked g hi ts fun observer => (current >>= second observer) ts := by
  simpa only [current_bind] using h

theorem tracked_peek (h : Tracked g hi ts fun observer => second observer ts.peek ts) :
    Tracked g hi ts fun observer => (peek >>= second observer) ts := by
  simpa only [peek_bind] using h

theorem tracked_advance
    (h : Tracked g hi ts.tail fun observer => second observer ts.current ts.tail) :
    Tracked g hi ts fun observer => (advance >>= second observer) ts := by
  simp only [advance_bind]
  exact h.mono (List.tail_suffix ts) (Nat.le_refl _)

/-- What is wrong with the current token is reported there. -/
theorem tracked_reject {cause : Fault}
    (hcause : (Diagnostic.mk cause ts.current).RaisedAt g ts) (hahead : cause.isAhead = false) :
    Tracked g ts.length ts fun _ => (reject cause : Step α) ts := by
  have hreported : (Finding.mk ⟨cause, ts.current⟩ ts).reported = ts := by
    simp [Finding.reported, hahead]
  exact tracked_fail ⟨⟨cause, ts.current⟩, ts⟩ hcause (List.suffix_refl ts)
    (Nat.le_of_eq (congrArg List.length hreported))

theorem tail_ne_nil_of_peek {kind : Kind} (hpeek : ts.peek.kind = kind) (heof : kind ≠ .eof) :
    ts.tail ≠ [] := by
  have hcurrent : (Tokens.current ts.tail).kind ≠ .eof := hpeek ▸ heof
  exact ne_nil_of_current_kind hcurrent

/-- A token that must follow is looked for behind the current one. -/
theorem tracked_expect {kind : Kind} (hts : ts ≠ []) (heof : kind ≠ .eof)
    (hbrace : kind ≠ .rbrace) :
    Tracked g ts.tail.length ts fun _ => expect kind ts := by
  rw [expect_apply]
  by_cases hpeek : ts.peek.kind = kind
  · simp only [if_pos hpeek]
    exact tracked_ok (List.tail_suffix ts) (tail_ne_nil_of_peek hpeek heof)
  · simp only [if_neg hpeek]
    have hreported : (Finding.mk ⟨.unexpectedToken kind ts.peek.kind, ts.peek⟩ ts).reported =
        ts.tail := by
      simp [Finding.reported, Fault.isAhead, hbrace]
    exact tracked_fail ⟨⟨.unexpectedToken kind ts.peek.kind, ts.peek⟩, ts⟩
      (.unexpectedToken hts hbrace hpeek) (List.suffix_refl ts)
      (Nat.le_of_eq (congrArg List.length hreported))

theorem tracked_skipSemicolon (hts : ts ≠ []) :
    Tracked g ts.tail.length ts fun _ => skipSemicolon ts := by
  rw [skipSemicolon_apply]
  by_cases hpeek : ts.peek.kind = .semicolon
  · simp only [if_pos hpeek]
    exact tracked_ok (List.tail_suffix ts) (tail_ne_nil_of_peek hpeek (by decide))
  · simp only [if_neg hpeek]
    exact tracked_ok (List.suffix_refl ts) hts

/-! ### Loops -/

theorem tracked_collectWhile (round : Observer → Step (α × Bool))
    (hprogress : (round none).Progresses fun value => value.2 = true)
    (hround : ∀ ts, ts ≠ [] → Tracked g ts.tail.length ts fun observer => round observer ts)
    {n : Nat} (hts : ts ≠ []) (hn : ts.length < n) :
    Tracked g ts.tail.length ts fun observer => collectWhile (round observer) n ts := by
  induction n generalizing ts with
  | zero => omega
  | succ n ih =>
    refine (hround ts hts).bind_of_eq (Nat.le_refl _) fun ⟨value, more⟩ rest log heq hrest => ?_
    cases more with
    | false => exact tracked_pure hrest
    | true =>
      have hlt := hprogress.length_lt heq rfl
      exact (ih hrest (by omega)).bind (Nat.le_refl _) fun _ _ hrest => tracked_pure hrest

theorem tracked_fold (round : Observer → α → Step (Option α))
    (hprogress : ∀ left, (round none left).Progresses fun next => next.isSome = true)
    (hround : ∀ left ts, ts ≠ [] →
      Tracked g ts.tail.length ts fun observer => round observer left ts)
    {n : Nat} (left : α) (hts : ts ≠ []) (hn : ts.length < n) :
    Tracked g ts.tail.length ts fun observer => fold (round observer) n left ts := by
  induction n generalizing ts left with
  | zero => omega
  | succ n ih =>
    refine (hround left ts hts).bind_of_eq (Nat.le_refl _) fun next rest log heq hrest => ?_
    cases next with
    | none => exact tracked_pure hrest
    | some value =>
      have hlt := (hprogress left).length_lt heq rfl
      exact ih value hrest (by omega)

end Step

end Script
