import Mathlib.Order.Bounds.Basic
import Script.Proofs.Machine

/-!
# Where recovery stops

Recovery looks for some tokens before it moves on and for others behind the move, and what it
looks for depends on whether it stands in a block.  Seen from the stream of tokens that are
still to come there is one place at which it stops: the first one at all that lies right behind
a `;`, at a `let` or a `return`, or at a token from which it does not move.  Only there does it
not move at all.

## Main definitions

* `Tokens.Holds` — recovery does not move on from a token.
* `Tokens.Ends` — recovery that has moved can stop at an index of a stream.
* `Tokens.IsStop` — recovery stops at an index of a stream.
* `Machine.upcoming` — the stream of the tokens that are still to come.
* `Machine.skip` — a machine that has been moved on.

## Main results

* `Tokens.IsStop.unique` — there is one place at which recovery stops.
* `Machine.exists_recoverWithin` — recovery stops there.
* `Machine.synchronize_stops` — **what recovery skips, and what it leaves alone.**
-/

namespace Script

/-! ### The place -/

namespace Tokens

variable {inBlock : Bool} {stream : Nat → Token} {stop : Nat}

/-- Recovery does not move on from the end, nor from the closing brace of the block in which it
stands. -/
def Holds (inBlock : Bool) (t : Token) : Prop :=
  t.kind = .eof ∨ inBlock = true ∧ t.kind = .rbrace

/-- Recovery that has moved can stop at an index: right behind a `;`, at a token with which a
statement starts, or where it does not move on. -/
def Ends (inBlock : Bool) (stream : Nat → Token) (i : Nat) : Prop :=
  (stream (i - 1)).kind = .semicolon ∨ startsStatement (stream i).kind = true ∨
    Holds inBlock (stream i)

/-- Recovery at the start of a stream stops at an index. -/
structure IsStop (inBlock : Bool) (stream : Nat → Token) (stop : Nat) : Prop where
  /-- It stays where it does not move on. -/
  held : Holds inBlock (stream 0) → stop = 0
  /-- Anywhere else it moves, up to the first place at which it can stop then. -/
  least : ¬Holds inBlock (stream 0) → IsLeast {i | 1 ≤ i ∧ Ends inBlock stream i} stop

theorem not_holds_of_startsStatement {t : Token} (h : startsStatement t.kind = true) :
    ¬Holds inBlock t := by
  rintro (heof | ⟨-, hbrace⟩)
  · rw [heof] at h
    exact absurd h (by decide)
  · rw [hbrace] at h
    exact absurd h (by decide)

theorem isStop_zero (h : Holds inBlock (stream 0)) : IsStop inBlock stream 0 :=
  ⟨fun _ => rfl, absurd h⟩

theorem isStop_one (h : ¬Holds inBlock (stream 0)) (hends : Ends inBlock stream 1) :
    IsStop inBlock stream 1 :=
  ⟨fun hheld => absurd hheld h, fun _ => ⟨⟨Nat.le_refl 1, hends⟩, fun _ hi => hi.1⟩⟩

/-- Recovery that cannot stop behind its first move goes on from there. -/
theorem isStop_succ (h : ¬Holds inBlock (stream 0)) (hsemicolon : (stream 0).kind ≠ .semicolon)
    (hstart : startsStatement (stream 1).kind = false)
    (hstop : IsStop inBlock (fun i => stream (i + 1)) stop) : IsStop inBlock stream (stop + 1) := by
  by_cases hnext : Holds inBlock (stream 1)
  · obtain rfl : stop = 0 := hstop.held hnext
    exact isStop_one h (.inr (.inr hnext))
  · refine ⟨fun hheld => absurd hheld h, fun _ => ?_⟩
    obtain ⟨⟨hpos, hends⟩, hleast⟩ := hstop.least hnext
    -- behind its first move recovery sees the stream from the second token on
    have hshift {i : Nat} (hi : 1 ≤ i) :
        Ends inBlock (fun i => stream (i + 1)) i ↔ Ends inBlock stream (i + 1) := by
      rw [Ends, Ends, Nat.sub_add_cancel hi, Nat.add_sub_cancel]
    refine ⟨⟨Nat.le_add_left 1 stop, (hshift hpos).1 hends⟩, ?_⟩
    rintro i ⟨hi, hendsi⟩
    rcases Nat.eq_or_lt_of_le hi with rfl | hlt
    · -- the second token is none of those at which it stops
      rcases hendsi with hbehind | hat | hheld
      · exact absurd hbehind hsemicolon
      · rw [hstart] at hat
        exact absurd hat (by decide)
      · exact absurd hheld hnext
    · have hpred : 1 ≤ i - 1 := Nat.le_sub_one_of_lt hlt
      have hendsp : Ends inBlock (fun i => stream (i + 1)) (i - 1) := by
        rw [hshift hpred, Nat.sub_add_cancel hi]
        exact hendsi
      have hle : stop ≤ i - 1 := hleast ⟨hpred, hendsp⟩
      omega

namespace IsStop

/-- There is one place at which recovery stops. -/
theorem unique {stop' : Nat} (h : IsStop inBlock stream stop) (h' : IsStop inBlock stream stop') :
    stop = stop' := by
  by_cases hheld : Holds inBlock (stream 0)
  · rw [h.held hheld, h'.held hheld]
  · exact (h.least hheld).unique (h'.least hheld)

/-- Recovery moves on from a `let` or a `return` on which it starts. -/
theorem pos_of_startsStatement (h : IsStop inBlock stream stop)
    (hstart : startsStatement (stream 0).kind = true) : 1 ≤ stop :=
  (h.least (not_holds_of_startsStatement hstart)).1.1

/-- Recovery does not skip over a `;` without stopping right behind it. -/
theorem eq_succ_of_semicolon (h : IsStop inBlock stream stop) {i : Nat} (hi : i < stop)
    (hsemicolon : (stream i).kind = .semicolon) : stop = i + 1 := by
  have hmoves : ¬Holds inBlock (stream 0) := by
    intro hheld
    rw [h.held hheld] at hi
    exact absurd hi (Nat.not_lt_zero i)
  have hle : stop ≤ i + 1 := (h.least hmoves).2 ⟨Nat.le_add_left 1 i, .inl hsemicolon⟩
  omega

end IsStop

end Tokens

/-! ### Machines that are moved on -/

namespace Machine

open Tokens

variable {m : Machine}

/-- The tokens that are still to come, and then the end of the source for ever. -/
def upcoming (m : Machine) : Nat → Token
  | 0 => m.current
  | 1 => m.peek
  | i + 2 => m.lexer.tokenAt i

/-- Moves on over the given number of tokens. -/
def skip : Nat → Machine → Machine
  | 0, m => m
  | count + 1, m => skip count m.advance.2

theorem upcoming_advance (m : Machine) (i : Nat) : m.advance.2.upcoming i = m.upcoming (i + 1) :=
  match i with
  | 0 => rfl
  | 1 => rfl
  | _ + 2 => rfl

theorem upcoming_skip (count i : Nat) (m : Machine) :
    (m.skip count).upcoming i = m.upcoming (count + i) := by
  induction count generalizing m with
  | zero => rw [skip, Nat.zero_add]
  | succ count ih => rw [skip, ih, upcoming_advance, Nat.add_right_comm]

/-- A machine that is moved on is the same apart from its tokens. -/
theorem skip_eq (count : Nat) (m : Machine) :
    (m.skip count).diagnostics = m.diagnostics ∧ (m.skip count).depth = m.depth ∧
      (m.skip count).lookups = m.lookups := by
  induction count generalizing m with
  | zero => exact ⟨rfl, rfl, rfl⟩
  | succ count ih => exact ih m.advance.2

theorem unread_of_eof (h : m.current.kind = .eof) : m.unread = [] := by
  rw [unread, List.takeWhile_cons_of_neg (by simp [h])]

/-- Of the tokens that are still to come the current one is the first. -/
theorem unread_of_ne_eof (h : m.current.kind ≠ .eof) :
    m.unread = m.current :: m.advance.2.unread := by
  rw [unread, List.takeWhile_cons_of_pos (by simp [h])]
  show _ = _ :: (m.peek :: m.lexer.next.1 :: m.lexer.next.2.remaining).takeWhile _
  rw [Lexer.next_fst, Lexer.remaining_next]
  cases m.lexer.remaining with
  | nil =>
    -- the end that is read behind the last token counts for nothing
    by_cases hpeek : m.peek.kind = .eof <;> simp [hpeek]
  | cons t ts => rfl

/-- The first of the tokens that are still to come is of the kind of the current one, which may
be the end. -/
theorem kind_current_unread (m : Machine) : (Tokens.current m.unread).kind = m.current.kind := by
  by_cases heof : m.current.kind = .eof
  · rw [unread_of_eof heof, heof]
    rfl
  · rw [unread_of_ne_eof heof, current_cons]

/-! ### Recovery of a machine -/

/-- Recovery stops at its place, if it may take as many rounds as there are tokens and one more;
and what is left there is what is left when it skips in the list of these tokens. -/
theorem exists_recoverWithin (inBlock : Bool) {rounds : Nat} (hrounds : m.unread.length < rounds) :
    ∃ stop, m.recoverWithin inBlock rounds = some (m.skip stop) ∧
      IsStop inBlock m.upcoming stop ∧ m.unread.recover inBlock = (m.skip stop).unread ∧
      (m.skip stop).unread = m.unread.drop stop := by
  induction rounds generalizing m with
  | zero => exact absurd hrounds (Nat.not_lt_zero _)
  | succ rounds ih =>
    rw [recoverWithin]
    by_cases heof : m.current.kind = .eof
    · rw [if_pos heof]
      refine ⟨0, rfl, isStop_zero (.inl heof), ?_, rfl⟩
      rw [unread_of_eof heof, recover_nil]
      exact (unread_of_eof heof).symm
    rw [if_neg heof, unread_of_ne_eof heof, recover]
    -- the machine asks for the brace before the mode, the list of tokens the other way round
    have hcloses : (inBlock && decide (m.current.kind = .rbrace)) = true ↔
        m.current.kind = .rbrace ∧ inBlock = true := by
      rw [Bool.and_eq_true, decide_eq_true_iff, and_comm]
    by_cases hbrace : m.current.kind = .rbrace ∧ inBlock = true
    · rw [if_pos hbrace, if_pos (hcloses.2 hbrace)]
      exact ⟨0, rfl, isStop_zero (.inr hbrace.symm), (unread_of_ne_eof heof).symm,
        unread_of_ne_eof heof⟩
    rw [if_neg hbrace, if_neg (mt hcloses.1 hbrace)]
    have hmoves : ¬Holds inBlock (m.upcoming 0) := by
      rintro (hheld | hheld)
      · exact heof hheld
      · exact hbrace hheld.symm
    by_cases hsemicolon : m.current.kind = .semicolon
    · rw [if_pos hsemicolon, if_pos hsemicolon]
      exact ⟨1, rfl, isStop_one hmoves (.inl hsemicolon), rfl, rfl⟩
    rw [if_neg hsemicolon, if_neg hsemicolon]
    rw [kind_current_unread]
    cases hstart : Tokens.startsStatement m.advance.2.current.kind with
    | true => exact ⟨1, rfl, isStop_one hmoves (.inr (.inl hstart)), rfl, rfl⟩
    | false =>
      have hfewer : m.advance.2.unread.length < rounds := by
        rw [unread_of_ne_eof heof, List.length_cons] at hrounds
        omega
      obtain ⟨stop, hrecover, hstop, hleft⟩ := ih hfewer
      rw [funext (upcoming_advance m)] at hstop
      exact ⟨stop + 1, hrecover, isStop_succ hmoves hsemicolon hstart hstop, hleft⟩

/-- **What recovery skips, and what it leaves alone.**  Wherever a machine stands and whether or
not it is in a block, recovery comes to an end with the machine moved on to the place at which
it has to stop, and not further: it does not move from the end nor, in a block, from a closing
brace, and from anywhere else it moves up to the first place right behind a `;`, at a `let` or a
`return`, or at one of those from which it does not move.  So it moves on from a `let` or a
`return` on which it starts, and it skips over no `;` without stopping right behind it.  The
diagnostics, the depth and the tables stay as they are.  A parser that has the tokens at hand
is left with the same ones. -/
theorem synchronize_stops (m : Machine) (inBlock : Bool) :
    ∃ (stop : Nat) (m' : Machine), m.synchronize inBlock = some m' ∧
      IsStop inBlock m.upcoming stop ∧
      m'.current = m.upcoming stop ∧ (∀ i, m'.upcoming i = m.upcoming (stop + i)) ∧
      (Tokens.startsStatement m.current.kind = true → 1 ≤ stop) ∧
      (∀ i < stop, (m.upcoming i).kind = .semicolon → stop = i + 1) ∧
      (m'.diagnostics = m.diagnostics ∧ m'.depth = m.depth ∧ m'.lookups = m.lookups) ∧
      m.parser.synchronize inBlock = m'.parser ∧
      m'.parser.tokens = m.parser.tokens.drop stop := by
  obtain ⟨stop, hrecover, hstop, hskips, hdrop⟩ :=
    exists_recoverWithin inBlock (Nat.lt_succ_self m.unread.length)
  obtain ⟨hdiagnostics, hdepth, hlookups⟩ := skip_eq stop m
  refine ⟨stop, m.skip stop, hrecover, hstop, upcoming_skip stop 0 m,
    fun i => upcoming_skip stop i m, hstop.pos_of_startsStatement,
    fun i hi => hstop.eq_succ_of_semicolon hi, ⟨hdiagnostics, hdepth, hlookups⟩, ?_, hdrop⟩
  rw [parser, parser, Parser.synchronize, hdiagnostics, hdepth, hlookups, ← hskips]

end Machine

end Script
