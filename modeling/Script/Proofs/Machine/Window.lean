import Script.Proofs.Machine.Recovery
import Script.Proofs.Machine.Work

/-!
# The window of a machine

The two tokens of a machine are always neighbours in the stream of tokens that its source gives
rise to, and what it has still to read starts right behind them.  The machine is a window on
the stream, and all that its work can do is to move the window on.

## Main definitions

* `Machine.ShowsAt` — the window stands at an index of the stream.
* `Machine.Moves` — the window has been moved on, and diagnostics have been added.
* `Machine.Mirrors` — what comes of some work is what a step replies to the tokens behind the
  window.

## Main results

* `Machine.showsAt_ofLexer` — at first the window stands at the start of the stream.
* `Machine.ShowsAt.unread` — the tokens that are still to come are those from the window on.
* `Machine.ShowsAt.synchronize` — recovery stops where it does on these tokens.
-/

namespace Script

/-! ### Streams of tokens -/

namespace Lexer

variable {source : Lexer} {i : Nat}

theorem next_skip (source : Lexer) (i : Nat) : (source.skip i).next.2 = source.skip (i + 1) := by
  induction i generalizing source with
  | zero => rfl
  | succ i ih => exact ih source.next.2

theorem current_drop (source : Lexer) (i : Nat) :
    Tokens.current (source.remaining.drop i) = source.tokenAt i := by
  rw [tokenAt, next_fst, remaining_skip]

theorem peek_drop (source : Lexer) (i : Nat) :
    Tokens.peek (source.remaining.drop i) = source.tokenAt (i + 1) := by
  rw [Tokens.peek, List.tail_drop, current_drop]

theorem kind_ne_eof_of_mem {t : Token} (h : t ∈ source.remaining) : t.kind ≠ .eof :=
  (spelled_of_mem_tokens h).kind_ne_eof

end Lexer

namespace Machine

variable {α : Type} {source : Lexer} {i j k : Nat} {m m' m'' : Machine} {log log' : List Diagnostic}

/-! ### The window -/

/-- The window stands at an index of the stream of the source. -/
structure ShowsAt (source : Lexer) (i : Nat) (m : Machine) : Prop where
  /-- The current token is the one at the index, -/
  current : m.current = source.tokenAt i
  /-- the one ahead is the next, -/
  peek : m.peek = source.tokenAt (i + 1)
  /-- and what is still to be read starts behind them. -/
  lexer : m.lexer = source.skip (i + 2)

theorem showsAt_ofLexer (source : Lexer) : (ofLexer source).ShowsAt source 0 := ⟨rfl, rfl, rfl⟩

namespace ShowsAt

theorem advance (h : m.ShowsAt source i) : m.advance.2.ShowsAt source (i + 1) where
  current := h.peek
  peek := by
    show m.lexer.next.1 = _
    rw [h.lexer]
    rfl
  lexer := by
    show m.lexer.next.2 = _
    rw [h.lexer, Lexer.next_skip]

/-- The tokens that are still to come are those from the window on. -/
theorem unread (h : m.ShowsAt source i) : m.unread = source.remaining.drop i := by
  have hmem : ∀ t ∈ source.remaining.drop i, t.kind ≠ .eof :=
    fun t ht => Lexer.kind_ne_eof_of_mem (List.mem_of_mem_drop ht)
  have hbehind : m.lexer.remaining = (source.remaining.drop i).tail.tail := by
    rw [h.lexer, Lexer.remaining_skip, List.tail_drop, List.tail_drop]
  rw [Machine.unread, h.current, h.peek, hbehind, ← Lexer.current_drop, ← Lexer.peek_drop]
  rcases hdrop : source.remaining.drop i with _ | ⟨t, _ | ⟨u, ts⟩⟩
  · simp
  · have ht : t.kind ≠ .eof := hmem t (hdrop ▸ List.mem_cons_self)
    simp [ht]
  · -- no token of the source is its end
    rw [hdrop] at hmem
    exact List.takeWhile_eq_self_iff.2 fun v hv => decide_eq_true (hmem v hv)

theorem parser_tokens (h : m.ShowsAt source i) : m.parser.tokens = source.remaining.drop i :=
  h.unread

end ShowsAt

/-! ### Moving on -/

/-- The window has been moved on from one index to another, and diagnostics have been added;
nothing else has changed. -/
structure Moves (source : Lexer) (i : Nat) (m : Machine) (j : Nat) (m' : Machine)
    (log : List Diagnostic) : Prop where
  /-- The window does not move back. -/
  le : i ≤ j
  /-- It stands where it has been moved to. -/
  showsAt : m'.ShowsAt source j
  /-- These diagnostics have been added. -/
  diagnostics : m'.diagnostics = m.diagnostics ++ log
  /-- The machine stands as deep as before -/
  depth : m'.depth = m.depth
  /-- and has the same tables. -/
  lookups : m'.lookups = m.lookups

theorem Moves.refl (h : m.ShowsAt source i) : Moves source i m i m [] :=
  ⟨Nat.le_refl i, h, (List.append_nil _).symm, rfl, rfl⟩

theorem Moves.trans (h : Moves source i m j m' log) (h' : Moves source j m' k m'' log') :
    Moves source i m k m'' (log ++ log') where
  le := Nat.le_trans h.le h'.le
  showsAt := h'.showsAt
  diagnostics := by rw [h'.diagnostics, h.diagnostics, List.append_assoc]
  depth := h'.depth.trans h.depth
  lookups := h'.lookups.trans h.lookups

theorem ShowsAt.moves_advance (h : m.ShowsAt source i) :
    Moves source i m (i + 1) m.advance.2 [] :=
  ⟨Nat.le_succ i, h.advance, (List.append_nil _).symm, rfl, rfl⟩

theorem ShowsAt.moves_record (h : m.ShowsAt source i) (diagnostic : Diagnostic) :
    Moves source i m i (m.record diagnostic) [diagnostic] :=
  ⟨Nat.le_refl i, ⟨h.current, h.peek, h.lexer⟩, rfl, rfl, rfl⟩

theorem ShowsAt.moves_skip (h : m.ShowsAt source i) (count : Nat) :
    Moves source i m (i + count) (m.skip count) [] := by
  induction count generalizing i m with
  | zero => exact .refl h
  | succ count ih =>
    have hmoves := h.moves_advance.trans (ih h.advance)
    rw [Nat.add_right_comm, Nat.add_assoc] at hmoves
    exact hmoves

/-- Recovery stops where it does on the tokens from the window on. -/
theorem ShowsAt.synchronize (h : m.ShowsAt source i) (inBlock : Bool) :
    ∃ j m', m.synchronize inBlock = some m' ∧ Moves source i m j m' [] ∧
      Tokens.recover inBlock (source.remaining.drop i) = source.remaining.drop j := by
  obtain ⟨stop, hrecover, -, hskips, -⟩ :=
    exists_recoverWithin inBlock (Nat.lt_succ_self m.unread.length)
  have hmoves := h.moves_skip stop
  rw [h.unread, hmoves.showsAt.unread] at hskips
  exact ⟨i + stop, m.skip stop, hrecover, hmoves, hskips⟩

/-! ### What comes of work -/

/-- What comes of the work of a machine is what a step replies, and the window stands where the
step has stopped. -/
inductive Mirrors (source : Lexer) (i : Nat) (m : Machine) :
    Option (Except Diagnostic α × Machine) → Reply α → Prop where
  /-- A value has been read, -/
  | ok {j : Nat} {m' : Machine} {value : α} {log : List Diagnostic}
      (hmoves : Moves source i m j m' log) :
      Mirrors source i m (some (.ok value, m')) (.ok value (source.remaining.drop j) log)
  /-- a diagnostic is handed on, -/
  | fail {j : Nat} {m' : Machine} {diagnostic : Diagnostic} {log : List Diagnostic}
      (hmoves : Moves source i m j m' log) :
      Mirrors source i m (some (.error diagnostic, m'))
        (.fail diagnostic (source.remaining.drop j) log)
  /-- or neither ever comes to an end. -/
  | diverges : Mirrors source i m none .diverges

namespace Mirrors

/-- What comes of work behind other work mirrors a reply behind another one. -/
theorem after {outcome : Option (Except Diagnostic α × Machine)} {reply : Reply α}
    (h : Moves source i m j m' log) (h' : Mirrors source j m' outcome reply) :
    Mirrors source i m outcome (reply.after log) := by
  cases h' with
  | ok hmoves => exact .ok (h.trans hmoves)
  | fail hmoves => exact .fail (h.trans hmoves)
  | diverges => exact .diverges

end Mirrors

end Machine

end Script
