import Mathlib.Data.String.Basic
import PatternTree.Cursor
/-!
# Runs of a cursor

Operations on a cursor, one after the other, read a text from its start: whatever they are, the
characters that they have consumed are the beginning of the text, and the position is the length of
that beginning in bytes. So a position never lies inside a character, and what is left of the text
begins there. What an operation has consumed is told from its answer alone.

## Main definitions

* `Cursor.Operation`, `Cursor.Answer` — the operations, and what they return.
* `Cursor.Operation.run`, `Cursor.Operation.consumed?` — one operation, and what it has consumed.
* `Cursor.after`, `Cursor.consumed` — a run of operations, and what it has consumed.
* `Cursor.Behind` — a cursor behind a beginning of a text.

## Main results

* `Cursor.Operation.run_cases` — an operation reads the next character, or it moves nothing.
* `Cursor.Behind.run`, `Cursor.Behind.after` — one operation and a run of them.
* `Cursor.run_ofString` — what holds at each point of a run over a text.
-/

open String (utf8Len utf8Len_toList)

namespace PatternTree

namespace Cursor

/-- An operation on a cursor. -/
inductive Operation where
  /-- Asks whether a character is left. -/
  | hasNext
  /-- Reads the next character. -/
  | next
  /-- Reads the next character if it is one of `allowed`. -/
  | nextIn (allowed : List Char)
  /-- Asks whether the next character is one of `allowed`. -/
  | peekIn (allowed : List Char)
  /-- Reads the next character if it is `c`. -/
  | skip (c : Char)

/-- What an operation returns. -/
inductive Answer where
  /-- Yes or no. -/
  | bool (b : Bool)
  /-- The character that has been read. -/
  | char (c : Char)
  /-- No character. -/
  | nothing
  /-- A fault. -/
  | fault (e : SyntaxError)

namespace Operation

/-- What an operation returns, and the cursor behind it. -/
def run (cur : Cursor) : Operation → Answer × Cursor
  | hasNext => (.bool cur.hasNext, cur)
  | next =>
    match cur.next with
    | .ok (c, cur') => (.char c, cur')
    | .error e => (.fault e, cur)
  | nextIn allowed =>
    match cur.nextIn? allowed with
    | some (c, cur') => (.char c, cur')
    | none => (.nothing, cur)
  | peekIn allowed => (.bool (cur.peekIn allowed), cur)
  | skip c =>
    match cur.skip? c with
    | some cur' => (.bool true, cur')
    | none => (.bool false, cur)

/-- The character that an operation has consumed, told from its answer: the one that it returns, or
the expected one if that has been found. Asking consumes nothing. -/
def consumed? : Operation → Answer → Option Char
  | next, .char c | nextIn _, .char c => some c
  | skip c, .bool true => some c
  | _, _ => none

/-- An operation leaves the cursor as it is, or it reads the next character and its answer shows
which one that is. -/
theorem run_cases (op : Operation) (cur : Cursor) :
    (op.consumed? (op.run cur).1 = none ∧ (op.run cur).2 = cur) ∨
      ∃ c rest, cur.rest = c :: rest ∧ op.consumed? (op.run cur).1 = some c ∧
        (op.run cur).2 = ⟨rest, cur.position + c.utf8Size⟩ := by
  obtain ⟨rest, position⟩ := cur
  cases op with
  | hasNext | peekIn => exact Or.inl ⟨rfl, rfl⟩
  | next =>
    cases rest with
    | nil => exact Or.inl ⟨rfl, rfl⟩
    | cons c rest => exact Or.inr ⟨c, rest, rfl, rfl, rfl⟩
  | nextIn allowed =>
    cases rest with
    | nil => exact Or.inl ⟨rfl, rfl⟩
    | cons c rest =>
      by_cases hc : c ∈ allowed
      · exact Or.inr ⟨c, rest, rfl, by simp [run, nextIn?, hc, consumed?],
          by simp [run, nextIn?, hc]⟩
      · exact Or.inl ⟨by simp [run, nextIn?, hc, consumed?], by simp [run, nextIn?, hc]⟩
  | skip d =>
    cases rest with
    | nil => exact Or.inl ⟨rfl, rfl⟩
    | cons c rest =>
      by_cases hc : c = d
      · exact Or.inr ⟨c, rest, rfl, by simp [run, skip?, nextIn?, hc, consumed?],
          by simp [run, skip?, nextIn?, hc]⟩
      · exact Or.inl ⟨by simp [run, skip?, nextIn?, hc, consumed?],
          by simp [run, skip?, nextIn?, hc]⟩

end Operation

/-- The cursor behind a run of operations. -/
def after (cur : Cursor) : List Operation → Cursor
  | [] => cur
  | op :: ops => (op.run cur).2.after ops

/-- The characters that a run of operations has consumed, told from the answers. -/
def consumed (cur : Cursor) : List Operation → List Char
  | [] => []
  | op :: ops => (op.consumed? (op.run cur).1).toList ++ (op.run cur).2.consumed ops

/-- Whether a cursor in the text `p` stands behind the characters `before`. -/
structure Behind (p before : List Char) (cur : Cursor) : Prop where
  /-- What is left is the rest of the text. -/
  eq_append : p = before ++ cur.rest
  /-- The position counts the bytes before it. -/
  position_eq : cur.position = utf8Len before

variable {p before : List Char} {cur : Cursor} {op : Operation} {ops more : List Operation}

theorem behind_ofString (p : String) : Behind p.toList [] (ofString p) :=
  ⟨rfl, rfl⟩

/-- An operation puts what it has consumed behind what was consumed before. -/
theorem Behind.run (h : Behind p before cur) :
    Behind p (before ++ (op.consumed? (op.run cur).1).toList) (op.run cur).2 := by
  rcases op.run_cases cur with ⟨hnone, hcur⟩ | ⟨c, rest, hrest, hsome, hcur⟩
  · rw [hnone, hcur, Option.toList_none, List.append_nil]
    exact h
  · rw [hsome, hcur, Option.toList_some]
    refine ⟨?_, ?_⟩
    · rw [h.eq_append, hrest, List.append_assoc, List.singleton_append]
    · rw [h.position_eq, String.utf8Len_append]
      simp

/-- A run puts what it has consumed behind what was consumed before. -/
theorem Behind.after (h : Behind p before cur) :
    Behind p (before ++ cur.consumed ops) (cur.after ops) := by
  induction ops generalizing before cur with
  | nil =>
    rw [consumed, List.append_nil]
    exact h
  | cons op ops ih =>
    rw [consumed, ← List.append_assoc]
    exact ih h.run

theorem after_append (cur : Cursor) (ops more : List Operation) :
    cur.after (ops ++ more) = (cur.after ops).after more := by
  induction ops generalizing cur with
  | nil => rfl
  | cons op ops ih => exact ih (op.run cur).2

/-- An operation moves forward by the bytes of what it consumes, and by none if it consumes
nothing. -/
theorem Operation.position_run (op : Operation) (cur : Cursor) :
    (op.run cur).2.position =
      cur.position + utf8Len (op.consumed? (op.run cur).1).toList := by
  rcases op.run_cases cur with ⟨hnone, hcur⟩ | ⟨c, rest, -, hsome, hcur⟩
  · rw [hnone, hcur, Option.toList_none, String.utf8Len_nil, Nat.add_zero]
  · rw [hsome, hcur, Option.toList_some, String.utf8Len_cons, String.utf8Len_nil, Nat.zero_add]

/-- A run never moves back. -/
theorem position_le_after (cur : Cursor) (ops : List Operation) :
    cur.position ≤ (cur.after ops).position := by
  induction ops generalizing cur with
  | nil => exact le_rfl
  | cons op ops ih =>
    calc cur.position ≤ (op.run cur).2.position := by
          rw [op.position_run]
          exact Nat.le_add_right _ _
      _ ≤ ((op.run cur).2.after ops).position := ih _

/-- Reading fails at the end of the text only, and there it always does, at the offset of the
end. -/
theorem run_next_eq_fault_iff {e : SyntaxError} :
    (Operation.next.run cur).1 = .fault e ↔
      cur.hasNext = false ∧ e = ⟨.unexpectedEnd, cur.position⟩ := by
  obtain ⟨rest, position⟩ := cur
  cases rest with
  | nil => simp [Operation.run, next, hasNext, eq_comm]
  | cons c rest => simp [Operation.run, next, hasNext]

/-- Behind a beginning of a text, a character is left iff the position is before the end. -/
theorem Behind.hasNext_iff (h : Behind p before cur) :
    cur.hasNext = true ↔ cur.position < utf8Len p := by
  rw [h.eq_append, h.position_eq, String.utf8Len_append, hasNext]
  cases cur.rest with
  | nil => simp
  | cons c rest =>
    have hpos := c.utf8Size_pos
    simp only [List.isEmpty_cons, Bool.not_false, String.utf8Len_cons, true_iff]
    omega

/-- At each point of a run over a text, what has been consumed is the beginning of the text whose
length in bytes is the position. So the position is at a boundary between characters, not behind the
end, and the run goes on from there without moving back. One more operation leaves the position
where it is unless it consumes a character, and then moves by the bytes of that one. A character is
left iff the position is before the end; if none is left, and only then, reading fails, with the
position as the offset. -/
theorem run_ofString (p : String) (ops : List Operation) :
    let cur := (ofString p).after ops
    let before := String.ofList ((ofString p).consumed ops)
    (p = before ++ String.ofList cur.rest ∧ before.utf8ByteSize = cur.position) ∧
      (String.Pos.Raw.IsValid p ⟨cur.position⟩ ∧ cur.position ≤ p.utf8ByteSize) ∧
      (∀ more, cur.position ≤ ((ofString p).after (ops ++ more)).position) ∧
      (∀ op : Operation, match op.consumed? (op.run cur).1 with
        | none => (op.run cur).2.position = cur.position
        | some c => (op.run cur).2.position = cur.position + c.utf8Size) ∧
      (cur.hasNext = true ↔ cur.position < p.utf8ByteSize) ∧
      ∀ e, (Operation.next.run cur).1 = .fault e ↔
        cur.hasNext = false ∧ e = ⟨.unexpectedEnd, cur.position⟩ := by
  intro cur before
  have hbehind : Behind p.toList ((ofString p).consumed ops) cur := (behind_ofString p).after
  have hp : p = before ++ String.ofList cur.rest := by
    rw [← String.ofList_append, ← hbehind.eq_append, String.ofList_toList]
  have hsize : before.utf8ByteSize = cur.position := by
    rw [String.utf8ByteSize_ofList, hbehind.position_eq]
  have hvalid : String.Pos.Raw.IsValid p ⟨cur.position⟩ :=
    String.Pos.Raw.isValid_iff_exists_append.mpr ⟨before, _, hp, by rw [← hsize]; rfl⟩
  refine ⟨⟨hp, hsize⟩, ⟨hvalid, hvalid.le_utf8ByteSize⟩, fun more => ?forward, fun op => ?step,
    ?left, fun e => run_next_eq_fault_iff⟩
  case forward =>
    rw [after_append]
    exact position_le_after cur more
  case step =>
    have hstep := op.position_run cur
    cases hc : op.consumed? (op.run cur).1 with
    | none => rwa [hc, Option.toList_none, String.utf8Len_nil] at hstep
    | some c =>
      rwa [hc, Option.toList_some, String.utf8Len_cons, String.utf8Len_nil, Nat.zero_add] at hstep
  case left =>
    rw [hbehind.hasNext_iff, utf8Len_toList]

/-- A miss, a character of two bytes, a set without characters, a hit, and the end. -/
example :
    let ops := [.skip '.', .next, .nextIn [], .nextIn ['x', '.'], .next]
    (ofString "é.").consumed ops = ['é', '.'] ∧ ((ofString "é.").after ops).position = 3 := by
  decide

end Cursor

end PatternTree
