import Mathlib.Data.List.Induction
import Mathlib.Data.String.Basic
import PatternTree.Parse
/-!
# Reading a text character by character

`UnfinishedPattern.read` reads a whole text from some state, one step for each character, and stops
at the first fault. Reading a text and then another one is reading the two as one text, so what is
true of the states that a text can lead to is proved one character at a time.

## Main definitions

* `UnfinishedPattern.read` — reads a text from a state.

## Main results

* `parse_eq` — parsing reads the pattern from the empty state and then ends it.
* `UnfinishedPattern.read_append` — reading two texts one behind the other.
* `UnfinishedPattern.exists_of_read_error` — where reading stops.
-/

open String (utf8Len utf8Len_toList)

namespace PatternTree

namespace UnfinishedPattern

/-- Reads the characters `p`, the first of which stands at `offset`. -/
def read (o : Options) : UnfinishedPattern → Nat → List Char → Except SyntaxError UnfinishedPattern
  | s, _, [] => .ok s
  | s, offset, c :: p => do read o (← s.step o offset c) (offset + c.utf8Size) p

variable {o : Options} {s s' : UnfinishedPattern} {offset : Nat} {c : Char} {p q : List Char}
  {e : SyntaxError}

@[simp] theorem read_nil : s.read o offset [] = .ok s := rfl

theorem read_cons : s.read o offset (c :: p) =
    s.step o offset c >>= fun t => t.read o (offset + c.utf8Size) p := rfl

theorem read_cons_of_step (h : s.step o offset c = .ok s') :
    s.read o offset (c :: p) = s'.read o (offset + c.utf8Size) p := by
  rw [read_cons, h]
  rfl

theorem read_cons_of_step_error (h : s.step o offset c = .error e) :
    s.read o offset (c :: p) = .error e := by
  rw [read_cons, h]
  rfl

@[simp] theorem read_singleton : s.read o offset [c] = s.step o offset c := by
  rw [read_cons]
  cases s.step o offset c <;> rfl

theorem exists_of_read_cons (h : s.read o offset (c :: p) = .ok s') :
    ∃ t, s.step o offset c = .ok t ∧ t.read o (offset + c.utf8Size) p = .ok s' := by
  cases ht : s.step o offset c with
  | error e =>
    rw [read_cons_of_step_error ht] at h
    cases h
  | ok t => exact ⟨t, rfl, by rwa [read_cons_of_step ht] at h⟩

theorem read_append : s.read o offset (p ++ q) =
    s.read o offset p >>= fun t => t.read o (offset + utf8Len p) q := by
  induction p generalizing s offset with
  | nil => rfl
  | cons c p ih =>
    rw [List.cons_append, read_cons, read_cons, bind_assoc]
    congr 1
    funext t
    rw [ih, String.utf8Len_cons, Nat.add_assoc, Nat.add_comm c.utf8Size]

theorem read_append_of_ok (h : s.read o offset p = .ok s') :
    s.read o offset (p ++ q) = s'.read o (offset + utf8Len p) q := by
  rw [read_append, h]
  rfl

theorem read_append_of_error (h : s.read o offset p = .error e) :
    s.read o offset (p ++ q) = .error e := by
  rw [read_append, h]
  rfl

/-- A text that can be read can be read up to its final character. -/
theorem exists_of_read_snoc (h : s.read o offset (p ++ [c]) = .ok s') :
    ∃ t, s.read o offset p = .ok t ∧ t.step o (offset + utf8Len p) c = .ok s' := by
  rw [read_append] at h
  cases ht : s.read o offset p with
  | error e =>
    rw [ht] at h
    cases h
  | ok t =>
    rw [ht] at h
    exact ⟨t, rfl, by rwa [← read_singleton]⟩

/-- Reading stops at a character that has a fault in the state that the text before it leads to. -/
theorem exists_of_read_error (h : s.read o offset p = .error e) :
    ∃ q c r t, p = q ++ c :: r ∧ s.read o offset q = .ok t ∧
      t.step o (offset + utf8Len q) c = .error e := by
  induction p generalizing s offset with
  | nil => cases h
  | cons c p ih =>
    cases ht : s.step o offset c with
    | error e' =>
      rw [read_cons_of_step_error ht] at h
      cases h
      exact ⟨[], c, p, s, rfl, rfl, ht⟩
    | ok t =>
      rw [read_cons_of_step ht] at h
      obtain ⟨q, d, r, u, rfl, hu, hd⟩ := ih h
      refine ⟨c :: q, d, r, u, rfl, by rw [read_cons_of_step ht, hu], ?_⟩
      rwa [String.utf8Len_cons, Nat.add_comm (utf8Len q), ← Nat.add_assoc]

/-- What holds of a state and is kept by each step from a state that a text leads to holds of every
state that a text leads to. The property may speak of the text that has been read. -/
theorem read_induction_of_read {P : List Char → UnfinishedPattern → Prop} (start : P [] {})
    (step : ∀ p s c s', read o {} 0 p = .ok s → P p s → s.step o (utf8Len p) c = .ok s' →
      P (p ++ [c]) s')
    (h : read o {} 0 p = .ok s) : P p s := by
  induction p using List.reverseRecOn generalizing s with
  | nil =>
    cases h
    exact start
  | append_singleton p c ih =>
    obtain ⟨t, ht, hs⟩ := exists_of_read_snoc h
    rw [Nat.zero_add] at hs
    exact step p t c s ht (ih ht) hs

/-- What holds of a state and is kept by each step holds of every state that a text leads to. The
property may speak of the text that has been read. -/
theorem read_induction {P : List Char → UnfinishedPattern → Prop} (start : P [] {})
    (step : ∀ p s c s', P p s → s.step o (utf8Len p) c = .ok s' → P (p ++ [c]) s')
    (h : read o {} 0 p = .ok s) : P p s :=
  read_induction_of_read start (fun p s c s' _ => step p s c s') h

end UnfinishedPattern

/-! ### Parsing -/

section Parse

variable {p q : String} {o : Options} {t : Chain} {e : SyntaxError}

/-- A text splits where its characters do. -/
theorem exists_of_toList_eq_append {a b : List Char} (h : p.toList = a ++ b) :
    ∃ q r : String, p = q ++ r ∧ q.toList = a ∧ r.toList = b := by
  refine ⟨.ofList a, .ofList b, String.toList_injective ?_, String.toList_ofList,
    String.toList_ofList⟩
  rw [String.toList_append, String.toList_ofList, String.toList_ofList, h]

theorem Cursor.foldlM_step (s : UnfinishedPattern) (cs : List Char) (offset : Nat) :
    Cursor.foldlM (UnfinishedPattern.step o) s ⟨cs, offset⟩ =
      s.read o offset cs >>= fun t => .ok (t, offset + utf8Len cs) := by
  induction cs generalizing s offset with
  | nil => rfl
  | cons c cs ih =>
    have hcons : Cursor.foldlM (UnfinishedPattern.step o) s ⟨c :: cs, offset⟩ =
        s.step o offset c >>= fun t =>
          Cursor.foldlM (UnfinishedPattern.step o) t ⟨cs, offset + c.utf8Size⟩ := by
      cases ht : s.step o offset c <;> simp only [Cursor.foldlM, List.foldlM_cons, ht] <;> rfl
    rw [hcons, UnfinishedPattern.read_cons, bind_assoc]
    congr 1
    funext t
    rw [ih, String.utf8Len_cons, Nat.add_assoc, Nat.add_comm c.utf8Size]

/-- Parsing reads the pattern from the empty state and then ends it. -/
theorem parse_eq (p : String) (o : Options) :
    parse p o = UnfinishedPattern.read o {} 0 p.toList >>= fun s => s.finish o p.utf8ByteSize := by
  rw [parse, Cursor.ofString, Cursor.foldlM_step, Nat.zero_add, utf8Len_toList, bind_assoc]
  rfl

theorem parse_of_read {s : UnfinishedPattern}
    (h : UnfinishedPattern.read o {} 0 p.toList = .ok s) :
    parse p o = s.finish o p.utf8ByteSize := by
  rw [parse_eq, h]
  rfl

theorem parse_of_read_error (h : UnfinishedPattern.read o {} 0 p.toList = .error e) :
    parse p o = .error e := by
  rw [parse_eq, h]
  rfl

/-- A pattern that parses can be read, and its tree is what has been read of it. -/
theorem exists_of_parse_ok (h : parse p o = .ok t) :
    ∃ s, UnfinishedPattern.read o {} 0 p.toList = .ok s ∧ s.finish o p.utf8ByteSize = .ok t := by
  cases hs : UnfinishedPattern.read o {} 0 p.toList with
  | error e =>
    rw [parse_of_read_error hs] at h
    cases h
  | ok s => exact ⟨s, rfl, by rwa [parse_of_read hs] at h⟩

/-- The fault of a pattern is found while it is read, or at its end. -/
theorem exists_of_parse_error (h : parse p o = .error e) :
    UnfinishedPattern.read o {} 0 p.toList = .error e ∨
      ∃ s, UnfinishedPattern.read o {} 0 p.toList = .ok s ∧
        s.finish o p.utf8ByteSize = .error e := by
  cases hs : UnfinishedPattern.read o {} 0 p.toList with
  | error e' =>
    rw [parse_of_read_error hs] at h
    cases h
    exact .inl rfl
  | ok s => exact .inr ⟨s, rfl, by rwa [parse_of_read hs] at h⟩

end Parse

end PatternTree
