import Mathlib.Data.String.Basic
import PatternTree.Unfinished.Pattern
/-!
# Counting levels

Levels are counted with 32 bits, and a count is raised by one before it is compared with the limit.
So a count can wrap around only where the limit is the largest number of all, and then only after as
many characters: `LevelsFit` says that the limit or the length of the text is in the way.

## Main definitions

* `LevelsFit` — no count of levels wraps around.

## Main results

* `toNat_level_succ`, `toNat_level_pred` — one more level, and one less.
* `LevelsFit.toNat_level_succ` — a level that the text has room for can be counted.
* `checkLevel_of_le`, `checkLevel_of_lt` — levels within the limit and beyond it.
-/

open String (utf8Len utf8Len_toList)

namespace PatternTree

variable {o : Options} {level : UInt32} {offset : Nat} {p q : List Char}

/-! ### One more level, and one less -/

theorem toNat_level_succ (h : level.toNat < 2 ^ 32 - 1) : (level + 1).toNat = level.toNat + 1 := by
  rw [UInt32.toNat_add, UInt32.toNat_one, Nat.mod_eq_of_lt]
  omega

theorem toNat_level_pred (h : 0 < level.toNat) : (level - 1).toNat + 1 = level.toNat := by
  have hle : (1 : UInt32) ≤ level := UInt32.le_iff_toNat_le.mpr h
  rw [UInt32.toNat_sub_of_le _ _ hle, UInt32.toNat_one]
  exact Nat.sub_add_cancel h

/-- A level that a limit allows is allowed one higher by the limit above. -/
theorem level_succ_le_level_succ {limit : UInt32} (hlimit : limit.toNat < 2 ^ 32 - 1)
    (h : level ≤ limit) : level + 1 ≤ limit + 1 := by
  rw [UInt32.le_iff_toNat_le] at h ⊢
  rw [toNat_level_succ (h.trans_lt hlimit), toNat_level_succ hlimit]
  exact Nat.succ_le_succ h

/-! ### The limit -/

/-- A level is within the limit or beyond it. -/
theorem le_or_limit_lt (o : Options) (level : UInt32) :
    level ≤ o.nestLimit ∨ o.nestLimit < level := by
  rw [← UInt32.not_le]
  exact Decidable.em _

theorem checkLevel_of_le (h : level ≤ o.nestLimit) : checkLevel o level offset = .ok () := by
  rw [checkLevel, if_neg (UInt32.not_lt.mpr h)]

theorem checkLevel_of_lt (h : o.nestLimit < level) :
    checkLevel o level offset = .error ⟨.nestLimitExceeded o.nestLimit, offset⟩ := by
  rw [checkLevel, if_pos h]

/-- A level that the limit allows can be counted. -/
theorem level_succ_le_limit {l : Nat} (hl : level.toNat = l)
    (withinLimit : l + 1 ≤ o.nestLimit.toNat) :
    (level + 1).toNat = l + 1 ∧ level + 1 ≤ o.nestLimit := by
  subst hl
  have hsucc : (level + 1).toNat = level.toNat + 1 := by
    have hlimit := o.nestLimit.toNat_lt
    exact toNat_level_succ (by omega)
  exact ⟨hsucc, by rwa [UInt32.le_iff_toNat_le, hsucc]⟩

/-! ### The levels of a text -/

/-- No count of levels wraps around while `p` is read: the limit is in the way, or the text is too
short. -/
def LevelsFit (o : Options) (p : List Char) : Prop :=
  o.nestLimit.toNat < 2 ^ 32 - 1 ∨ p.length < 2 ^ 32

theorem LevelsFit.of_append (h : LevelsFit o (p ++ q)) : LevelsFit o p := by
  refine h.imp_right fun hlength => ?_
  rw [List.length_append] at hlength
  exact Nat.lt_of_le_of_lt (Nat.le_add_right _ _) hlength

theorem length_le_utf8Len (p : List Char) : p.length ≤ utf8Len p := by
  induction p with
  | nil => rfl
  | cons c p ih =>
    have := c.utf8Size_pos
    simp only [List.length_cons, String.utf8Len_cons]
    omega

theorem levelsFit_of_size {p : String}
    (h : o.nestLimit.toNat < 2 ^ 32 - 1 ∨ p.utf8ByteSize < 2 ^ 32) : LevelsFit o p.toList := by
  refine h.imp_right fun hsize => ?_
  have hlength := length_le_utf8Len p.toList
  rw [utf8Len_toList] at hlength
  exact hlength.trans_lt hsize

/-- A level that the text has room for, with one more, can be counted. -/
theorem LevelsFit.toNat_level_succ (hp : LevelsFit o p) (hlength : level.toNat < p.length)
    (hlimit : level.toNat ≤ o.nestLimit.toNat) : (level + 1).toNat = level.toNat + 1 := by
  refine PatternTree.toNat_level_succ ?_
  rcases hp with hp | hp <;> omega

end PatternTree
