import PatternTree.Proofs.Descent
/-!
# Levels and calls of recursive descent

Recursive descent raises its counter of levels before it compares it with the limit, and lowers it
only where a group ends without a fault inside. It counts the levels of stacked quantifiers from
there. Both counts have 32 bits. They are exact nevertheless: a level that has been compared is
within the limit, so the next one can be counted unless the limit is the largest number of all, and
then the text has to be as long before it cannot. The counter is lowered only where a group is open.

A call of `union` is active for each frame that is kept when the pattern is read character by
character: one for each open group, and one for the whole pattern. So no more of them are active
than levels are allowed, and one, however long the pattern is.

## Main definitions

* `Descent.LevelsExact` — the levels of a trace are exact and within the limit.

## Main results

* `Descent.Mirrored.exists_frames` — the frames of the state to which a call adds its element.
* `Descent.Mirrored.levelsExact` — what the states say of the levels holds for the trace.
* `parse_levelsExact` — the levels of the whole run in which a pattern is parsed.
-/

open String (utf8Len)

namespace PatternTree

/-! ### The levels of a trace -/

namespace Descent

open UnfinishedPattern

/-- The levels in the trace of a run are exact and within the limit. -/
structure LevelsExact (o : Options) (trace : List Event) : Prop where
  /-- At each call, the counter is the number of groups that have been opened and not closed, it is
  within the limit, and as many calls of `union` are active, and one. -/
  called : ∀ call before, .called call :: before <:+ trace →
    call.depth.toNat = openGroups before ∧ call.depth ≤ o.nestLimit ∧
      unions (activeCalls (.called call :: before)) = openGroups before + 1
  /-- A call that returns a result leaves the counter as it found it. -/
  returned : ∀ depth before, .returned depth :: before <:+ trace →
    ∃ call calls, activeCalls before = call :: calls ∧ depth = call.depth
  /-- A count that is raised does not wrap around, and is at most one beyond the limit. -/
  raised : ∀ level before, .raised level :: before <:+ trace →
    (level + 1).toNat = level.toNat + 1 ∧ (level + 1).toNat ≤ o.nestLimit.toNat + 1
  /-- A count that is lowered does not wrap around. -/
  lowered : ∀ level before, .lowered level :: before <:+ trace →
    (level - 1).toNat + 1 = level.toNat
  /-- No more calls of `union` are active at once than levels are allowed, and one. -/
  active : ∀ before, before <:+ trace → unions (activeCalls before) ≤ o.nestLimit.toNat + 1

variable {o : Options} {p : String} {call : Call} {before trace : List Event} {k : Nat}

/-- A call of `union` is active for each frame: where a call is made, the next element is added to a
state with as many frames, and with as many groups around the innermost frame as are open. -/
theorem Mirrored.exists_frames (h : Mirrored o p trace)
    (hcall : .called call :: before <:+ trace) :
    ∃ q r t s, p.toList = q ++ r ∧ call.offset = utf8Len q ∧ read o {} 0 q = .ok t ∧
      Begins o r t s ∧ call.depth = s.depth ∧ openGroups before = s.outer.length ∧
      unions (activeCalls (.called call :: before)) = (s.frame :: s.outer).length := by
  cases h _ _ hcall with
  | called reaches begins groups frames =>
    obtain ⟨q, hq, hposition, hread⟩ := reaches
    exact ⟨q, _, _, _, hq, hposition, hread, begins, rfl, groups, frames⟩

theorem unions_tail_le (calls : List Call) : unions calls.tail ≤ unions calls :=
  (List.tail_sublist calls).countP_le

/-- Calls are added to those that are active only by calls. -/
theorem unions_activeCalls_le (h : ∀ call before, .called call :: before <:+ trace →
    unions (activeCalls (.called call :: before)) ≤ k) : unions (activeCalls trace) ≤ k := by
  induction trace with
  | nil => exact Nat.zero_le k
  | cons event trace ih =>
    have hbefore : unions (activeCalls trace) ≤ k :=
      ih fun call before hcall => h call before (hcall.trans (List.suffix_cons _ _))
    cases event with
    | called call => exact h call trace List.suffix_rfl
    | returned => exact (unions_tail_le _).trans hbefore
    | opened | closed | raised | lowered => exact hbefore

/-- Levels are exact where the events mirror what has been read. -/
theorem Mirrored.levelsExact (h : Mirrored o p trace) (hp : LevelsFit o p.toList) :
    LevelsExact o trace := by
  have hcalled (call before) (hcall : .called call :: before <:+ trace) :
      call.depth.toNat = openGroups before ∧ call.depth ≤ o.nestLimit ∧
        unions (activeCalls (.called call :: before)) = openGroups before + 1 := by
    obtain ⟨q, r, t, s, hq, -, hread, hbegins, hdepth, hgroups, hframes⟩ := h.exists_frames hcall
    rw [hq] at hp
    have hlevel := hbegins.toNat_depth (readFrom_of_read hp.of_append hread) hp.of_append
    rw [hdepth, hgroups]
    exact ⟨hlevel.1, hlevel.2, hframes⟩
  constructor
  case called => exact hcalled
  case returned =>
    intro depth before hreturned
    cases h _ _ hreturned with
    | returned hcalls => exact ⟨_, _, hcalls, rfl⟩
  case raised =>
    intro level before hraised
    cases h _ _ hraised with
    | raisedDepth reaches ht =>
      obtain ⟨q, hq, hfrom⟩ := reaches.readFrom hp
      have hlimit := hfrom.1.trans_le hfrom.length_outer_le
      have hsucc := hfrom.depth_add_one hq ht
      exact ⟨hsucc, hsucc.trans_le (Nat.succ_le_succ hlimit)⟩
    | raisedLevel reaches ht =>
      obtain ⟨q, hq, hfrom⟩ := reaches.readFrom hp
      have hsucc := hfrom.level_add_one hq ht
      exact ⟨hsucc, hsucc.trans_le (Nat.succ_le_succ (hfrom.level_le ht))⟩
  case lowered =>
    intro level before hlowered
    cases h _ _ hlowered with
    | lowered reaches houter =>
      obtain ⟨q, -, hfrom⟩ := reaches.readFrom hp
      refine toNat_level_pred ?_
      rw [hfrom.1, houter, List.length_cons]
      exact Nat.succ_pos _
  case active =>
    intro before hbefore
    refine unions_activeCalls_le fun call earlier hcall => ?_
    obtain ⟨hdepth, hlimit, hunions⟩ := hcalled call earlier (hcall.trans hbefore)
    rw [hunions, ← hdepth]
    exact Nat.succ_le_succ (UInt32.le_iff_toNat_le.mp hlimit)

end Descent

/-! ### Patterns -/

/-- A pattern is parsed by a run of recursive descent whose levels are exact. However long the
pattern is, the run ends, on any stack that has room for one call of `union` more than the limit
allows levels. If the pattern has a tree, all calls have returned, all groups are closed and no
level is left. The run makes every call, and raises and lowers every count, that is due where the
pattern has been read to. -/
theorem parse_levelsExact {p : String} {o : Options} {stack : Nat}
    (h : o.nestLimit.toNat < 2 ^ 32 - 1 ∨ p.utf8ByteSize < 2 ^ 32)
    (hstack : o.nestLimit.toNat < stack) :
    ∃ d, (Descent.pattern o stack).run { cursor := .ofString p } = some (parse p o, d) ∧
      Descent.LevelsExact o d.trace ∧
      (∀ t, parse p o = .ok t →
        Descent.activeCalls d.trace = [] ∧ Descent.openGroups d.trace = 0 ∧ d.depth = 0) ∧
      ∀ q r t event, p.toList = q ++ r → UnfinishedPattern.read o {} 0 q = .ok t →
        Descent.Due o t (utf8Len q) r event → event ∈ d.trace := by
  have hp := levelsFit_of_size h
  obtain ⟨d, hrun, hmirrored, hcovered, htracks⟩ := Descent.exists_run_eq_parse hp hstack
  refine ⟨d, hrun, hmirrored.levelsExact hp, fun t ht => ?_, ?_⟩
  · exact ⟨(htracks t ht).active, (htracks t ht).groups, (htracks t ht).depth_eq⟩
  · exact fun q r t event hq hread => hcovered q r t event hq (Nat.zero_le _) hread

/-- In `((a)` the inner group is closed and the outer one is not. -/
theorem parse_levelsExact_open_group :
    (2 : UInt32).toNat < 2 ^ 32 - 1 ∧ (2 : UInt32).toNat < 3 ∧
    ∃ d, (Descent.pattern { nestLimit := 2 } 3).run { cursor := .ofString "((a)" } =
        some (.error ⟨.unterminatedGroup, 4⟩, d) ∧
      Descent.LevelsExact { nestLimit := 2 } d.trace ∧
      .raised 1 ∈ d.trace ∧ .called ⟨.union, 2, 2⟩ ∈ d.trace ∧
      .lowered 2 ∈ d.trace ∧ .lowered 1 ∈ d.trace := by
  have hlimit : (2 : UInt32).toNat < 2 ^ 32 - 1 := by decide
  have hstack : (2 : UInt32).toNat < 3 := by decide
  obtain ⟨d, hrun, hexact, -, hdue⟩ :=
    parse_levelsExact (p := "((a)") (o := { nestLimit := 2 }) (.inl hlimit) hstack
  refine ⟨hlimit, hstack, d, hrun, hexact, ?raised, ?called, ?inner, ?outer⟩
  case raised => exact hdue ['(', '('] ['a', ')'] _ _ rfl rfl (.raisedDepth rfl (by decide))
  case called =>
    exact hdue ['(', '('] ['a', ')'] _ _ rfl rfl
      (.called (.group rfl (by decide) (by decide)) rfl)
  case inner => exact hdue ['(', '(', 'a'] [')'] _ _ rfl rfl (.lowered rfl rfl (by simp))
  case outer => exact hdue ['(', '(', 'a', ')'] [] _ _ rfl rfl (.lowered rfl rfl (by simp))

end PatternTree
