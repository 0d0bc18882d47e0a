import PatternTree.CommandLine
import PatternTree.Proofs.SelfDelimiting
/-!
# What a command line comes to

Arguments are taken apart from left to right into flags. A `-E` takes the next argument with it,
whatever that is, so an option can stand where a pattern is read; every other argument is a flag of
its own. What the flags come to does not depend on how they were found: the first flag that is no
option is refused, the last `-E` gives the pattern, and one `--lenient` anywhere makes the options
lenient.

## Main definitions

* `Flag`, `Flag.Reads` — what arguments are made of, and how they are taken apart.
* `Flag.unexpected?`, `Flag.lastPattern?`, `Flag.options` — what is refused, and what is asked for.
* `Outcome.Answers` — what flags have to come to.
* `IsLine` — a text of one line.

## Main results

* `Flag.exists_reads`, `Flag.Reads.unique` — arguments are taken apart in one way.
* `Request.ofArgsFrom_of_reads` — the arguments ask for what their flags ask for.
* `notMem_quotedText`, `SyntaxError.notMem_message` — quoted texts and messages have no line feed.
* `UsageError.message_injective`, `Outcome.errors_inj_of_fault` — what is reported names the
  argument or the pattern.
* `Outcome.ofArgs_eq_iff_answers` — a command line comes to what its flags have to come to.
-/

namespace PatternTree

/-! ### Flags -/

/-- What stands in the arguments where an option is expected. -/
inductive Flag where
  /-- `-E` and the pattern behind it. -/
  | pattern (p : String)
  /-- `-E` with nothing behind it. -/
  | noPattern
  /-- `--lenient`. -/
  | lenient
  /-- An argument that is no option. -/
  | other (arg : String)
deriving DecidableEq

namespace Flag

/-- How arguments are taken apart from left to right. -/
inductive Reads : List String → List Flag → Prop
  | nil : Reads [] []
  | pattern {arg p args fs} (harg : arg = "-E") (h : Reads args fs) :
      Reads (arg :: p :: args) (.pattern p :: fs)
  | noPattern {arg} (harg : arg = "-E") : Reads [arg] [.noPattern]
  | lenient {arg args fs} (harg : arg = "--lenient") (h : Reads args fs) :
      Reads (arg :: args) (.lenient :: fs)
  | other {arg args fs} (notPattern : arg ≠ "-E") (notLenient : arg ≠ "--lenient")
      (h : Reads args fs) : Reads (arg :: args) (.other arg :: fs)

/-- The argument of a flag that is no option. -/
def other? : Flag → Option String
  | other arg => some arg
  | _ => none

/-- What a `-E` leaves as the pattern: nothing if nothing stands behind it. -/
def given? : Flag → Option (Option String)
  | pattern p => some (some p)
  | noPattern => some none
  | _ => none

/-- The first argument that is no option. -/
def unexpected? (fs : List Flag) : Option String :=
  fs.findSome? other?

/-- The pattern that the last `-E` leaves, or `p?` if there is no `-E`. -/
def lastPattern? (p? : Option String) (fs : List Flag) : Option String :=
  (fs.filterMap given?).getLast?.getD p?

/-- Lenient options if `--lenient` is one of the flags, and `o` if not. -/
def options (o : Options) (fs : List Flag) : Options :=
  if lenient ∈ fs then .lenient else o

section

variable {p : String} {p? : Option String} {o : Options} {fs : List Flag}

@[simp] theorem unexpected?_pattern : unexpected? (pattern p :: fs) = unexpected? fs := rfl

@[simp] theorem unexpected?_lenient : unexpected? (lenient :: fs) = unexpected? fs := rfl

@[simp] theorem unexpected?_other : unexpected? (other p :: fs) = some p := rfl

@[simp] theorem lastPattern?_pattern :
    lastPattern? p? (pattern p :: fs) = lastPattern? (some p) fs := by
  simp [lastPattern?, given?, List.getLast?_cons]

@[simp] theorem lastPattern?_lenient : lastPattern? p? (lenient :: fs) = lastPattern? p? fs := rfl

@[simp] theorem options_pattern : options o (pattern p :: fs) = options o fs := by
  simp [options]

@[simp] theorem options_lenient : options o (lenient :: fs) = options .lenient fs := by
  simp [options]

end

variable {args : List String} {fs gs : List Flag}

theorem exists_reads : ∀ args : List String, ∃ fs, Reads args fs
  | [] => ⟨[], .nil⟩
  | arg :: args => by
    obtain ⟨fs, hfs⟩ := exists_reads args
    by_cases hpattern : arg = "-E"
    · cases args with
      | nil => exact ⟨_, .noPattern hpattern⟩
      | cons p args =>
        obtain ⟨gs, hgs⟩ := exists_reads args
        exact ⟨_, .pattern hpattern hgs⟩
    · by_cases hlenient : arg = "--lenient"
      · exact ⟨_, .lenient hlenient hfs⟩
      · exact ⟨_, .other hpattern hlenient hfs⟩

/-- An argument is not both options. -/
theorem ne_of_eq_pattern {arg : String} (h : arg = "-E") : arg ≠ "--lenient" := by
  rw [h]
  decide

theorem Reads.unique (hf : Reads args fs) (hg : Reads args gs) : fs = gs := by
  induction hf generalizing gs with
  | nil =>
    cases hg
    rfl
  | pattern harg h ih =>
    cases hg with
    | pattern _ hg => rw [ih hg]
    | lenient hlenient _ => exact absurd hlenient (ne_of_eq_pattern harg)
    | other hne _ _ => exact absurd harg hne
  | noPattern harg =>
    cases hg with
    | noPattern => rfl
    | lenient hlenient _ => exact absurd hlenient (ne_of_eq_pattern harg)
    | other hne _ _ => exact absurd harg hne
  | lenient harg h ih =>
    cases hg with
    | pattern hpattern _ | noPattern hpattern => exact absurd harg (ne_of_eq_pattern hpattern)
    | lenient _ hg => rw [ih hg]
    | other _ hne _ => exact absurd harg hne
  | other hpattern hlenient h ih =>
    cases hg with
    | pattern harg _ | noPattern harg => exact absurd harg hpattern
    | lenient harg _ => exact absurd harg hlenient
    | other _ _ hg => rw [ih hg]

end Flag

/-! ### Requests -/

open PatternTree.Flag in
/-- The arguments ask for what their flags ask for, given the options and the pattern so far. -/
theorem Request.ofArgsFrom_of_reads {args : List String} {fs : List Flag} (h : Reads args fs)
    (o : Options) (p? : Option String) : Request.ofArgsFrom o p? args =
      match unexpected? fs, lastPattern? p? fs with
      | some arg, _ => .error (.unexpectedArgument arg)
      | none, some pattern => .ok { pattern, options := Flag.options o fs }
      | none, none => .error .missingPattern := by
  induction h generalizing o p? with
  | nil => cases p? <;> rfl
  | pattern harg h ih =>
    rw [ofArgsFrom, if_pos harg, ih, unexpected?_pattern, lastPattern?_pattern, options_pattern]
  | noPattern harg =>
    rw [ofArgsFrom, if_pos harg]
    rfl
  | lenient harg h ih =>
    have hne := fun hpattern => ne_of_eq_pattern hpattern harg
    unfold ofArgsFrom
    rw [if_neg hne, if_pos harg, ih, unexpected?_lenient, lastPattern?_lenient, options_lenient]
  | other hpattern hlenient h ih =>
    unfold ofArgsFrom
    rw [if_neg hpattern, if_neg hlenient, unexpected?_other]

/-! ### Lines -/

/-- A text of one line and the line feed that ends it. -/
def IsLine (s : String) : Prop :=
  ∃ line : String, s = line ++ "\n" ∧ '\n' ∉ line.toList

theorem notMem_digits {base : Nat} (hbase : 1 < base) (n : Nat) : '\n' ∉ Nat.toDigits base n :=
  notMem_toDigits (fun _ => Nat.digitChar_ne '\n' rfl) hbase n

theorem notMem_escaped (quote c : Char) : '\n' ∉ (escaped quote c).toList := by
  rw [escaped]
  split_ifs with hnull htab hfeed hreturn hbehind hunprintable
  · decide
  · decide
  · decide
  · decide
  · simp [Ne.symm hfeed]
  · simp [hexadecimal, notMem_digits]
  · simp [Ne.symm hfeed]

theorem notMem_quotedChar (c : Char) : '\n' ∉ (quotedChar c).toList := by
  simp [quotedChar, notMem_escaped]

/-- A quoted text has no line feed, whatever the text has. -/
theorem notMem_quotedText (s : String) : '\n' ∉ (quotedText s).toList := by
  simp [toList_quotedText, notMem_escaped]

theorem Cause.notMem_description (cause : Cause) : '\n' ∉ cause.description.toList := by
  unfold description
  cases cause <;> simp [notMem_digits, notMem_quotedChar]

/-- The sentence that reports a fault has no line feed. -/
theorem SyntaxError.notMem_message (e : SyntaxError) : '\n' ∉ e.message.toList := by
  simp [message, e.cause.notMem_description, notMem_digits]

/-! ### Messages -/

theorem UsageError.message_ne (arg : String) :
    (unexpectedArgument arg).message ≠ missingPattern.message := by
  intro h
  have htext : ("unexpected argument " ++ quotedText arg).toList =
    "expected '-E <pattern>'".toList := congrArg String.toList h
  rw [String.toList_append] at htext
  simp at htext

/-- What is wrong with the arguments can be told from the words. -/
theorem UsageError.message_injective : Function.Injective message := by
  intro a b h
  cases a with
  | unexpectedArgument arg =>
    cases b with
    | unexpectedArgument arg' =>
      have htext : ("unexpected argument " ++ quotedText arg).toList =
        ("unexpected argument " ++ quotedText arg').toList := congrArg String.toList h
      rw [String.toList_append, String.toList_append] at htext
      rw [quotedText_injective (String.toList_injective (List.append_cancel_left htext))]
    | missingPattern => exact absurd h (message_ne arg)
  | missingPattern =>
    cases b with
    | unexpectedArgument arg => exact absurd h.symm (message_ne arg)
    | missingPattern => rfl

/-! ### Outcomes -/

namespace Outcome

/-- What flags have to come to. -/
inductive Answers (fs : List Flag) : Outcome → Prop
  | unexpected {arg} (h : Flag.unexpected? fs = some arg) :
      Answers fs
        { status := 2
          output := ""
          errors := "unexpected argument " ++ quotedText arg ++
            "\nusage: regex-ast -E <pattern> [--lenient]\n" }
  | missing (h : Flag.unexpected? fs = none) (hp : Flag.lastPattern? none fs = none) :
      Answers fs
        { status := 2
          output := ""
          errors := "expected '-E <pattern>'\nusage: regex-ast -E <pattern> [--lenient]\n" }
  | tree {p t} (h : Flag.unexpected? fs = none) (hp : Flag.lastPattern? none fs = some p)
      (ht : parse p (Flag.options {} fs) = .ok t) :
      Answers fs { status := 0, output := t.outline, errors := "" }
  | fault {p e} (h : Flag.unexpected? fs = none) (hp : Flag.lastPattern? none fs = some p)
      (he : parse p (Flag.options {} fs) = .error e) :
      Answers fs
        { status := 1
          output := ""
          errors := "failed to parse pattern " ++ quotedText p ++ ": " ++ e.message ++ "\n" }

variable {args : List String} {fs : List Flag} {r : Outcome}

/-- A command line comes to what its flags have to come to. -/
theorem answers_of_reads (h : Flag.Reads args fs) : Answers fs (ofArgs args) := by
  rw [ofArgs, Request.ofArgs, Request.ofArgsFrom_of_reads h]
  rcases hother : Flag.unexpected? fs with _ | arg
  · rcases hpattern : Flag.lastPattern? none fs with _ | p
    · exact .missing hother hpattern
    · rcases hparse : parse p (Flag.options {} fs) with e | t
      · simp only [ofRequest, hparse]
        exact .fault hother hpattern hparse
      · simp only [ofRequest, hparse]
        exact .tree hother hpattern hparse
  · exact .unexpected hother

/-- A command line comes to nothing else. -/
theorem Answers.ofArgs_eq (h : Answers fs r) (hfs : Flag.Reads args fs) : ofArgs args = r := by
  rw [ofArgs, Request.ofArgs, Request.ofArgsFrom_of_reads hfs]
  cases h with
  | unexpected h =>
    rw [h]
    rfl
  | missing h hp =>
    rw [h, hp]
    rfl
  | tree h hp ht =>
    rw [h, hp]
    simp only [ofRequest, ht]
  | fault h hp he =>
    rw [h, hp]
    simp only [ofRequest, he]

/-- The standard output is empty, or it is the outline of the whole pattern. -/
theorem Answers.output_eq (h : Answers fs r) :
    r.output = "" ∨ ∃ p o t, parse p o = .ok t ∧ r = { status := 0, output := t.outline } := by
  cases h with
  | unexpected | missing | fault => exact Or.inl rfl
  | tree _ _ ht => exact Or.inr ⟨_, _, _, ht, rfl⟩

theorem Answers.isLine (h : Answers fs r) (hr : r.status = 1) : IsLine r.errors := by
  cases h with
  | unexpected | missing | tree => simp at hr
  | fault =>
    refine ⟨_, rfl, ?_⟩
    simp [notMem_quotedText, SyntaxError.notMem_message]

/-- What reports a fault names the pattern, and what is wrong with it. -/
theorem errors_inj_of_fault {r r' : Request} {e e' : SyntaxError}
    (hr : parse r.pattern r.options = .error e) (hr' : parse r'.pattern r'.options = .error e')
    (h : (ofRequest r).errors = (ofRequest r').errors) :
    r.pattern = r'.pattern ∧ e.message = e'.message := by
  have htext := congrArg String.toList h
  simp only [ofRequest, hr, hr', String.toList_append, List.append_assoc,
    List.append_cancel_left_eq] at htext
  obtain ⟨hpattern, hmessage⟩ := selfDelimiting_quotedText htext
  refine ⟨hpattern, String.toList_injective ?_⟩
  exact List.append_cancel_right (List.append_cancel_left hmessage)

/-- A command line comes to what its flags have to come to, and arguments are taken apart into flags
in one way. Nothing is written to the standard output unless the whole pattern has a tree, and what
reports a fault of the pattern is one line. -/
theorem ofArgs_eq_iff_answers (args : List String) :
    (∀ r, ofArgs args = r ↔ ∃ fs, Flag.Reads args fs ∧ Answers fs r) ∧
    (∃! fs, Flag.Reads args fs) ∧
    ((ofArgs args).output = "" ∨
      ∃ p o t, parse p o = .ok t ∧ ofArgs args = { status := 0, output := t.outline }) ∧
    ((ofArgs args).status = 1 → IsLine (ofArgs args).errors) := by
  obtain ⟨fs, hfs⟩ := Flag.exists_reads args
  have hanswers := answers_of_reads hfs
  refine ⟨fun r => ⟨?_, ?_⟩, ⟨fs, hfs, fun gs hgs => hgs.unique hfs⟩, ?_, hanswers.isLine⟩
  · rintro rfl
    exact ⟨fs, hfs, hanswers⟩
  · rintro ⟨gs, hgs, hr⟩
    exact hr.ofArgs_eq hgs
  · exact hanswers.output_eq

/-- The last `-E` gives a pattern with a fault, and an earlier one takes `--lenient` as a pattern.
The pattern has a line feed, and what reports the fault is one line all the same. -/
theorem isLine_errors_of_line_feed :
    (ofArgs ["-E", "--lenient", "-E", "(\n", "--lenient"]).status = 1 ∧
      IsLine (ofArgs ["-E", "--lenient", "-E", "(\n", "--lenient"]).errors :=
  ⟨rfl, (ofArgs_eq_iff_answers _).2.2.2 rfl⟩

end Outcome

end PatternTree
