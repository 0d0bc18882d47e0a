import Mathlib
import PatternTree.Text.Quoted
/-!
# Texts that show where they end

When values are written one behind the other, the whole determines them if each text shows where it
ends: then the first value and what follows it can be told from the whole. Quoted characters and
texts are of this kind, since the quotes and backslashes in them are escaped. A number is of this
kind together with a mark behind it that is not a digit.

## Main definitions

* `SelfDelimiting` — texts that show where they end.
* `numberOf` — the number that digits stand for.
* `readEscaped` — reads a character as it is written between quotes.

## Main results

* `terminated_inj` — texts that a mark ends which does not occur in them.
* `numberOf_toDigits`, `readEscaped_escaped` — reading undoes writing.
* `selfDelimiting_quotedChar`, `selfDelimiting_quotedText` — quoted characters and texts show where
  they end.
* `quotedText_injective` — a quoted text determines the text.
-/

namespace PatternTree

/-- In front of any text, the text of a value determines the value and where it ends. -/
def SelfDelimiting {α : Type} (f : α → String) : Prop :=
  ∀ ⦃a b : α⦄ ⦃x y : List Char⦄, (f a).toList ++ x = (f b).toList ++ y → a = b ∧ x = y

section

variable {α : Type} {f : α → String}

/-- Texts that are added to another one at its end stand there one behind the other. -/
theorem toList_foldl_append (as : List α) (done : String) :
    (as.foldl (fun done a => done ++ f a) done).toList =
      done.toList ++ as.flatMap fun a => (f a).toList := by
  induction as generalizing done with
  | nil => exact (List.append_nil _).symm
  | cons a as ih =>
    rw [List.foldl_cons, ih, String.toList_append, List.flatMap_cons, List.append_assoc]

/-- Texts that can be read back show where they end. -/
theorem selfDelimiting_of_read {read : List Char → Option (α × List Char)}
    (h : ∀ a x, read ((f a).toList ++ x) = some (a, x)) : SelfDelimiting f := by
  intro a b x y heq
  have hread : some (a, x) = some (b, y) := by rw [← h a x, ← h b y, heq]
  exact Prod.mk.inj (Option.some.inj hread)

/-- What stands in front of the first `d` is determined by the whole. -/
theorem append_cons_inj_of_notMem {d : Char} {s t x y : List Char} (hs : d ∉ s) (ht : d ∉ t)
    (h : s ++ d :: x = t ++ d :: y) : s = t ∧ x = y := by
  have hlength : s.length = t.length := by
    have hindex := congrArg (List.idxOf d) h
    rwa [List.idxOf_append_of_notMem hs, List.idxOf_append_of_notMem ht, List.idxOf_cons_self,
      List.idxOf_cons_self] at hindex
  obtain ⟨hst, hxy⟩ := List.append_inj h hlength
  exact ⟨hst, (List.cons.inj hxy).2⟩

/-- A text that determines its value shows where it ends if a mark that does not occur in it stands
behind it. -/
theorem terminated_inj (hf : Function.Injective f) {d : Char} (hd : ∀ a, d ∉ (f a).toList)
    {a b : α} {x y : List Char} (h : (f a).toList ++ d :: x = (f b).toList ++ d :: y) :
    a = b ∧ x = y := by
  obtain ⟨hab, hxy⟩ := append_cons_inj_of_notMem (hd a) (hd b) h
  exact ⟨hf (String.toList_injective hab), hxy⟩

/-- Texts that are not empty and show where they end, one behind the other, determine the values. -/
theorem SelfDelimiting.flatMap_injective (hf : SelfDelimiting f) (hne : ∀ a, (f a).toList ≠ []) :
    Function.Injective fun as : List α => as.flatMap fun a => (f a).toList := by
  intro as
  induction as with
  | nil =>
    intro bs h
    cases bs with
    | nil => rfl
    | cons b bs => exact absurd h.symm (List.append_ne_nil_of_left_ne_nil (hne b) _)
  | cons a as ih =>
    intro bs h
    cases bs with
    | nil => exact absurd h (List.append_ne_nil_of_left_ne_nil (hne a) _)
    | cons b bs =>
      obtain ⟨rfl, hrest⟩ := hf h
      rw [ih hrest]

/-- Texts that show where they end, one behind the other, determine the values and where they end
if a mark stands behind them with which none of them begins. -/
theorem SelfDelimiting.flatMap_terminated_inj (hf : SelfDelimiting f) {d : Char}
    (hd : ∀ a x y, (f a).toList ++ x ≠ d :: y) {as bs : List α} {x y : List Char}
    (h : (as.flatMap fun a => (f a).toList) ++ d :: x =
      (bs.flatMap fun a => (f a).toList) ++ d :: y) : as = bs ∧ x = y := by
  induction as generalizing bs with
  | nil =>
    cases bs with
    | nil => exact ⟨rfl, (List.cons.inj h).2⟩
    | cons b bs =>
      rw [List.flatMap_cons, List.append_assoc] at h
      exact absurd h.symm (hd b _ _)
  | cons a as ih =>
    rw [List.flatMap_cons, List.append_assoc] at h
    cases bs with
    | nil => exact absurd h (hd a _ _)
    | cons b bs =>
      rw [List.flatMap_cons, List.append_assoc] at h
      obtain ⟨rfl, hrest⟩ := hf h
      obtain ⟨rfl, hxy⟩ := ih hrest
      exact ⟨rfl, hxy⟩

end

/-! ### Numbers -/

section

variable {base : Nat}

/-- The value of a digit, which above nine is a lower-case letter. -/
def digitValue (d : Char) : Nat :=
  if d.isDigit then d.toNat - '0'.toNat else d.toNat - 'a'.toNat + 10

/-- The number that digits stand for. -/
def numberOf (base : Nat) (digits : List Char) : Nat :=
  digits.foldl (fun value d => base * value + digitValue d) 0

theorem digitValue_digitChar : ∀ k < 16, digitValue (Nat.digitChar k) = k := by decide

/-- Digits stand for the number that they were made from. -/
theorem numberOf_toDigits (hbase : 1 < base) (hletters : base ≤ 16) (n : Nat) :
    numberOf base (Nat.toDigits base n) = n := by
  induction n using Nat.strongRecOn with
  | _ n ih =>
    rcases Nat.lt_or_ge n base with hlt | hle
    · rw [Nat.toDigits_of_lt_base hlt, numberOf, List.foldl_cons, List.foldl_nil, Nat.mul_zero,
        Nat.zero_add, digitValue_digitChar n (Nat.lt_of_lt_of_le hlt hletters)]
    · have hless : n / base < n := Nat.div_lt_self (by omega) hbase
      have hdigit : n % base < 16 :=
        Nat.lt_of_lt_of_le (Nat.mod_lt n (Nat.lt_trans Nat.zero_lt_one hbase)) hletters
      have hhigher := ih (n / base) hless
      rw [numberOf] at hhigher
      rw [Nat.toDigits_of_base_le hbase hle, numberOf, List.foldl_append, hhigher, List.foldl_cons,
        List.foldl_nil, digitValue_digitChar _ hdigit, Nat.div_add_mod]

theorem notMem_toDigits {c : Char} (hc : ∀ k, Nat.digitChar k ≠ c) (hbase : 1 < base) (n : Nat) :
    c ∉ Nat.toDigits base n := by
  induction n using Nat.strongRecOn with
  | _ n ih =>
    rcases Nat.lt_or_ge n base with hlt | hle
    · rw [Nat.toDigits_of_lt_base hlt, List.mem_singleton]
      exact (hc n).symm
    · have hless : n / base < n := Nat.div_lt_self (by omega) hbase
      rw [Nat.toDigits_of_base_le hbase hle, List.mem_append, List.mem_singleton]
      exact not_or.mpr ⟨ih (n / base) hless, (hc (n % base)).symm⟩

theorem notMem_toString_nat {c : Char} (hc : ∀ k, Nat.digitChar k ≠ c) (n : Nat) :
    c ∉ (toString n).toList := by
  rw [Nat.toString_eq_ofList_toDigits, String.toList_ofList]
  exact notMem_toDigits hc (by decide) n

/-- A number in decimal shows where it ends if a mark stands behind it that is not a digit. -/
theorem decimal_inj {d : Char} (hd : ∀ k, Nat.digitChar k ≠ d) {m n : UInt32} {x y : List Char}
    (h : (toString m.toNat).toList ++ d :: x = (toString n.toNat).toList ++ d :: y) :
    m = n ∧ x = y := by
  obtain ⟨hmn, hxy⟩ := terminated_inj (fun _ _ => Nat.repr_inj.mp) (notMem_toString_nat hd) h
  exact ⟨UInt32.toNat_inj.mp hmn, hxy⟩

end

/-! ### Quoted characters -/

/-- Reads what stands behind a backslash between quotes. -/
def readMark : List Char → Option (Char × List Char)
  | [] => none
  | mark :: rest =>
    if mark = '0' then some ('\x00', rest)
    else if mark = 't' then some ('\t', rest)
    else if mark = 'n' then some ('\n', rest)
    else if mark = 'r' then some ('\r', rest)
    else if mark = 'u' then
      some (.ofNat (numberOf 16 (rest.tail.takeWhile (· != '}'))), (rest.dropWhile (· != '}')).tail)
    else some (mark, rest)

/-- Reads one character as it is written between quotes, and gives it with what follows. -/
def readEscaped : List Char → Option (Char × List Char)
  | [] => none
  | c :: rest => if c = '\\' then readMark rest else some (c, rest)

/-- The digits of a character's number are read back, up to the brace that ends them. -/
theorem readMark_number (c : Char) (x : List Char) :
    readMark ('u' :: '{' :: Nat.toDigits 16 c.toNat ++ '}' :: x) = some (c, x) := by
  have hbrace : '}' ∉ Nat.toDigits 16 c.toNat :=
    notMem_toDigits (fun _ => Nat.digitChar_ne '}' rfl) (by decide) c.toNat
  have hdigits : ∀ d ∈ Nat.toDigits 16 c.toNat, (d != '}') = true :=
    fun d hd => bne_iff_ne.mpr fun heq => hbrace (heq ▸ hd)
  have hnumber : (Nat.toDigits 16 c.toNat ++ '}' :: x).takeWhile (· != '}') =
      Nat.toDigits 16 c.toNat := by
    rw [List.takeWhile_append_of_pos hdigits]
    simp
  have hrest : (Nat.toDigits 16 c.toNat ++ '}' :: x).dropWhile (· != '}') =
      '}' :: x := by
    rw [List.dropWhile_append_of_pos hdigits]
    simp
  simp [readMark, hnumber, hrest, numberOf_toDigits]

/-- Reading undoes writing, whatever the quotes are. -/
theorem readEscaped_escaped {quote : Char} (hquote : quote ∉ ['0', 't', 'n', 'r', 'u'])
    (c : Char) (x : List Char) : readEscaped ((escaped quote c).toList ++ x) = some (c, x) := by
  rw [escaped]
  split_ifs with hnull htab hfeed hreturn hbehind hunprintable
  · rw [hnull]
    rfl
  · rw [htab]
    rfl
  · rw [hfeed]
    rfl
  · rw [hreturn]
    rfl
  · have hmarks : c ∉ ['0', 't', 'n', 'r', 'u'] := by
      rcases (Bool.or_eq_true _ _).mp hbehind with hbackslash | heq
      · rw [of_decide_eq_true hbackslash]
        decide
      · rwa [of_decide_eq_true heq]
    simp only [List.mem_cons, List.not_mem_nil, or_false, not_or] at hmarks
    simp [readEscaped, readMark, hmarks]
  · have hread := readMark_number c x
    simpa [readEscaped, hexadecimal, String.toList_append] using hread
  · have hplain : c ≠ '\\' := by
      intro heq
      simp [heq] at hbehind
    simp [readEscaped, hplain]

theorem toList_quotedText (s : String) : (quotedText s).toList =
    '\x22' :: (s.toList.flatMap fun c => (escaped '\x22' c).toList) ++ ['\x22'] := by
  rw [quotedText, String.toList_append, toList_foldl_append]
  rfl

theorem selfDelimiting_quotedChar : SelfDelimiting quotedChar := by
  intro a b x y h
  simp only [quotedChar, String.toList_append, List.append_assoc, List.append_cancel_left_eq] at h
  obtain ⟨hab, hxy⟩ := selfDelimiting_of_read (readEscaped_escaped (by decide)) h
  exact ⟨hab, List.append_cancel_left hxy⟩

/-- A character is written between double quotes without one in front. -/
theorem escaped_append_ne (c : Char) (x y : List Char) :
    (escaped '\x22' c).toList ++ x ≠ '\x22' :: y := by
  intro h
  have hread : readEscaped ((escaped '\x22' c).toList ++ x) = some (c, x) :=
    readEscaped_escaped (by decide) c x
  rw [h] at hread
  -- What is read back from a quote is the quote, which is written behind a backslash.
  obtain ⟨rfl, rfl⟩ : '\x22' = c ∧ y = x := Prod.mk.inj (Option.some.inj hread)
  exact absurd (List.cons.inj h).1 (by decide)

theorem selfDelimiting_quotedText : SelfDelimiting quotedText := by
  intro s t x y h
  simp only [toList_quotedText, List.cons_append, List.append_assoc, List.cons.injEq, true_and,
    List.nil_append] at h
  obtain ⟨hst, hxy⟩ := SelfDelimiting.flatMap_terminated_inj
    (selfDelimiting_of_read (readEscaped_escaped (by decide))) escaped_append_ne h
  exact ⟨String.toList_injective hst, hxy⟩

/-- A quoted text determines the text. -/
theorem quotedText_injective : Function.Injective quotedText := fun _ _ h =>
  (selfDelimiting_quotedText (congrArg (·.toList ++ []) h)).1

end PatternTree
