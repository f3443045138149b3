/-!
# White space

Names, paths and visibilities may be written with white space around their parts.  What counts is
the Unicode property `White_Space`, which has twenty-five code points and is wider than the
four that `Char.isWhitespace` knows.

## Main definitions

* `isBlank` — membership in the property.
* `trimStart`, `trimEnd`, `trim` — text without the blanks at its ends.
* `withoutBlanks` — text without any blank.

Text is handled as a list of characters: every reader of this library works on the list, and
meets a `String` only at its border.
-/

namespace CrateScope

/-- The code points of the Unicode property `White_Space`, as ranges with both ends included. -/
def blankRanges : List (Nat × Nat) :=
  [(0x09, 0x0D), (0x20, 0x20), (0x85, 0x85), (0xA0, 0xA0), (0x1680, 0x1680), (0x2000, 0x200A),
   (0x2028, 0x2029), (0x202F, 0x202F), (0x205F, 0x205F), (0x3000, 0x3000)]

/-- The ranges hold twenty-five code points. -/
example : (blankRanges.map fun r => r.2 + 1 - r.1).sum = 25 := by decide

/-- A character is blank when its code point lies in one of the ranges. -/
def isBlank (c : Char) : Bool :=
  blankRanges.any fun r => r.1 ≤ c.toNat && c.toNat ≤ r.2

/-- Text without the blanks it starts with. -/
def trimStart (text : List Char) : List Char :=
  text.dropWhile isBlank

/-- Text without the blanks it ends with. -/
def trimEnd (text : List Char) : List Char :=
  (text.reverse.dropWhile isBlank).reverse

/-- Text without the blanks at its ends. -/
def trim (text : List Char) : List Char :=
  trimEnd (trimStart text)

/-- Text without any blank, also inside. -/
def withoutBlanks (text : List Char) : List Char :=
  text.filter fun c => !isBlank c

/-! ### Trimming -/

theorem trimStart_eq_self {text : List Char} (h : ∀ c ∈ text.head?, isBlank c = false) :
    trimStart text = text := by
  cases text with
  | nil => rfl
  | cons c text => exact List.dropWhile_cons_of_neg (by simp [h c rfl])

theorem trimEnd_eq_self {text : List Char} (h : ∀ c ∈ text.getLast?, isBlank c = false) :
    trimEnd text = text := by
  have hreverse : trimStart text.reverse = text.reverse :=
    trimStart_eq_self fun c hc => h c (by rwa [List.head?_reverse] at hc)
  unfold trimStart at hreverse
  unfold trimEnd
  rw [hreverse, List.reverse_reverse]

/-- A text that neither begins nor ends with a blank is left as it is. -/
theorem trim_eq_self {text : List Char} (hhead : ∀ c ∈ text.head?, isBlank c = false)
    (hlast : ∀ c ∈ text.getLast?, isBlank c = false) : trim text = text := by
  unfold trim
  rw [trimStart_eq_self hhead, trimEnd_eq_self hlast]

theorem not_isBlank_of_mem_head?_trimStart {text : List Char} {c : Char}
    (h : c ∈ (trimStart text).head?) : isBlank c = false := by
  have hnot := List.head?_dropWhile_not isBlank text
  unfold trimStart at h
  rwa [Option.mem_def.1 h] at hnot

theorem not_isBlank_of_mem_getLast?_trim {text : List Char} {c : Char}
    (h : c ∈ (trim text).getLast?) : isBlank c = false := by
  unfold trim trimEnd at h
  rw [List.getLast?_reverse] at h
  exact not_isBlank_of_mem_head?_trimStart h

theorem not_isBlank_of_mem_head?_trim {text : List Char} {c : Char}
    (h : c ∈ (trim text).head?) : isBlank c = false := by
  -- What is cut off at the end leaves the first character as it is.
  have hbegins : trim text <+: trimStart text := by
    rw [← List.reverse_suffix]
    unfold trim trimEnd
    rw [List.reverse_reverse]
    exact List.dropWhile_suffix isBlank
  obtain ⟨rest, hrest⟩ := hbegins
  have hhead : c ∈ (trimStart text).head? := by
    rw [← hrest, List.head?_append, Option.mem_def.1 h]
    rfl
  exact not_isBlank_of_mem_head?_trimStart hhead

@[simp] theorem trim_trim (text : List Char) : trim (trim text) = trim text :=
  trim_eq_self (fun _ => not_isBlank_of_mem_head?_trim) fun _ => not_isBlank_of_mem_getLast?_trim

theorem exists_trimStart (text : List Char) :
    ∃ before, before.all isBlank = true ∧ text = before ++ trimStart text :=
  ⟨text.takeWhile isBlank, List.all_takeWhile, List.takeWhile_append_dropWhile.symm⟩

/-- A text is what is left of it between some blanks. -/
theorem exists_trim (text : List Char) : ∃ before after,
    before.all isBlank = true ∧ after.all isBlank = true ∧ text = before ++ trim text ++ after := by
  obtain ⟨before, hbefore, hstart⟩ := exists_trimStart text
  obtain ⟨after, hafter, hend⟩ := exists_trimStart (trimStart text).reverse
  refine ⟨before, after.reverse, hbefore, by rw [List.all_reverse]; exact hafter, ?_⟩
  have hrest : trimStart text = trim text ++ after.reverse := by
    rw [← List.reverse_reverse (trimStart text), hend, List.reverse_append]
    rfl
  rw [List.append_assoc, ← hrest]
  exact hstart

theorem length_trim_le (text : List Char) : (trim text).length ≤ text.length := by
  obtain ⟨before, after, -, -, h⟩ := exists_trim text
  have hlength := congrArg List.length h
  simp only [List.length_append] at hlength
  omega

/-- If nothing is cut off, the text is as it was. -/
theorem trim_eq_of_length_eq {text : List Char} (h : (trim text).length = text.length) :
    trim text = text := by
  obtain ⟨before, after, -, -, htext⟩ := exists_trim text
  have hlength := congrArg List.length htext
  simp only [List.length_append] at hlength
  obtain rfl : before = [] := List.eq_nil_of_length_eq_zero (by omega)
  obtain rfl : after = [] := List.eq_nil_of_length_eq_zero (by omega)
  simpa using htext.symm

/-- Blanks around a text do not count. -/
theorem trim_append {before after : List Char} (hbefore : before.all isBlank = true)
    (hafter : after.all isBlank = true) (text : List Char) :
    trim (before ++ text ++ after) = trim text := by
  have hend : ∀ l : List Char, trimEnd (l ++ after) = trimEnd l := by
    intro l
    unfold trimEnd
    rw [List.reverse_append, List.dropWhile_append_of_pos (by simpa using hafter)]
  have hstart : trimStart (before ++ (text ++ after)) = trimStart (text ++ after) :=
    List.dropWhile_append_of_pos (by simpa using hbefore)
  unfold trim
  rw [List.append_assoc, hstart]
  unfold trimStart
  rw [List.dropWhile_append]
  split
  · next hempty =>
    rw [List.isEmpty_iff.1 hempty]
    rw [← List.append_nil after, List.dropWhile_append_of_pos (by simpa using hafter)]
    rfl
  · exact hend _

/-- The blanks around a text that neither begins nor ends with one are cut off. -/
theorem trim_between {before text after : List Char} (hbefore : before.all isBlank = true)
    (hafter : after.all isBlank = true) (hhead : ∀ c ∈ text.head?, isBlank c = false)
    (hlast : ∀ c ∈ text.getLast?, isBlank c = false) : trim (before ++ text ++ after) = text := by
  rw [trim_append hbefore hafter, trim_eq_self hhead hlast]

@[simp] theorem withoutBlanks_append (text text' : List Char) :
    withoutBlanks (text ++ text') = withoutBlanks text ++ withoutBlanks text' :=
  List.filter_append ..

theorem withoutBlanks_eq_nil_iff {text : List Char} :
    withoutBlanks text = [] ↔ text.all isBlank = true := by
  simp [withoutBlanks]

@[simp] theorem withoutBlanks_trim (text : List Char) :
    withoutBlanks (trim text) = withoutBlanks text := by
  obtain ⟨before, after, hbefore, hafter, htext⟩ := exists_trim text
  have hall := congrArg withoutBlanks htext
  simpa [withoutBlanks_eq_nil_iff.2 hbefore, withoutBlanks_eq_nil_iff.2 hafter] using hall.symm

end CrateScope
