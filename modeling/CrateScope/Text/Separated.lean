/-!
# Text separated by double colons

The parts of a path are separated by `::`.  Splitting goes from left to right and takes each
separator as soon as it is complete, so that `a:::b` has the parts `a` and `:b`.

## Main definitions

* `splitColons` — the parts of a text, at least one.
* `joinColons` — the text that shows some parts.

Splitting undoes joining as long as no part holds a separator, and no part but the last ends in a
colon: `a:` and `b` are written `a:::b`, which has the parts `a` and `:b`.
-/

namespace CrateScope

/-- The parts of a text between its double colons.  A text without one is its only part. -/
def splitColons : List Char → List (List Char)
  | [] => [[]]
  | ':' :: ':' :: rest => [] :: splitColons rest
  | c :: rest => (splitColons rest).modifyHead (c :: ·)

/-- Some parts with a double colon between each two. -/
def joinColons : List String → String
  | [] => ""
  | [part] => part
  | part :: parts => part ++ "::" ++ joinColons parts

/-- What stands between two parts. -/
def colons : List Char := [':', ':']

/-- Even the empty text has a part. -/
theorem splitColons_ne_nil (text : List Char) : splitColons text ≠ [] := by
  fun_induction splitColons text with
  | case1 => simp
  | case2 => simp
  | case3 c rest _ ih => simp [List.modifyHead_eq_nil_iff, ih]

example : splitColons "a:::b".toList = ["a".toList, ":b".toList] := by decide

/-! ### Splitting and joining -/

theorem toList_joinColons (parts : List String) :
    (joinColons parts).toList = colons.intercalate (parts.map String.toList) := by
  fun_induction joinColons parts with
  | case1 => rfl
  | case2 part => simp
  | case3 part parts hne ih =>
    obtain ⟨next, parts, rfl⟩ := List.exists_cons_of_ne_nil hne
    simp [ih, colons, List.intercalate_cons_cons]

theorem intercalate_cons {part : List Char} {parts : List (List Char)} (h : parts ≠ []) :
    colons.intercalate (part :: parts) = part ++ colons ++ colons.intercalate parts := by
  obtain ⟨next, parts, rfl⟩ := List.exists_cons_of_ne_nil h
  exact List.intercalate_cons_cons

theorem intercalate_modifyHead_cons {c : Char} {parts : List (List Char)} (h : parts ≠ []) :
    colons.intercalate (parts.modifyHead (c :: ·)) = c :: colons.intercalate parts := by
  obtain ⟨part, parts, rfl⟩ := List.exists_cons_of_ne_nil h
  cases parts with
  | nil => simp
  | cons => simp [List.intercalate_cons_cons]

/-- Splitting loses nothing. -/
theorem intercalate_splitColons (text : List Char) :
    colons.intercalate (splitColons text) = text := by
  fun_induction splitColons text with
  | case1 => rfl
  | case2 rest ih =>
    rw [intercalate_cons (splitColons_ne_nil rest), ih]
    rfl
  | case3 c rest _ ih =>
    rw [intercalate_modifyHead_cons (splitColons_ne_nil rest), ih]

theorem splitColons_cons {c : Char} {rest : List Char} (h : c = ':' → rest.head? ≠ some ':') :
    splitColons (c :: rest) = (splitColons rest).modifyHead (c :: ·) := by
  rw [splitColons]
  rintro rest' rfl rfl
  exact h rfl rfl

/-- A text begins with its first part. -/
theorem prefix_of_splitColons {text first : List Char} {others : List (List Char)}
    (h : splitColons text = first :: others) : first <+: text ∧
      (others ≠ [] → first ++ colons <+: text) := by
  have htext := intercalate_splitColons text
  rw [h] at htext
  by_cases hothers : others = []
  · subst hothers
    rw [List.intercalate_singleton] at htext
    exact ⟨htext ▸ List.prefix_rfl, fun hne => absurd rfl hne⟩
  · rw [intercalate_cons hothers] at htext
    refine ⟨⟨colons ++ colons.intercalate others, ?_⟩, fun _ => ⟨_, htext⟩⟩
    rw [← List.append_assoc]
    exact htext

/-- No part holds a separator. -/
theorem not_colons_infix_of_mem_splitColons {text part : List Char} (h : part ∈ splitColons text) :
    ¬ colons <:+: part := by
  fun_induction splitColons text generalizing part with
  | case1 => simp_all [colons]
  | case2 rest ih =>
    rcases List.mem_cons.1 h with rfl | h
    · simp [colons]
    · exact ih h
  | case3 c rest hnot ih =>
    obtain ⟨first, others, hsplit⟩ := List.exists_cons_of_ne_nil (splitColons_ne_nil rest)
    rw [hsplit] at h ih
    rcases List.mem_cons.1 h with rfl | h
    · rw [List.infix_cons_iff]
      rintro (hbegins | hwithin)
      · -- The separator would begin with `c`, and the text with it.
        obtain ⟨hc, hfirst⟩ := List.cons_prefix_cons.1 hbegins
        obtain ⟨rest', hrest⟩ := hfirst.trans (prefix_of_splitColons hsplit).1
        exact hnot rest' hc.symm hrest.symm
      · exact ih List.mem_cons_self hwithin
    · exact ih (List.mem_cons_of_mem first h)

/-- A separator is taken as soon as it is complete, so that no part before one ends in a colon. -/
theorem getLast?_ne_of_mem_splitColons {text part : List Char}
    (h : part ∈ (splitColons text).dropLast) : part.getLast? ≠ some ':' := by
  fun_induction splitColons text generalizing part with
  | case1 => simp at h
  | case2 rest ih =>
    rw [List.dropLast_cons_of_ne_nil (splitColons_ne_nil rest)] at h
    rcases List.mem_cons.1 h with rfl | h
    · simp
    · exact ih h
  | case3 c rest hnot ih =>
    obtain ⟨first, others, hsplit⟩ := List.exists_cons_of_ne_nil (splitColons_ne_nil rest)
    rw [hsplit] at h ih
    by_cases hothers : others = []
    · subst hothers
      simp at h
    · rw [List.dropLast_cons_of_ne_nil hothers] at ih
      rw [List.modifyHead_cons, List.dropLast_cons_of_ne_nil hothers] at h
      rcases List.mem_cons.1 h with rfl | h
      · cases first with
        | nil =>
          -- The separator follows at once, so that `c` would have been part of it.
          obtain ⟨rest', hrest⟩ := (prefix_of_splitColons hsplit).2 hothers
          simp only [List.getLast?_singleton, ne_eq, Option.some.injEq]
          exact fun hc => hnot (':' :: rest') hc hrest.symm
        | cons d first =>
          rw [List.getLast?_cons_cons]
          exact ih List.mem_cons_self
      · exact ih (List.mem_cons_of_mem first h)

/-- A part without a separator in it stays whole. -/
theorem splitColons_whole {part : List Char} (hwithin : ¬ colons <:+: part) :
    splitColons part = [part] := by
  induction part with
  | nil => rfl
  | cons c part ih =>
    rw [splitColons_cons, ih fun h => hwithin (List.infix_cons h)]
    · rfl
    · rintro rfl hhead
      obtain ⟨rest, rfl⟩ := List.head?_eq_some_iff.1 hhead
      exact hwithin (List.infix_cons_iff.2 (Or.inl ⟨rest, rfl⟩))

/-- A part is split off at the next separator, if none could be taken earlier. -/
theorem splitColons_append {part : List Char} (hwithin : ¬ colons <:+: part)
    (hlast : part.getLast? ≠ some ':') (rest : List Char) :
    splitColons (part ++ colons ++ rest) = part :: splitColons rest := by
  induction part with
  | nil => rfl
  | cons c part ih =>
    have htail : splitColons (part ++ colons ++ rest) = part :: splitColons rest := by
      refine ih (fun h => hwithin (List.infix_cons h)) fun h => hlast ?_
      rw [List.getLast?_cons, h]
      rfl
    rw [List.cons_append, List.cons_append, splitColons_cons, htail]
    · rfl
    · rintro rfl hhead
      cases part with
      | nil => exact hlast rfl
      | cons d part =>
        cases hhead
        exact hwithin (List.infix_cons_iff.2 (Or.inl ⟨part, rfl⟩))

/-- Parts are found again between the separators, if no separator could be taken too early. -/
theorem splitColons_intercalate {parts : List (List Char)} (hne : parts ≠ [])
    (hwithin : ∀ part ∈ parts, ¬ colons <:+: part)
    (hlast : ∀ part ∈ parts.dropLast, part.getLast? ≠ some ':') :
    splitColons (colons.intercalate parts) = parts := by
  induction parts with
  | nil => exact absurd rfl hne
  | cons part parts ih =>
    have hpart := hwithin part List.mem_cons_self
    by_cases hrest : parts = []
    · subst hrest
      rw [List.intercalate_singleton]
      exact splitColons_whole hpart
    · rw [List.dropLast_cons_of_ne_nil hrest] at hlast
      rw [intercalate_cons hrest, splitColons_append hpart (hlast part List.mem_cons_self),
        ih hrest (fun q hq => hwithin q (List.mem_cons_of_mem part hq))
          fun q hq => hlast q (List.mem_cons_of_mem part hq)]

end CrateScope
