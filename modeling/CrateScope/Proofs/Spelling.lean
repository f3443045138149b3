import CrateScope.Path
import Mathlib

/-!
# How paths are spelled

One path can be spelled in several ways: with white space around its parts, with `$crate` in place
of `crate`, with a `self` in front of a `super`.  Its text is the shortest of them, and that is why
it can be read again: each other way to begin a path with the same meaning takes more room.

There is one exception.  A name may hold colons, and may end in one.  Where such a name is not the
last, the text runs its colon together with the separator after it, and the reader takes the first
two colons of the three.  With a blank in between, as in `a: ::b`, the name is read as it is meant.

## Main definitions

* `IsPart`, `IsName` — what can stand between two separators, and what can be a name.
* `Path.Readable` — the paths that can be read from some text.
* `Path.Clear` — no name but the last ends in a colon.
* `room` — how much room some parts take.

## Main results

* `readable_of_parse?` — what is read is readable.
* `Path.Readable.parse?_text_iff` — a readable path is read from its own text exactly if it is
  clear.
* `path_texts_are_read_back` — both together, for any text that is a path.
-/

namespace CrateScope

/-! ### Parts of a text -/

/-- What can stand between two separators: a text that is not empty, has no blank at its ends and no
separator in it. -/
structure IsPart (part : Name) : Prop where
  ne_nil : part.toList ≠ []
  trimmed : trim part.toList = part.toList
  whole : ¬ colons <:+: part.toList

/-- What can be a name in a path. -/
structure IsName (name : Name) : Prop extends IsPart name where
  not_keyword : name ∉ keywords

/-- What paths can be read from some text. -/
structure Path.Readable (path : Path) : Prop where
  names : ∀ name ∈ path.segments, IsName name
  climb_le : ∀ levels, path.anchor = .super levels → levels ≤ maxClimb
  ne_nil : path.anchor = .plain ∨ path.anchor = .absolute → path.segments ≠ []

/-- No name but the last ends in a colon, which would run into the separator. -/
def Path.Clear (path : Path) : Prop :=
  ∀ name ∈ path.segments.dropLast, name.toList.getLast? ≠ some ':'

/-- How much room some parts take when each is written with a separator. -/
def room (parts : List (List Char)) : Nat := (parts.map fun part => part.length + 2).sum

@[simp] theorem room_cons (part : List Char) (parts : List (List Char)) :
    room (part :: parts) = part.length + 2 + room parts := rfl

theorem length_intercalate {parts : List (List Char)} (h : parts ≠ []) :
    (colons.intercalate parts).length + 2 = room parts := by
  induction parts with
  | nil => exact absurd rfl h
  | cons part parts ih =>
    by_cases hparts : parts = []
    · subst hparts
      simp [room]
    · rw [intercalate_cons hparts, List.length_append, List.length_append, room_cons, ← ih hparts]
      simp only [colons, List.length_cons, List.length_nil]
      omega

/-- Parts take no more room without the blanks at their ends. -/
theorem room_map_trim_le (parts : List (List Char)) : room (parts.map trim) ≤ room parts := by
  induction parts with
  | nil => exact Nat.le_refl _
  | cons part parts ih =>
    have hpart := length_trim_le part
    simp only [List.map_cons, room_cons]
    omega

/-- Parts that take as much room without the blanks at their ends have none there. -/
theorem map_trim_eq_of_room_le {parts : List (List Char)}
    (h : room parts ≤ room (parts.map trim)) : parts.map trim = parts := by
  induction parts with
  | nil => rfl
  | cons part parts ih =>
    have hpart := length_trim_le part
    have hparts := room_map_trim_le parts
    simp only [List.map_cons, room_cons] at h ⊢
    rw [trim_eq_of_length_eq (by omega), ih (by omega)]

theorem parts?_eq_some_iff {text : List Char} {parts : List Name} :
    Path.parts? text = some parts ↔
      (∀ part ∈ splitColons text, trim part ≠ []) ∧
        parts.map String.toList = (splitColons text).map trim := by
  have hlist : ∀ l : List (List Char),
      l.map String.ofList = parts ↔ parts.map String.toList = l := by
    intro l
    constructor
    · rintro rfl
      rw [List.map_map]
      simp [Function.comp_def]
    · rintro rfl
      rw [List.map_map]
      simp [Function.comp_def]
  unfold Path.parts?
  simp only
  split
  · next hempty =>
    simp only [List.any_eq_true, List.mem_map, List.isEmpty_iff] at hempty
    obtain ⟨_, ⟨part, hpart, rfl⟩, hnil⟩ := hempty
    exact iff_of_false (by simp) fun h => h.1 part hpart hnil
  · next hnone =>
    rw [Option.some.injEq, hlist]
    refine (and_iff_right fun part hpart hnil => hnone ?_).symm
    rw [List.any_eq_true]
    exact ⟨_, List.mem_map_of_mem hpart, List.isEmpty_iff.2 hnil⟩

theorem isPart_of_parts? {text : List Char} {parts : List Name}
    (h : Path.parts? text = some parts) : ∀ part ∈ parts, IsPart part := by
  obtain ⟨hne, hparts⟩ := parts?_eq_some_iff.1 h
  intro part hpart
  have hmem := List.mem_map_of_mem (f := String.toList) hpart
  rw [hparts, List.mem_map] at hmem
  obtain ⟨raw, hraw, heq⟩ := hmem
  rw [← String.ofList_toList (s := part), ← heq]
  obtain ⟨before, after, -, -, htrim⟩ := exists_trim raw
  refine ⟨?_, ?_, ?_⟩
  · rw [String.toList_ofList]
    exact hne raw hraw
  · rw [String.toList_ofList, trim_trim]
  · rw [String.toList_ofList]
    exact fun hwithin => not_colons_infix_of_mem_splitColons hraw
      (hwithin.trans ⟨before, after, htrim.symm⟩)

theorem ne_nil_of_parts? {text : List Char} {parts : List Name}
    (h : Path.parts? text = some parts) : parts ≠ [] := by
  rintro rfl
  have hnil := (parts?_eq_some_iff.1 h).2
  exact splitColons_ne_nil text (List.map_eq_nil_iff.1 hnil.symm)

/-- Parts that are written one after the other begin as the first of them begins. -/
theorem exists_mem_head?_of_intercalate {parts : List (List Char)}
    (hparts : ∀ part ∈ parts, part ≠ []) {c : Char}
    (h : c ∈ (colons.intercalate parts).head?) : ∃ part ∈ parts, c ∈ part.head? := by
  cases parts with
  | nil => simp at h
  | cons part parts =>
    refine ⟨part, List.mem_cons_self, ?_⟩
    obtain ⟨d, part, rfl⟩ := List.exists_cons_of_ne_nil (hparts part List.mem_cons_self)
    cases parts with
    | nil => simpa using h
    | cons next parts =>
      rw [List.intercalate_cons_cons] at h
      simpa using h

/-- They end as the last of them ends. -/
theorem exists_mem_getLast?_of_intercalate {parts : List (List Char)}
    (hparts : ∀ part ∈ parts, part ≠ []) {c : Char} (h : c ∈ (colons.intercalate parts).getLast?) :
    ∃ part ∈ parts, c ∈ part.getLast? := by
  induction parts with
  | nil => simp at h
  | cons part parts ih =>
    cases parts with
    | nil => exact ⟨part, List.mem_cons_self, by simpa using h⟩
    | cons next parts =>
      have hne : colons.intercalate (next :: parts) ≠ [] := by
        have hlength := length_intercalate (List.cons_ne_nil next parts)
        have hnext := List.length_pos_of_ne_nil
          (hparts next (List.mem_cons_of_mem part List.mem_cons_self))
        rw [room_cons] at hlength
        exact List.ne_nil_of_length_pos (by omega)
      rw [List.intercalate_cons_cons, List.getLast?_append_of_ne_nil _ hne] at h
      obtain ⟨last, hlast, hc⟩ := ih (fun q hq => hparts q (List.mem_cons_of_mem part hq)) h
      exact ⟨last, List.mem_cons_of_mem part hlast, hc⟩

section Ends

variable {parts : List Name} (hparts : ∀ part ∈ parts, IsPart part)

include hparts

theorem not_isBlank_of_mem_head?_intercalate {c : Char}
    (h : c ∈ (colons.intercalate (parts.map String.toList)).head?) : isBlank c = false := by
  obtain ⟨_, hmem, hc⟩ := exists_mem_head?_of_intercalate
    (by simpa using fun part hpart => (hparts part hpart).ne_nil) h
  obtain ⟨part, hpart, rfl⟩ := List.mem_map.1 hmem
  rw [← (hparts part hpart).trimmed] at hc
  exact not_isBlank_of_mem_head?_trim hc

theorem not_isBlank_of_mem_getLast?_intercalate {c : Char}
    (h : c ∈ (colons.intercalate (parts.map String.toList)).getLast?) : isBlank c = false := by
  obtain ⟨_, hmem, hc⟩ := exists_mem_getLast?_of_intercalate
    (by simpa using fun part hpart => (hparts part hpart).ne_nil) h
  obtain ⟨part, hpart, rfl⟩ := List.mem_map.1 hmem
  rw [← (hparts part hpart).trimmed] at hc
  exact not_isBlank_of_mem_getLast?_trim hc

/-- Parts that are written one after the other begin and end with no blank. -/
theorem trim_intercalate : trim (colons.intercalate (parts.map String.toList))
    = colons.intercalate (parts.map String.toList) :=
  trim_eq_self (fun _ => not_isBlank_of_mem_head?_intercalate hparts)
    fun _ => not_isBlank_of_mem_getLast?_intercalate hparts

/-- So they do with a separator in front of them. -/
theorem trim_colons_append : trim (colons ++ colons.intercalate (parts.map String.toList))
    = colons ++ colons.intercalate (parts.map String.toList) := by
  apply trim_eq_self
  · intro c hc
    cases hc
    decide
  · intro c hc
    rw [List.getLast?_append, Option.mem_def, Option.or_eq_some_iff] at hc
    rcases hc with hc | ⟨-, hc⟩
    · exact not_isBlank_of_mem_getLast?_intercalate hparts hc
    · cases hc
      decide

end Ends

section Written

variable {parts : List Name} (hne : parts ≠ [])

include hne

/-- What stands between the separators of the text is what was written there. -/
theorem splitColons_parts (hparts : ∀ part ∈ parts, IsPart part)
    (hclear : ∀ part ∈ parts.dropLast, part.toList.getLast? ≠ some ':') :
    splitColons (colons.intercalate (parts.map String.toList)) = parts.map String.toList := by
  apply splitColons_intercalate
  · simpa using hne
  · simpa using fun part hpart => (hparts part hpart).whole
  · intro _ hmem
    rw [← List.map_dropLast] at hmem
    obtain ⟨part, hpart, rfl⟩ := List.mem_map.1 hmem
    exact hclear part hpart

/-- Parts are read again as they are written if none but the last ends in a colon. -/
theorem parts?_intercalate (hparts : ∀ part ∈ parts, IsPart part)
    (hclear : ∀ part ∈ parts.dropLast, part.toList.getLast? ≠ some ':') :
    Path.parts? (colons.intercalate (parts.map String.toList)) = some parts := by
  rw [parts?_eq_some_iff, splitColons_parts hne hparts hclear]
  constructor
  · intro _ hmem
    obtain ⟨part, hpart, rfl⟩ := List.mem_map.1 hmem
    rw [(hparts part hpart).trimmed]
    exact (hparts part hpart).ne_nil
  · rw [List.map_map]
    exact List.map_congr_left fun part hpart => (hparts part hpart).trimmed.symm

/-- The text of such parts does not begin with a separator: its first part would be empty. -/
theorem not_colons_prefix_intercalate (hparts : ∀ part ∈ parts, IsPart part)
    (hclear : ∀ part ∈ parts.dropLast, part.toList.getLast? ≠ some ':') :
    ¬ colons <+: colons.intercalate (parts.map String.toList) := by
  rintro ⟨rest, hrest⟩
  have hsplit := splitColons_parts hne hparts hclear
  rw [← hrest] at hsplit
  have hnil : [] ∈ parts.map String.toList := by
    rw [← hsplit]
    exact List.mem_cons_self
  obtain ⟨part, hpart, hempty⟩ := List.mem_map.1 hnil
  exact (hparts part hpart).ne_nil hempty

/-- What is read from parts that are written one after the other takes no more room than these; and
if it takes as much, then it is what stands between the separators, and none of that but the last
ends in a colon. -/
theorem room_le_of_parts? {parts' : List Name}
    (h : Path.parts? (colons.intercalate (parts.map String.toList)) = some parts') :
    room (parts'.map String.toList) ≤ room (parts.map String.toList) ∧
      (room (parts.map String.toList) ≤ room (parts'.map String.toList) →
        ∀ part ∈ parts'.dropLast, part.toList.getLast? ≠ some ':') := by
  have hmap : parts.map String.toList ≠ [] := by simpa using hne
  have hroom : room (splitColons (colons.intercalate (parts.map String.toList)))
      = room (parts.map String.toList) := by
    rw [← length_intercalate (splitColons_ne_nil _), intercalate_splitColons,
      length_intercalate hmap]
  rw [(parts?_eq_some_iff.1 h).2, ← hroom]
  refine ⟨room_map_trim_le _, fun hle part hpart => ?_⟩
  have hmem := List.mem_map_of_mem (f := String.toList) hpart
  rw [List.map_dropLast, (parts?_eq_some_iff.1 h).2, map_trim_eq_of_room_le hle] at hmem
  exact getLast?_ne_of_mem_splitColons hmem

end Written

/-! ### Anchors -/

theorem replicate_of_climb? {parts rest : List Name} {anchor : Anchor}
    (h : Anchor.climb? parts = some (anchor, rest)) : rest.head? ≠ some "super" ∧
      ∃ levels ≤ maxClimb, anchor = .super levels ∧
        parts = List.replicate levels "super" ++ rest := by
  unfold Anchor.climb? at h
  simp only at h
  split at h
  · next hle =>
    obtain ⟨rfl, rfl⟩ := Prod.mk.inj (Option.some.inj h)
    have hsupers : parts.takeWhile (· == "super")
        = List.replicate (parts.takeWhile (· == "super")).length "super" :=
      List.eq_replicate_of_mem fun part hpart => by simpa using List.mem_takeWhile_imp hpart
    have hdrop : (parts.takeWhile (· == "super") ++ parts.dropWhile (· == "super")).drop
        (parts.takeWhile (· == "super")).length = parts.dropWhile (· == "super") := List.drop_left
    rw [List.takeWhile_append_dropWhile] at hdrop
    refine ⟨?_, _, hle, rfl, ?_⟩
    · have hnot := List.head?_dropWhile_not (· == "super") parts
      rw [hdrop]
      intro hhead
      rw [hhead] at hnot
      cases hnot
    · rw [← hsupers, hdrop, List.takeWhile_append_dropWhile]
  · cases h

theorem climb?_replicate {levels : Nat} (hle : levels ≤ maxClimb) {rest : List Name}
    (hrest : ∀ name ∈ rest, name ∉ keywords) :
    Anchor.climb? (List.replicate levels "super" ++ rest) = some (.super levels, rest) := by
  have htake : (List.replicate levels "super" ++ rest).takeWhile (· == "super")
      = List.replicate levels "super" := by
    rw [List.takeWhile_append_of_pos (by simp)]
    cases rest with
    | nil => simp
    | cons name rest =>
      have hname : name ≠ "super" := by
        rintro rfl
        exact hrest "super" List.mem_cons_self (by decide)
      rw [List.takeWhile_cons_of_neg (by simpa using hname), List.append_nil]
  unfold Anchor.climb?
  simp only [htake, List.length_replicate, if_pos hle]
  rw [List.drop_left' (by simp)]

/-- A path that begins with `self` can be written without it if a `super` comes next. -/
theorem Anchor.words_super_of_pos {levels : Nat} (h : 0 < levels) :
    Anchor.words (.super levels) = List.replicate levels "super" := by
  obtain ⟨n, rfl⟩ := Nat.exists_eq_succ_of_ne_zero h.ne'
  rfl

/-- The words of an anchor and the names after it are what they were read from, or else they take
less room. -/
theorem words_append_of_read? {parts rest : List Name} {anchor : Anchor}
    (h : Anchor.read? parts = some (anchor, rest)) : parts = anchor.words ++ rest ∨
      room ((anchor.words ++ rest).map String.toList) < room (parts.map String.toList) := by
  cases parts with
  | nil =>
    cases h
    exact Or.inl rfl
  | cons first parts =>
    unfold Anchor.read? at h
    simp only at h
    split at h
    · next hcrate =>
      cases h
      rcases hcrate with rfl | rfl
      · exact Or.inl rfl
      · right
        simp only [Anchor.words, List.cons_append, List.nil_append, List.map_cons, room_cons]
        exact Nat.add_lt_add_right (by decide) _
    · split at h
      · next hself =>
        subst hself
        obtain ⟨-, levels, -, rfl, rfl⟩ := replicate_of_climb? h
        rcases Nat.eq_zero_or_pos levels with rfl | hpos
        · exact Or.inl rfl
        · right
          rw [Anchor.words_super_of_pos hpos]
          simp only [List.map_cons, room_cons]
          omega
      · split at h
        · next hsuper =>
          subst hsuper
          obtain ⟨hrest, levels, -, rfl, hparts⟩ := replicate_of_climb? h
          rcases Nat.eq_zero_or_pos levels with rfl | hpos
          · rw [List.replicate_zero, List.nil_append] at hparts
            rw [← hparts] at hrest
            exact absurd rfl hrest
          · rw [Anchor.words_super_of_pos hpos]
            exact Or.inl hparts
        · cases h
          exact Or.inl rfl

/-- An anchor is read from its words. -/
theorem read?_words_append {anchor : Anchor} (hanchor : anchor ≠ .absolute)
    (hle : ∀ levels, anchor = .super levels → levels ≤ maxClimb) {rest : List Name}
    (hrest : ∀ name ∈ rest, name ∉ keywords) :
    Anchor.read? (anchor.words ++ rest) = some (anchor, rest) := by
  cases anchor with
  | absolute => exact absurd rfl hanchor
  | crate => rfl
  | plain =>
    cases rest with
    | nil => rfl
    | cons name rest =>
      have hname := hrest name List.mem_cons_self
      simp only [keywords, List.mem_cons, List.not_mem_nil, or_false, not_or] at hname
      simp [Anchor.words, Anchor.read?, hname]
  | super levels =>
    rcases Nat.eq_zero_or_pos levels with rfl | hpos
    · exact climb?_replicate (Nat.zero_le _) hrest
    · obtain ⟨n, rfl⟩ := Nat.exists_eq_succ_of_ne_zero hpos.ne'
      exact climb?_replicate (hle _ rfl) hrest

/-! ### Reading paths -/

theorem ofNames?_eq_some_iff {anchor : Anchor} {names : List Name} {path : Path} :
    Path.ofNames? anchor names = some path ↔
      (∀ name ∈ names, name ∉ keywords) ∧ path = ⟨anchor, names⟩ := by
  unfold Path.ofNames?
  split
  · next hkey =>
    refine iff_of_false (by simp) fun h => ?_
    obtain ⟨name, hname, hmem⟩ := List.any_eq_true.1 hkey
    exact h.1 name hname (List.contains_iff_mem.1 hmem)
  · next hnone =>
    rw [Option.some.injEq, eq_comm]
    refine (and_iff_right fun name hname hkey => hnone ?_).symm
    exact List.any_eq_true.2 ⟨name, hname, List.contains_iff_mem.2 hkey⟩

/-- What a text is read as that begins with a separator. -/
theorem parse?_absolute {text : String} {rest : List Char} (h : trim text.toList = colons ++ rest) :
    Path.parse? text = (Path.parts? rest).bind (Path.ofNames? .absolute) := by
  unfold Path.parse?
  rw [h]
  rfl

/-- What a text is read as that does not. -/
theorem parse?_relative {text : String} (h : ¬ colons <+: trim text.toList) :
    Path.parse? text = (Path.parts? (trim text.toList)).bind fun parts =>
      (Anchor.read? parts).bind fun (anchor, names) => Path.ofNames? anchor names := by
  unfold Path.parse?
  split
  · next rest hrest => exact absurd ⟨rest, hrest.symm⟩ h
  · rfl

/-- What a text is read as: a separator and names, or the words of an anchor and names. -/
theorem parse?_eq_some_iff {text : String} {path : Path} : Path.parse? text = some path ↔
    (∀ name ∈ path.segments, name ∉ keywords) ∧
      ((∃ rest, trim text.toList = colons ++ rest ∧ path.anchor = .absolute ∧
          Path.parts? rest = some path.segments) ∨
        (¬ colons <+: trim text.toList ∧ ∃ parts, Path.parts? (trim text.toList) = some parts ∧
          Anchor.read? parts = some (path.anchor, path.segments))) := by
  obtain ⟨anchor, segments⟩ := path
  by_cases hcolons : colons <+: trim text.toList
  · obtain ⟨rest, hrest⟩ := hcolons
    rw [parse?_absolute hrest.symm, ← hrest]
    simp only [Option.bind_eq_some_iff, ofNames?_eq_some_iff, Path.mk.injEq]
    constructor
    · rintro ⟨names, hnames, hkey, rfl, rfl⟩
      exact ⟨hkey, Or.inl ⟨rest, rfl, rfl, hnames⟩⟩
    · rintro ⟨hkey, ⟨rest', heq, rfl, hnames⟩ | ⟨hnot, -⟩⟩
      · obtain rfl := List.append_cancel_left heq
        exact ⟨segments, hnames, hkey, rfl, rfl⟩
      · exact absurd (List.prefix_append colons rest) hnot
  · rw [parse?_relative hcolons]
    simp only [Option.bind_eq_some_iff, ofNames?_eq_some_iff, Path.mk.injEq]
    constructor
    · rintro ⟨parts, hparts, ⟨anchor', names⟩, hread, hkey, rfl, rfl⟩
      exact ⟨hkey, Or.inr ⟨hcolons, parts, hparts, hread⟩⟩
    · rintro ⟨hkey, ⟨rest, heq, -⟩ | ⟨-, parts, hparts, hread⟩⟩
      · exact absurd ⟨rest, heq.symm⟩ hcolons
      · exact ⟨parts, hparts, (anchor, segments), hread, hkey, rfl, rfl⟩

/-- What an anchor was read from ends in the names after it, and a path that only starts from a
name has all of them. -/
theorem suffix_of_read? {parts names : List Name} {anchor : Anchor}
    (h : Anchor.read? parts = some (anchor, names)) : names <:+ parts ∧ anchor ≠ .absolute ∧
      (∀ levels, anchor = .super levels → levels ≤ maxClimb) ∧
      (anchor = .plain → names = parts) := by
  cases parts with
  | nil =>
    cases h
    exact ⟨List.suffix_rfl, by simp, by simp, fun _ => rfl⟩
  | cons first rest =>
    unfold Anchor.read? at h
    simp only at h
    split at h
    · cases h
      exact ⟨List.suffix_cons first _, by simp, by simp, by simp⟩
    · split at h
      · obtain ⟨-, levels, hle, rfl, rfl⟩ := replicate_of_climb? h
        exact ⟨(List.suffix_append _ names).trans (List.suffix_cons first _), by simp,
          fun n hn => Anchor.super.inj hn ▸ hle, by simp⟩
      · split at h
        · obtain ⟨-, levels, hle, rfl, hparts⟩ := replicate_of_climb? h
          rw [hparts]
          exact ⟨List.suffix_append _ names, by simp, fun n hn => Anchor.super.inj hn ▸ hle,
            by simp⟩
        · cases h
          exact ⟨List.suffix_rfl, by simp, by simp, fun _ => rfl⟩

theorem readable_of_parse? {text : String} {path : Path} (h : Path.parse? text = some path) :
    path.Readable := by
  obtain ⟨hkey, ⟨rest, -, hanchor, hparts⟩ | ⟨-, parts, hparts, hread⟩⟩ := parse?_eq_some_iff.1 h
  · refine ⟨fun name hname => ⟨isPart_of_parts? hparts name hname, hkey name hname⟩, ?_,
      fun _ => ne_nil_of_parts? hparts⟩
    rw [hanchor]
    exact fun _ hlevels => Anchor.noConfusion hlevels
  · obtain ⟨hsuffix, hne, hle, hplain⟩ := suffix_of_read? hread
    refine ⟨fun name hname => ⟨isPart_of_parts? hparts name (hsuffix.subset hname),
      hkey name hname⟩, hle, ?_⟩
    rintro (hanchor | hanchor)
    · rw [hplain hanchor]
      exact ne_nil_of_parts? hparts
    · exact absurd hanchor hne

/-! ### Writing paths and reading them again -/

theorem toList_text (path : Path) : path.text.toList
    = colons.intercalate ((path.anchor.words ++ path.segments).map String.toList) :=
  toList_joinColons _

theorem mem_keywords_of_mem_words {anchor : Anchor} (h : anchor ≠ .absolute) {word : Name}
    (hword : word ∈ anchor.words) : word ∈ keywords := by
  cases anchor with
  | absolute => exact absurd rfl h
  | plain => cases hword
  | crate =>
    rw [List.mem_singleton.1 hword]
    decide
  | super levels =>
    rcases Nat.eq_zero_or_pos levels with rfl | hpos
    · rw [List.mem_singleton.1 hword]
      decide
    · rw [Anchor.words_super_of_pos hpos] at hword
      rw [List.eq_of_mem_replicate hword]
      decide

theorem isPart_keyword : ∀ word ∈ keywords, IsPart word := by
  have hparts : ∀ word ∈ keywords, word.toList ≠ [] ∧ trim word.toList = word.toList ∧
      ¬ colons <:+: word.toList := by decide
  exact fun word hword => ⟨(hparts word hword).1, (hparts word hword).2.1, (hparts word hword).2.2⟩

theorem getLast?_keyword_ne : ∀ word ∈ keywords, word.toList.getLast? ≠ some ':' := by decide

namespace Path

/-- The words of an anchor do not end in a colon, so that only the names count. -/
theorem Clear.parts {path : Path} (hclear : path.Clear) (hanchor : path.anchor ≠ .absolute) :
    ∀ part ∈ (path.anchor.words ++ path.segments).dropLast,
      part.toList.getLast? ≠ some ':' := by
  intro part hpart
  rw [List.dropLast_append] at hpart
  have hwords : part ∈ path.anchor.words ∨ part ∈ path.segments.dropLast := by
    split at hpart
    · exact Or.inl (List.mem_of_mem_dropLast hpart)
    · exact List.mem_append.1 hpart
  rcases hwords with hword | hname
  · exact getLast?_keyword_ne part (mem_keywords_of_mem_words hanchor hword)
  · exact hclear part hname

variable {path : Path} (h : path.Readable)

include h

theorem Readable.isPart (hanchor : path.anchor ≠ .absolute) :
    ∀ part ∈ path.anchor.words ++ path.segments, IsPart part := by
  intro part hpart
  rcases List.mem_append.1 hpart with hpart | hpart
  · exact isPart_keyword part (mem_keywords_of_mem_words hanchor hpart)
  · exact (h.names part hpart).toIsPart

theorem Readable.parts_ne_nil (hanchor : path.anchor ≠ .absolute) :
    path.anchor.words ++ path.segments ≠ [] := by
  intro hnil
  obtain ⟨hwords, hsegments⟩ := List.append_eq_nil_iff.1 hnil
  cases hkind : path.anchor with
  | plain => exact h.ne_nil (Or.inl hkind) hsegments
  | absolute => exact hanchor hkind
  | crate =>
    rw [hkind] at hwords
    cases hwords
  | super levels =>
    rw [hkind] at hwords
    cases levels <;> cases hwords

theorem Readable.parse?_text_absolute (hanchor : path.anchor = .absolute) :
    parse? path.text = some path ↔ path.Clear := by
  have hne := h.ne_nil (Or.inr hanchor)
  have hparts : ∀ name ∈ path.segments, IsPart name :=
    fun name hname => (h.names name hname).toIsPart
  have htext : trim path.text.toList
      = colons ++ colons.intercalate (path.segments.map String.toList) := by
    have hwritten : path.text.toList
        = colons ++ colons.intercalate (path.segments.map String.toList) := by
      rw [toList_text, hanchor]
      exact intercalate_cons (by simpa using hne)
    rw [hwritten, trim_colons_append hparts]
  rw [parse?_eq_some_iff, htext]
  constructor
  · rintro ⟨-, ⟨rest, heq, -, hread⟩ | ⟨hnot, -⟩⟩
    · obtain rfl := List.append_cancel_left heq
      exact (room_le_of_parts? hne hread).2 (Nat.le_refl _)
    · exact absurd (List.prefix_append colons _) hnot
  · intro hclear
    exact ⟨fun name hname => (h.names name hname).not_keyword,
      Or.inl ⟨_, rfl, hanchor, parts?_intercalate hne hparts hclear⟩⟩

theorem Readable.parse?_text_relative (hanchor : path.anchor ≠ .absolute) :
    parse? path.text = some path ↔ path.Clear := by
  have hne := h.parts_ne_nil hanchor
  have hparts := h.isPart hanchor
  have htext : trim path.text.toList
      = colons.intercalate ((path.anchor.words ++ path.segments).map String.toList) := by
    rw [toList_text, trim_intercalate hparts]
  rw [parse?_eq_some_iff, htext]
  constructor
  · rintro ⟨-, ⟨rest, -, habsolute, -⟩ | ⟨-, parts, hread, hanchored⟩⟩
    · exact absurd habsolute hanchor
    · obtain ⟨hle, hclear⟩ := room_le_of_parts? hne hread
      rcases words_append_of_read? hanchored with rfl | hlt
      · intro name hname
        refine hclear (Nat.le_refl _) name ?_
        rw [List.dropLast_append_of_ne_nil (List.ne_nil_of_mem (List.mem_of_mem_dropLast hname))]
        exact List.mem_append_right _ hname
      · omega
  · intro hclear
    have hclear' := hclear.parts hanchor
    have hkey : ∀ name ∈ path.segments, name ∉ keywords :=
      fun name hname => (h.names name hname).not_keyword
    exact ⟨hkey, Or.inr ⟨not_colons_prefix_intercalate hne hparts hclear', _,
      parts?_intercalate hne hparts hclear', read?_words_append hanchor h.climb_le hkey⟩⟩

/-- A path that can be read from some text is read again from its own text if and only if no name
but the last ends in a colon. -/
theorem Readable.parse?_text_iff : parse? path.text = some path ↔ path.Clear := by
  by_cases hanchor : path.anchor = .absolute
  · exact h.parse?_text_absolute hanchor
  · exact h.parse?_text_relative hanchor

end Path

/-- **The text of a path is read as that path.**  Whatever text a path was read from, its own text
is read as the same path if and only if none of its names but the last ends in a colon; and the
texts of two such paths are the same only if the paths are. -/
theorem path_texts_are_read_back {text : String} {path : Path} (h : Path.parse? text = some path) :
    (Path.parse? path.text = some path ↔ path.Clear) ∧
    (∀ levels, path.anchor = .super levels → levels ≤ maxClimb) ∧
    ∀ text' path', Path.parse? text' = some path' → path.Clear → path'.Clear →
      path.text = path'.text → path = path' := by
  have hreadable := readable_of_parse? h
  refine ⟨hreadable.parse?_text_iff, hreadable.climb_le, ?_⟩
  intro text' path' h' hclear hclear' htext
  have hread := hreadable.parse?_text_iff.2 hclear
  rw [htext, (readable_of_parse? h').parse?_text_iff.2 hclear'] at hread
  exact (Option.some.inj hread).symm

/-- A name that ends in a colon runs into the separator after it. -/
theorem path_texts_can_run_together :
    Path.parse? "a: ::b" = some ⟨.plain, ["a:", "b"]⟩ ∧
    Path.parse? (Path.text ⟨.plain, ["a:", "b"]⟩) = some ⟨.plain, ["a", ":b"]⟩ ∧
    ¬ ∀ text path, Path.parse? text = some path → Path.parse? path.text = some path := by
  have hread : Path.parse? "a: ::b" = some ⟨.plain, ["a:", "b"]⟩ := by decide
  have hagain : Path.parse? (Path.text ⟨.plain, ["a:", "b"]⟩) = some ⟨.plain, ["a", ":b"]⟩ := by
    decide
  refine ⟨hread, hagain, fun h => ?_⟩
  have hsame := h _ _ hread
  rw [hagain] at hsame
  exact absurd hsame (by decide)

/-- A path with a keyword too many, blanks around its parts and colons in its names. -/
theorem path_texts_are_read_back_spaced :
    Path.parse? " self :: super:: a :b::c: " = some ⟨.super 1, ["a :b", "c:"]⟩ ∧
    Path.text ⟨.super 1, ["a :b", "c:"]⟩ = "super::a :b::c:" ∧
    Path.parse? "super::a :b::c:" = some ⟨.super 1, ["a :b", "c:"]⟩ := by
  have hread : Path.parse? " self :: super:: a :b::c: " = some ⟨.super 1, ["a :b", "c:"]⟩ := by
    decide
  have hclear : Path.Clear ⟨.super 1, ["a :b", "c:"]⟩ := by
    unfold Path.Clear
    decide
  exact ⟨hread, by decide, (path_texts_are_read_back hread).1.2 hclear⟩

end CrateScope
