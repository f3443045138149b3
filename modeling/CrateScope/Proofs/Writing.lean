import CrateScope.Description.Encode
import Mathlib

/-!
# What is written can be read back

A visibility is read in two ways: its text without any blank is looked up among a few words, and if
it is none of them, the text as it stands is taken apart as `pub(in path)`.  No text without blanks
that begins `pub(i` is one of the words, so that the two never claim the same text.

What is read from a description is read again from the description that is written of it, in any
dialect.  In a record each field is read by itself; the fields that belong to the kind of an item
stand among the others, under names of their own.

## Main definitions

* `WrittenVisibility.RestrictedForm` — the form of `pub(in path)`.
* `KindWord.read?` — reads what belongs to a kind of item.

## Main results

* `WrittenVisibility.parse?_eq_pubIn_iff` — which texts are read as a visibility within a path.
* `WrittenVisibility.parse?_text_of_parse?` — visibilities are read from their texts.
* `Item.ofValue?_toValue`, `ModuleBody.ofValue?_toValue`, `CrateSource.ofValue?_toValue` — items,
  the contents of modules and crates are read from their descriptions.
* `visibilities_are_read_back` — all of this for visibilities.
-/

namespace CrateScope

open Description

namespace WrittenVisibility

/-- The form of `pub(in path)`: between blanks the word `pub`, a bracket, the word `in`, at least
one blank, any text at all, and a closing bracket.  Blanks may stand on both sides of the first
bracket. -/
def RestrictedForm (text path : List Char) : Prop :=
  ∃ before gap inner space after : List Char,
    before.all isBlank = true ∧ gap.all isBlank = true ∧ inner.all isBlank = true ∧
      space.all isBlank = true ∧ space ≠ [] ∧ after.all isBlank = true ∧
      text = before ++ ['p', 'u', 'b'] ++ gap ++ ['('] ++ inner ++ ['i', 'n'] ++ space ++ path ++
        [')'] ++ after

theorem after?_eq_some_iff {word text rest : List Char} :
    after? word text = some rest ↔ text = word ++ rest := by
  unfold after?
  split
  · next hbegins =>
    obtain ⟨rest', rfl⟩ := List.isPrefixOf_iff_prefix.1 hbegins
    rw [List.drop_left, Option.some.injEq, List.append_cancel_left_eq]
  · next hnot =>
    refine iff_of_false (by simp) ?_
    rintro rfl
    exact hnot (List.isPrefixOf_iff_prefix.2 (List.prefix_append word rest))

theorem beforeClosing?_eq_some_iff {text inside : List Char} :
    beforeClosing? text = some inside ↔ text = inside ++ [')'] := by
  unfold beforeClosing?
  split
  · next hlast =>
    obtain ⟨inside', rfl⟩ := List.getLast?_eq_some_iff.1 hlast
    rw [List.dropLast_concat, Option.some.injEq, List.append_cancel_right_eq]
  · next hnot =>
    refine iff_of_false (by simp) ?_
    rintro rfl
    exact hnot List.getLast?_concat

theorem restrictedForm_of_restrictedPath? {text : List Char} {path : String}
    (h : restrictedPath? text = some path) :
    ∃ q, RestrictedForm text q ∧ path.toList = withoutBlanks q ∧ path ≠ "" := by
  unfold restrictedPath? at h
  simp only [Option.bind_eq_bind, Option.bind_eq_some_iff, after?_eq_some_iff,
    beforeClosing?_eq_some_iff] at h
  obtain ⟨afterPub, hpub, opened, hopened, inside, rfl, afterIn, hin, h⟩ := h
  split at h
  · next hpath =>
    obtain rfl := Option.some.inj h
    simp only [Bool.and_eq_true, Option.any_eq_true, Bool.not_eq_true', List.isEmpty_eq_false_iff]
      at hpath
    obtain ⟨⟨blank, hblank, hisBlank⟩, hne⟩ := hpath
    obtain ⟨rest, rfl⟩ := List.head?_eq_some_iff.1 hblank
    obtain ⟨before, after, hbefore, hafter, htext⟩ := exists_trim text
    obtain ⟨gap, hgap, hafterPub⟩ := exists_trimStart afterPub
    obtain ⟨inner, behind, hinner, hbehind, hinside⟩ := exists_trim inside
    -- The blanks that were cut off behind the path count as part of it.
    refine ⟨rest ++ behind, ⟨before, gap, inner, [blank], after, hbefore, hgap, hinner, ?_, ?_,
      hafter, ?_⟩, ?_, ?_⟩
    · simpa using hisBlank
    · simp
    · rw [htext, hpub, hafterPub, hopened, hinside, hin]
      simp
    · rw [String.toList_ofList, withoutBlanks_append, withoutBlanks_eq_nil_iff.2 hbehind,
        List.append_nil]
      simp [withoutBlanks, hisBlank]
    · intro hempty
      apply hne
      rw [← String.toList_ofList (l := withoutBlanks _), hempty]
      rfl
  · cases h

/-- The blanks around a mark that ends in a bracket are cut off. -/
theorem trim_mark {before after : List Char} (hbefore : before.all isBlank = true)
    (hafter : after.all isBlank = true) (middle : List Char) :
    trim (before ++ (['p', 'u', 'b'] ++ middle ++ [')']) ++ after) =
      ['p', 'u', 'b'] ++ middle ++ [')'] := by
  apply trim_between hbefore hafter
  · intro c hc
    cases hc
    decide
  · intro c hc
    rw [List.getLast?_concat] at hc
    cases hc
    decide

/-- So are the blanks around what stands in the brackets, and those that follow the path. -/
theorem trim_inside {inner q : List Char} (hinner : inner.all isBlank = true)
    (hq : withoutBlanks q ≠ []) (space : List Char) :
    ∃ ahead, ahead.all isBlank = true ∧
      trim (inner ++ ['i', 'n'] ++ space ++ q) = ['i', 'n'] ++ (space ++ ahead ++ trim q) := by
  obtain ⟨ahead, behind, hahead, hbehind, hpath⟩ := exists_trim q
  have htrim : trim q ≠ [] := by
    intro hnil
    rw [← withoutBlanks_trim, hnil] at hq
    exact hq rfl
  have hinside : inner ++ ['i', 'n'] ++ space ++ q =
      inner ++ (['i', 'n'] ++ (space ++ ahead ++ trim q)) ++ behind := by
    conv_lhs => rw [hpath]
    simp only [List.append_assoc]
  refine ⟨ahead, hahead, ?_⟩
  rw [hinside]
  apply trim_between hinner hbehind
  · intro c hc
    cases hc
    decide
  · intro c hc
    rw [← List.append_assoc, List.getLast?_append_of_ne_nil _ htrim] at hc
    exact not_isBlank_of_mem_getLast?_trim hc

theorem restrictedPath?_of_restrictedForm {text q : List Char} (h : RestrictedForm text q)
    (hq : withoutBlanks q ≠ []) :
    restrictedPath? text = some (String.ofList (withoutBlanks q)) := by
  obtain ⟨before, gap, inner, space, after, hbefore, hgap, hinner, hspace, hne, hafter, rfl⟩ := h
  obtain ⟨ahead, hahead, hin⟩ := trim_inside hinner hq space
  have hpub : trim (before ++ ['p', 'u', 'b'] ++ gap ++ ['('] ++ inner ++ ['i', 'n'] ++ space ++
      q ++ [')'] ++ after) =
        ['p', 'u', 'b'] ++ (gap ++ (['('] ++ (inner ++ ['i', 'n'] ++ space ++ q ++ [')']))) := by
    have hmark := trim_mark hbefore hafter
      (gap ++ (['('] ++ (inner ++ ['i', 'n'] ++ space ++ q)))
    simp only [List.append_assoc] at hmark ⊢
    exact hmark
  have hopened : trimStart (gap ++ (['('] ++ (inner ++ ['i', 'n'] ++ space ++ q ++ [')']))) =
      ['('] ++ (inner ++ ['i', 'n'] ++ space ++ q ++ [')']) := by
    unfold trimStart
    rw [List.dropWhile_append_of_pos (by simpa using hgap)]
    rfl
  have hblank : (space ++ ahead ++ trim q).head?.any isBlank = true := by
    obtain ⟨blank, rest, rfl⟩ := List.exists_cons_of_ne_nil hne
    simp only [List.all_cons, Bool.and_eq_true] at hspace
    simpa using hspace.1
  have hleft : withoutBlanks (space ++ ahead ++ trim q) = withoutBlanks q := by
    simp [withoutBlanks_eq_nil_iff.2 hspace, withoutBlanks_eq_nil_iff.2 hahead]
  unfold restrictedPath?
  rw [hpub]
  simp only [Option.bind_eq_bind, after?_eq_some_iff.2 rfl, Option.bind_some, hopened,
    beforeClosing?_eq_some_iff.2 rfl, hin, hblank, hleft]
  simp [hq]

/-- Without its blanks, a text of this form begins as no other visibility does. -/
theorem RestrictedForm.withoutBlanks_eq {text q : List Char} (h : RestrictedForm text q) :
    withoutBlanks text = ['p', 'u', 'b', '(', 'i', 'n'] ++ withoutBlanks q ++ [')'] := by
  obtain ⟨before, gap, inner, space, after, hbefore, hgap, hinner, hspace, -, hafter, rfl⟩ := h
  have hwords : withoutBlanks ['p', 'u', 'b'] = ['p', 'u', 'b'] ∧ withoutBlanks ['('] = ['('] ∧
      withoutBlanks ['i', 'n'] = ['i', 'n'] ∧ withoutBlanks [')'] = [')'] := by decide
  simp only [withoutBlanks_append, withoutBlanks_eq_nil_iff.2 hbefore,
    withoutBlanks_eq_nil_iff.2 hgap, withoutBlanks_eq_nil_iff.2 hinner,
    withoutBlanks_eq_nil_iff.2 hspace, withoutBlanks_eq_nil_iff.2 hafter, hwords]
  simp

theorem ne_pubIn_of_lookup {word path : String} :
    keywordForms.lookup word ≠ some (pubIn path) := by
  intro h
  obtain ⟨before, after, hforms, -⟩ := List.lookup_eq_some_iff.1 h
  have hmem : (word, pubIn path) ∈ keywordForms := by simp [hforms]
  simp [keywordForms] at hmem

/-- **The grammar of `pub(in path)`.** -/
theorem parse?_eq_pubIn_iff {mark path : String} : parse? mark = some (pubIn path) ↔
    ∃ q, RestrictedForm mark.toList q ∧ path.toList = withoutBlanks q ∧ path ≠ "" := by
  constructor
  · intro h
    unfold parse? at h
    split at h
    · next hlookup =>
      obtain rfl := Option.some.inj h
      exact absurd hlookup ne_pubIn_of_lookup
    · obtain ⟨path', hpath, heq⟩ := Option.map_eq_some_iff.1 h
      obtain rfl := pubIn.inj heq
      exact restrictedForm_of_restrictedPath? hpath
  · rintro ⟨q, hform, hpath, hne⟩
    have hq : withoutBlanks q ≠ [] := by
      rw [← hpath]
      simpa using hne
    have hrestricted := restrictedPath?_of_restrictedForm hform hq
    rw [← hpath, String.ofList_toList] at hrestricted
    -- No word for another visibility begins like this one.
    have hlookup : keywordForms.lookup (String.ofList (withoutBlanks mark.toList)) = none := by
      have hwords : ∀ p ∈ keywordForms, ¬ ['p', 'u', 'b', '(', 'i'] <+: p.1.toList := by decide
      rw [List.lookup_eq_none_iff]
      intro p hp
      rw [bne_iff_ne]
      intro heq
      apply hwords p hp
      rw [← heq, String.toList_ofList, hform.withoutBlanks_eq]
      exact ⟨_, rfl⟩
    unfold parse?
    rw [hlookup, hrestricted]
    rfl

/-- Whatever was read as a visibility, its text is read as the same one. -/
theorem parse?_text_of_parse? {mark : String} {visibility : WrittenVisibility}
    (h : parse? mark = some visibility) : parse? visibility.text = some visibility := by
  cases visibility with
  | unmarked => decide
  | pub => decide
  | pubCrate => decide
  | pubSuper => decide
  | pubSelf => decide
  | pubIn path =>
    obtain ⟨q, -, hpath, hne⟩ := parse?_eq_pubIn_iff.1 h
    refine parse?_eq_pubIn_iff.2 ⟨path.toList, ⟨[], [], [], [' '], [], ?_⟩, ?_, hne⟩
    · refine ⟨rfl, rfl, rfl, by decide, by simp, rfl, ?_⟩
      simp [text]
    · rw [hpath]
      simp [withoutBlanks]

end WrittenVisibility

/-! ### Descriptions -/

namespace Description

/-- Elements that are read from descriptions are read from their own descriptions. -/
theorem mapM_map_of_mapM {α : Type} {decode decode' : Value → Option α} {encode : α → Value}
    {elements : List Value} {as : List α} (h : elements.mapM decode = some as)
    (hback : ∀ e ∈ elements, ∀ a, decode e = some a → decode' (encode a) = some a) :
    (as.map encode).mapM decode' = some as := by
  induction elements generalizing as with
  | nil =>
    obtain rfl := Option.some.inj h
    rfl
  | cons e elements ih =>
    rw [List.mapM_cons] at h
    simp only [Option.bind_eq_bind, Option.bind_eq_some_iff] at h
    obtain ⟨a, ha, rest, hrest, h⟩ := h
    obtain rfl := Option.some.inj h
    rw [List.map_cons, List.mapM_cons, hback e List.mem_cons_self a ha,
      ih hrest fun e he => hback e (List.mem_cons_of_mem _ he)]
    rfl

/-- A list that may be missing is read from the descriptions of its elements. -/
theorem listOf?_map_of_read {α : Type} {decode decode' : Value → Option α} {encode : α → Value}
    {r : Record} {name : String} {position : Nat} {as : List α}
    (h : r.read name position (some []) (listOf? decode) = some as)
    (hback : ∀ elements, r.get? name position = some (.list elements) → ∀ e ∈ elements, ∀ a,
      decode e = some a → decode' (encode a) = some a) :
    listOf? decode' (.list (as.map encode)) = some as := by
  unfold Record.read at h
  split at h
  · obtain rfl := Option.some.inj h
    rfl
  · next value hvalue =>
    unfold listOf? Value.list? at h
    split at h
    · next elements => exact mapM_map_of_mapM h (hback elements hvalue)
    · cases h

theorem optionalText?_optionalText (text : Option String) :
    (optionalText text).optionalText? = some text := by
  cases text <;> rfl

end Description

theorem Fields.choice?_word (d : Dialect) (fields : Fields) :
    choice? d Fields.words (.text fields.word) = some fields := by
  cases fields <;> rfl

theorem Variant.ofValue?_toValue (d : Dialect) (variant : Variant) :
    ofValue? d variant.toValue = some variant := by
  obtain ⟨name, fields⟩ := variant
  cases name <;> cases fields <;> rfl

namespace WrittenVisibility

/-- A visibility that may be missing is read from its own description. -/
theorem ofValue?_toValue_of_read {r : Record} {name : String} {position : Nat}
    {visibility : WrittenVisibility}
    (h : r.read name position (some default) ofValue? = some visibility) :
    ofValue? visibility.toValue = some visibility := by
  unfold Record.read at h
  split at h
  · obtain rfl := Option.some.inj h
    decide
  · obtain ⟨mark, -, hmark⟩ := Option.bind_eq_some_iff.1 h
    exact parse?_text_of_parse? hmark

end WrittenVisibility

theorem UseLeaf.ofValue?_toValue {d : Dialect} {value : Value} {leaf : UseLeaf}
    (h : ofValue? d value = some leaf) (d' : Dialect) : ofValue? d' leaf.toValue = some leaf := by
  unfold ofValue? at h
  simp only [Option.bind_eq_bind, Option.bind_eq_some_iff] at h
  obtain ⟨r, -, path, -, other, -, glob, -, visibility, hvisibility, h⟩ := h
  obtain rfl := Option.some.inj h
  have hback := WrittenVisibility.ofValue?_toValue_of_read hvisibility
  unfold ofValue? toValue
  simp [record?, Record.read, Record.get?, List.lookup_cons, Value.text?, Value.bool?,
    optionalText?_optionalText, hback]

theorem ExternCrate.ofValue?_toValue {d : Dialect} {value : Value} {declaration : ExternCrate}
    (h : ofValue? d value = some declaration) (d' : Dialect) :
    ofValue? d' declaration.toValue = some declaration := by
  unfold ofValue? at h
  simp only [Option.bind_eq_bind, Option.bind_eq_some_iff] at h
  obtain ⟨r, -, name, -, other, -, macroUse, -, visibility, hvisibility, h⟩ := h
  obtain rfl := Option.some.inj h
  have hback := WrittenVisibility.ofValue?_toValue_of_read hvisibility
  unfold ofValue? toValue
  simp [record?, Record.read, Record.get?, List.lookup_cons, Value.bool?,
    optionalText?_optionalText, hback]

/-! ### Item trees -/

theorem Item.toValues_eq (items : List Item) : Item.toValues items = items.map Item.toValue := by
  induction items with
  | nil => rfl
  | cons item items ih => rw [Item.toValues, ih, List.map_cons]

/-- Some fields in front of those of a body are not taken for one of them. -/
theorem ModuleBody.ofValue?_append_fields {d d' : Dialect} {value : Value} {body : ModuleBody}
    (h : ofValue? d value = some body)
    (hitems : ∀ r elements, record? d 3 value = some r → r.get? "items" 0 = some (.list elements) →
      ∀ e ∈ elements, ∀ item, Item.ofValue? d e = some item →
        Item.ofValue? d' item.toValue = some item)
    {before : List (String × Value)}
    (hbefore : ∀ name ∈ ["items", "uses", "extern_crates"], before.lookup name = none) :
    ofValue? d' (.table (before ++ body.fields)) = some body := by
  unfold ofValue? at h
  simp only [Option.bind_eq_bind, Option.bind_eq_some_iff] at h
  obtain ⟨r, hr, items, hi, uses, hu, externCrates, he, h⟩ := h
  obtain rfl := Option.some.inj h
  have hitems' := listOf?_map_of_read hi (hitems r · hr)
  have huses' := listOf?_map_of_read hu fun _ _ _ _ leaf hleaf =>
    UseLeaf.ofValue?_toValue hleaf d'
  have hcrates' := listOf?_map_of_read he fun _ _ _ _ declaration hdeclaration =>
    ExternCrate.ofValue?_toValue hdeclaration d'
  simp only [List.forall_mem_cons] at hbefore
  obtain ⟨hbi, hbu, hbe, -⟩ := hbefore
  unfold ofValue?
  simp [record?, Record.read, Record.get?, List.lookup_append, List.lookup_cons, fields, hbi, hbu,
    hbe, Item.toValues_eq, hitems', huses', hcrates']

/-- Reads what belongs to a kind of item. -/
def KindWord.read? (d : Dialect) (fields : List (String × Value)) : KindWord → Option ItemKind
  | .module => (ModuleBody.ofValue? d (.table fields)).map .module
  | .enum =>
    ((Record.named fields).read "variants" 0 (some []) (listOf? (Variant.ofValue? d))).map .enum
  | .struct =>
    ((Record.named fields).read "shape" 0 (some default) (choice? d Fields.words)).map .struct
  | .macroRules =>
    ((Record.named fields).read "macro_export" 0 (some false) Value.bool?).map .macroRules
  | .union => some .union
  | .trait => some .trait
  | .typeAlias => some .typeAlias
  | .function => some .function
  | .const => some .const
  | .static => some .static

/-- An item is read in two parts: what every item has, and what belongs to its kind. -/
theorem Item.ofValue?_table (d : Dialect) (fields : List (String × Value)) :
    Item.ofValue? d (.table fields) = do
      let name ← (Record.named fields).read "name" 0 (some none) Value.optionalText?
      let visibility ←
        (Record.named fields).read "visibility" 1 (some default) WrittenVisibility.ofValue?
      let word ← (fields.lookup "kind").bind (KindWord.ofValue? d)
      let kind ← word.read? d.insideItem fields
      return { name, visibility, kind } := by
  rw [Item.ofValue?]
  simp only
  congr 1
  funext name
  congr 1
  funext visibility
  congr 1
  funext word
  cases word with
  | module =>
    simp only [KindWord.read?, ModuleBody.ofValue?, record?, Option.bind_eq_bind, Option.bind_some,
      Option.bind_map, Option.bind_assoc]
    split
    · next hnone =>
      simp only [Record.read, Record.get?, hnone, Option.bind_some]
      rfl
    · next elements hlist =>
      have hmap : elements.attach.mapM (fun e => ofValue? d.insideItem e.1) =
          elements.mapM (ofValue? d.insideItem) := by
        rw [List.mapM_subtype fun _ _ => rfl, List.unattach_attach]
      simp only [Record.read, Record.get?, hlist, listOf?, Value.list?, Option.bind_some, hmap]
      rfl
    · next other hother hsome =>
      have hrefused : listOf? (ofValue? d.insideItem) other = none := by
        cases other with
        | list elements => exact absurd rfl (hother elements)
        | _ => rfl
      simp only [Record.read, Record.get?, hsome, hrefused, Option.bind_none]
  | enum =>
    simp only [KindWord.read?, Option.bind_eq_bind, Option.bind_map]
    rfl
  | struct =>
    simp only [KindWord.read?, Option.bind_eq_bind, Option.bind_map]
    rfl
  | macroRules =>
    simp only [KindWord.read?, Option.bind_eq_bind, Option.bind_map]
    rfl
  | union => rfl
  | trait => rfl
  | typeAlias => rfl
  | function => rfl
  | const => rfl
  | static => rfl

/-- What was read of a kind is read again from its own fields, with others in front of them that are
not taken for one of them, and the word of the kind is read as that kind. -/
theorem KindWord.read?_append_fields {d d' : Dialect} {fields before : List (String × Value)}
    {word : KindWord} {kind : ItemKind} (h : word.read? d fields = some kind)
    (hitems : ∀ elements, fields.lookup "items" = some (.list elements) → ∀ e ∈ elements, ∀ item,
      Item.ofValue? d e = some item → Item.ofValue? d' item.toValue = some item)
    (hbefore : ∀ name ∈ ["items", "uses", "extern_crates", "variants", "shape", "macro_export"],
      before.lookup name = none) :
    KindWord.words.lookup kind.word = some word ∧
      word.read? d' (before ++ kind.fields) = some kind := by
  cases word with
  | module =>
    obtain ⟨body, hbody, rfl⟩ := Option.map_eq_some_iff.1 h
    refine ⟨rfl, Option.map_eq_some_iff.2 ⟨body, ?_, rfl⟩⟩
    refine ModuleBody.ofValue?_append_fields hbody ?_ fun name hname => hbefore name ?_
    · rintro r elements hr hlookup
      cases hr
      exact hitems elements hlookup
    · simp only [List.mem_cons] at hname ⊢
      tauto
  | enum =>
    obtain ⟨variants, hvariants, rfl⟩ := Option.map_eq_some_iff.1 h
    have hback := listOf?_map_of_read hvariants fun _ _ _ _ variant _ =>
      Variant.ofValue?_toValue d' variant
    refine ⟨rfl, ?_⟩
    simp [read?, Record.read, Record.get?, ItemKind.fields, List.lookup_append, hbefore, hback]
  | struct =>
    obtain ⟨shape, -, rfl⟩ := Option.map_eq_some_iff.1 h
    refine ⟨rfl, ?_⟩
    simp [read?, Record.read, Record.get?, ItemKind.fields, List.lookup_append, hbefore,
      Fields.choice?_word]
  | macroRules =>
    obtain ⟨exported, -, rfl⟩ := Option.map_eq_some_iff.1 h
    refine ⟨rfl, ?_⟩
    simp [read?, Record.read, Record.get?, ItemKind.fields, List.lookup_append, hbefore,
      Value.bool?]
  | union | trait | typeAlias | function | const | static =>
    cases h
    exact ⟨rfl, rfl⟩

/-- The fields that every item has. -/
def Item.commonFields (item : Item) : List (String × Value) :=
  [("name", optionalText item.name), ("visibility", item.visibility.toValue),
    ("kind", .text item.kind.word)]

theorem Item.toValue_eq (item : Item) :
    item.toValue = .table (item.commonFields ++ item.kind.fields) := by
  obtain ⟨name, visibility, kind⟩ := item
  rw [toValue]
  rfl

/-- Items are described by tables. -/
theorem Item.exists_table {d : Dialect} {value : Value} {item : Item}
    (h : ofValue? d value = some item) : ∃ fields, value = .table fields := by
  cases value with
  | table fields => exact ⟨fields, rfl⟩
  | _ =>
    rw [ofValue?] at h
    · cases h
    · exact fun _ => Value.noConfusion

/-- An item that was read from some description is read from its own. -/
theorem Item.ofValue?_toValue {d : Dialect} {value : Value} {item : Item}
    (h : ofValue? d value = some item) (d' : Dialect) : ofValue? d' item.toValue = some item := by
  induction hsize : sizeOf value using Nat.strongRecOn generalizing value item d d' with
  | ind size ih =>
    obtain ⟨fields, rfl⟩ := exists_table h
    rw [ofValue?_table] at h
    simp only [Option.bind_eq_bind, Option.bind_eq_some_iff] at h
    obtain ⟨name, -, visibility, hvisibility, word, -, kind, hkind, h⟩ := h
    obtain rfl := Option.some.inj h
    -- The items inside of this one have smaller descriptions.
    have hitems : ∀ elements, fields.lookup "items" = some (.list elements) → ∀ e ∈ elements,
        ∀ item, ofValue? d.insideItem e = some item →
          ofValue? d'.insideItem item.toValue = some item := by
      intro elements hlookup e he item hitem
      apply ih _ _ hitem d'.insideItem rfl
      rw [← hsize]
      exact sizeOf_element_lt hlookup he
    have hcommon : ∀ name' ∈
        ["items", "uses", "extern_crates", "variants", "shape", "macro_export"],
        (commonFields ⟨name, visibility, kind⟩).lookup name' = none := by
      simp [commonFields, List.lookup_cons]
    obtain ⟨hword, hkind'⟩ := KindWord.read?_append_fields hkind hitems hcommon
    have hvisibility' := WrittenVisibility.ofValue?_toValue_of_read hvisibility
    have hreads : (commonFields ⟨name, visibility, kind⟩).lookup "name" = some (optionalText name) ∧
        (commonFields ⟨name, visibility, kind⟩).lookup "visibility" = some visibility.toValue ∧
        (commonFields ⟨name, visibility, kind⟩).lookup "kind" = some (.text kind.word) := by
      simp [commonFields, List.lookup_cons]
    rw [toValue_eq, ofValue?_table]
    simp [Record.read, Record.get?, List.lookup_append, hreads, optionalText?_optionalText,
      hvisibility', KindWord.ofValue?, hword, hkind']

/-- The contents of a module that were read from some description are read from their own. -/
theorem ModuleBody.ofValue?_toValue {d : Dialect} {value : Value} {body : ModuleBody}
    (h : ofValue? d value = some body) (d' : Dialect) : ofValue? d' body.toValue = some body :=
  ofValue?_append_fields h (fun _ _ _ _ _ _ _ hitem => Item.ofValue?_toValue hitem d')
    fun _ _ => List.lookup_nil

/-! ### Crates -/

theorem Edition.ofOptionalValue?_optionalText (d : Dialect) (edition : Option Edition) :
    Edition.ofOptionalValue? d (optionalText (edition.map Edition.text)) = some edition := by
  rcases edition with _ | edition
  · rfl
  · cases edition <;> rfl

/-- A crate that was read from some description is read from its own. -/
theorem CrateSource.ofValue?_toValue {d : Dialect} {value : Value} {crate : CrateSource}
    (h : ofValue? d value = some crate) (d' : Dialect) :
    ofValue? d' crate.toValue = some crate := by
  unfold ofValue? at h
  simp only [Option.bind_eq_bind, Option.bind_eq_some_iff] at h
  obtain ⟨r, -, name, -, edition, -, root, hroot, dependencies, hdependencies, h⟩ := h
  obtain rfl := Option.some.inj h
  have hroot' : ModuleBody.ofValue? d' root.toValue = some root := by
    unfold Record.read at hroot
    split at hroot
    · obtain rfl := Option.some.inj hroot
      rfl
    · exact ModuleBody.ofValue?_toValue hroot d'
  have hdependencies' : listOf? Value.text? (.list (dependencies.map Value.text)) =
      some dependencies :=
    listOf?_map_of_read hdependencies fun _ _ _ _ _ _ => rfl
  unfold ofValue? toValue
  simp [record?, Record.read, Record.get?, List.lookup_cons, Value.text?,
    Edition.ofOptionalValue?_optionalText, hroot', hdependencies']

/-- **Visibilities are read back.**  A mark is read as the visibility within a path exactly if it
has the form of one, with blanks where they may stand, and the path is what stands in the brackets
without its blanks.  Whatever a mark was read as, its text is read as the same; and so what was read
from a description, with every visibility in it, is read again from what is written of it. -/
theorem visibilities_are_read_back :
    (∀ mark path, WrittenVisibility.parse? mark = some (.pubIn path) ↔
      ∃ q, WrittenVisibility.RestrictedForm mark.toList q ∧ path.toList = withoutBlanks q ∧
        path ≠ "") ∧
    (∀ mark visibility, WrittenVisibility.parse? mark = some visibility →
      WrittenVisibility.parse? visibility.text = some visibility) ∧
    ∀ (d d' : Dialect) (value : Value) (body : ModuleBody),
      ModuleBody.ofValue? d value = some body → ModuleBody.ofValue? d' body.toValue = some body :=
  ⟨fun _ _ => WrittenVisibility.parse?_eq_pubIn_iff,
    fun _ _ h => WrittenVisibility.parse?_text_of_parse? h,
    fun _ d' _ _ h => ModuleBody.ofValue?_toValue h d'⟩

/-- A module inside of which the visibility of a `use` has blanks and brackets in it. -/
def spacedDescription : Value :=
  .table [("items", .list [.table [("kind", .text "module"), ("name", .text "inner"),
    ("uses", .list [.table [("path", .text "a::b"),
      ("visibility", .text " pub ( in  super :: a( b) ) ")]])]])]

/-- A visibility with blanks wherever they may stand and brackets in its path. -/
theorem visibilities_are_read_back_spaced :
    WrittenVisibility.parse? " pub ( in  super :: a( b) ) " = some (.pubIn "super::a(b)") ∧
    WrittenVisibility.parse? "pub(in super::a(b))" = some (.pubIn "super::a(b)") ∧
    ∃ body, ModuleBody.ofValue? .json spacedDescription = some body ∧
      ModuleBody.ofValue? .toml body.toValue = some body := by
  obtain ⟨-, hmarks, hbodies⟩ := visibilities_are_read_back
  have hmark : WrittenVisibility.parse? " pub ( in  super :: a( b) ) " =
      some (.pubIn "super::a(b)") := by
    decide
  have hbody : (ModuleBody.ofValue? .json spacedDescription).isSome := by
    cbv
  obtain ⟨body, hbody⟩ := Option.isSome_iff_exists.1 hbody
  exact ⟨hmark, hmarks _ _ hmark, body, hbody, hbodies _ _ _ _ hbody⟩

end CrateScope
