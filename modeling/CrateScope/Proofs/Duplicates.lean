import CrateScope.Proofs.Arena
import CrateScope.Proofs.Traversal

/-!
# The first declaration counts, the others are told

The walk over an item tree comes to named declarations in a fixed order: items in the module in
which they stand, variants in their enum, exported macros in the root from wherever they stand.  A
name can be declared several times.  In each namespace the first declaration of a module counts, and
each other one is told in one diagnostic of its own; which of these it is has nothing to do with
what else the name stands for in other namespaces.  A module or an enum is left out with everything
inside only if it is such another one, since there is a module or an enum of that name already.

## Main definitions

* `Declaration` — a named declaration, and where the walk comes to it.
* `ModuleBody.declarations` — the declarations in the order in which the walk comes to them.
* `Declaration.slots`, `Declaration.binding` — what a declaration would bind, and to what.
* `repeated` — the members of a list that have come up before.
* `Outline.Declared` — what the walk has made of the declarations so far.

## Main results

* `Outline.Declared.add` — one more declaration fills the slots that are free, and the others are
  told.
* `Outline.addBody_declared` — the walk comes to the declarations in this order.
* `first_declaration_counts` — what the outline of a crate has bound and told in the end.
-/

namespace CrateScope

/-! ### Repetitions -/

section Repeated

variable {α : Type} [DecidableEq α]

/-- The members of a list that have come up before, in it or in `seen`. -/
def repeatedAfter (seen : List α) : List α → List α
  | [] => []
  | a :: as => if a ∈ seen then a :: repeatedAfter seen as else repeatedAfter (a :: seen) as

/-- The members of a list that have come up before. -/
def repeated (as : List α) : List α := repeatedAfter [] as

theorem repeatedAfter_nodup {as : List α} (h : as.Nodup) (seen : List α) :
    repeatedAfter seen as = as.filter (· ∈ seen) := by
  induction as generalizing seen with
  | nil => rfl
  | cons a as ih =>
    obtain ⟨hnew, hrest⟩ := List.nodup_cons.1 h
    rw [repeatedAfter, List.filter_cons]
    by_cases ha : a ∈ seen
    · rw [if_pos ha, if_pos (decide_eq_true ha), ih hrest]
    · rw [if_neg ha, if_neg (by simpa using ha), ih hrest]
      refine List.filter_congr fun b hb => ?_
      have hne : b ≠ a := fun heq => hnew (heq ▸ hb)
      simp [hne]

/-- Of what comes in addition, once each, those members have come up before that are there. -/
theorem repeatedAfter_append {as bs : List α} (h : bs.Nodup) (seen : List α) :
    repeatedAfter seen (as ++ bs)
      = repeatedAfter seen as ++ bs.filter (fun b => b ∈ seen ∨ b ∈ as) := by
  induction as generalizing seen with
  | nil => simp [repeatedAfter, repeatedAfter_nodup h]
  | cons a as ih =>
    rw [List.cons_append, repeatedAfter, repeatedAfter]
    split
    · next ha =>
      rw [ih, List.cons_append]
      congr 2
      refine List.filter_congr fun b _ => ?_
      grind
    · rw [ih]
      congr 1
      refine List.filter_congr fun b _ => ?_
      grind

theorem repeated_append {as bs : List α} (h : bs.Nodup) :
    repeated (as ++ bs) = repeated as ++ bs.filter (· ∈ as) := by
  simp [repeated, repeatedAfter_append h]

end Repeated

/-! ### Declarations -/

/-- A named declaration, and where the walk comes to it. -/
structure Declaration where
  /-- The path of the module in which the name is declared. -/
  home : List Name
  name : Name
  /-- The namespaces in which it is declared. -/
  spaces : NamespaceSet
  isModuleOrEnum : Bool := false
  /-- The path of the module in which the mark stands that tells who may name it. -/
  markedIn : List Name
  mark : WrittenVisibility
  /-- Whether what is inside is not visited. -/
  leftOut : Bool := false

/-- The declaration of a module or an enum. -/
def Declaration.opening (path : List Name) (name : Name) (mark : WrittenVisibility)
    (leftOut : Bool) : Declaration where
  home := path
  name := name
  spaces := { types := true }
  isModuleOrEnum := true
  markedIn := path
  mark := mark
  leftOut := leftOut

/-- The variants of an enum with a name.  They are as visible as the enum. -/
def Variant.declarations (path : List Name) (enum : Name) (mark : WrittenVisibility)
    (variants : List Variant) : List Declaration :=
  variants.filterMap fun variant => variant.name.map fun name =>
    { home := path ++ [enum], name, spaces := variant.fields.namespaces, markedIn := path, mark }

mutual

/-- The declarations to which the walk comes in a body of the module at a path, in that order. -/
def ModuleBody.declarations (path : List Name) : ModuleBody → List Declaration
  | ⟨items, _, _⟩ => Item.declarationsAll path [] items

/-- The declarations to which the walk comes in some items of the module at a path, where some names
are those of modules and enums already. -/
def Item.declarationsAll (path taken : List Name) : List Item → List Declaration
  | [] => []
  | item :: items =>
    item.declarations path taken ++ Item.declarationsAll path (item.opens?.toList ++ taken) items

/-- The declarations to which the walk comes in an item. -/
def Item.declarations (path taken : List Name) : Item → List Declaration
  | ⟨none, _, _⟩ => []
  | ⟨some name, mark, kind⟩ => kind.declarations path taken name mark

/-- The declarations to which the walk comes in an item with a name and a mark: the item itself, and
what is declared inside unless the name is taken. -/
def ItemKind.declarations (path taken : List Name) (name : Name) (mark : WrittenVisibility) :
    ItemKind → List Declaration
  | .module body =>
    .opening path name mark (name ∈ taken) ::
      if name ∈ taken then [] else body.declarations (path ++ [name])
  | .enum variants =>
    .opening path name mark (name ∈ taken) ::
      if name ∈ taken then [] else Variant.declarations path name mark variants
  | .macroRules true =>
    [{ home := [], name, spaces := { macros := true }, markedIn := [], mark := .pub }]
  | kind => [{ home := path, name, spaces := kind.namespaces, markedIn := path, mark }]

end

namespace Declaration

variable (map : CrateMap) (d : Declaration)

/-- The slots that a declaration is for. -/
def slots : List Slot :=
  (Namespace.all.filter d.spaces.has).map (⟨map.moduleAt d.home, d.name, ·⟩)

/-- What a declaration binds its slots to. -/
def binding : Binding where
  path := ⟨map.crate, d.home ++ [d.name]⟩
  visibility := map.judged (map.moduleAt d.markedIn) d.mark d.name
  isModuleOrEnum := d.isModuleOrEnum

theorem mem_slots {slot : Slot} : slot ∈ d.slots map ↔ slot.module = map.moduleAt d.home ∧
    slot.name = d.name ∧ d.spaces.has slot.space = true := by
  obtain ⟨m, name, space⟩ := slot
  simp only [slots, List.mem_map, List.mem_filter, Namespace.mem_all, true_and, Slot.mk.injEq]
  constructor
  · rintro ⟨ns, hns, rfl, rfl, rfl⟩
    exact ⟨rfl, rfl, hns⟩
  · rintro ⟨rfl, rfl, hns⟩
    exact ⟨space, hns, rfl, rfl, rfl⟩

theorem nodup_slots : (d.slots map).Nodup := by
  refine List.Nodup.map (fun ns ns' h => ?_) (List.Nodup.filter _ (by decide))
  cases h
  rfl

/-- A declaration is for a module that is found where its path says, as is the module in which it is
marked; and if it is that of a module or an enum, there is one of its name. -/
structure Placed : Prop where
  home : map.tree.descend? .root d.home = some (map.moduleAt d.home)
  markedIn : map.tree.descend? .root d.markedIn = some (map.moduleAt d.markedIn)
  child : d.isModuleOrEnum = true → (map.tree.child? (map.moduleAt d.home) d.name).isSome

/-- A declaration is the one of a module or an enum that is visited. -/
structure Opens (path : List Name) (name : Name) : Prop where
  home : d.home = path
  name : d.name = name
  types : d.spaces.types = true
  isModuleOrEnum : d.isModuleOrEnum = true
  visited : d.leftOut = false

end Declaration

/-- Whether a diagnostic tells that a name is declared once more. -/
def Diagnostic.isDuplicate : Diagnostic → Bool
  | duplicateDefinition .. => true
  | _ => false

/-- The diagnostic that tells that a slot is declared once more. -/
def CrateMap.duplicate (map : CrateMap) (slot : Slot) : Diagnostic :=
  .duplicateDefinition (map.displayModule slot.module) slot.name slot.space

namespace Outline

variable {o o' : Outline} {m : LocalId} {later : CrateMap}

/-! ### Declaring names -/

/-- The diagnostics that tell that a name is declared once more. -/
def duplicates (o : Outline) : List Diagnostic := o.map.diagnostics.filter Diagnostic.isDuplicate

/-- From `o` to `o'` no name is declared. -/
structure Quiet (o o' : Outline) : Prop where
  binding? : ∀ slot, o'.map.binding? slot = o.map.binding? slot
  duplicates : o'.duplicates = o.duplicates

/-- No name is declared with what is told or queued, and most diagnostics tell of no other one. -/
theorem Quiet.overlooks : OverlooksImports Diagnostic.isDuplicate Quiet where
  refl _ := ⟨fun _ => rfl, rfl⟩
  trans h h' := ⟨fun slot => (h'.binding? slot).trans (h.binding? slot),
    h'.duplicates.trans h.duplicates⟩
  tell _ _ _ := ⟨fun _ => rfl, rfl⟩
  diagnose o diagnostic hother := by
    refine ⟨fun _ => rfl, ?_⟩
    change (o.map.diagnostics ++ [diagnostic]).filter _ = _
    rw [List.filter_append, List.filter_singleton, hother]
    exact List.append_nil _
  unresolved _ _ _ := rfl
  enqueue _ _ := ⟨fun _ => rfl, rfl⟩
  incomplete _ _ := rfl

/-- A new module has no name yet. -/
theorem quiet_addChild? (o : Outline) {parent child : LocalId} {name : Name} {kind : ModuleKind}
    {map : CrateMap} (h : o.map.addChild? parent name kind = some (map, child)) :
    Quiet o { o with map } :=
  ⟨CrateMap.binding?_addChild? h,
    congrArg (·.diagnostics.filter Diagnostic.isDuplicate) (CrateMap.eq_of_addChild? h).2⟩

theorem duplicates_refuse (o : Outline) (slot : Slot) :
    (o.refuse slot).duplicates = o.duplicates ++ [o.map.duplicate slot] := by
  change (o.map.diagnostics ++ [o.map.duplicate slot]).filter _ = _
  rw [List.filter_append, List.filter_singleton]
  rfl

/-- A slot that is declared stays what it was, if it was bound. -/
theorem binding?_declareSlot {slot : Slot} (h : slot.module.index < o.map.scopes.size) (b : Binding)
    (t : Slot) : (o.declareSlot slot b).map.binding? t
      = (o.map.binding? t).or (if t = slot then some b else none) := by
  unfold declareSlot
  split
  · next hfree =>
    rw [CrateMap.binding?_bind _ h]
    by_cases ht : t = slot
    · rw [ht, if_pos rfl, if_pos rfl, hfree]
      rfl
    · rw [if_neg ht, if_neg ht, Option.or_none]
  · next b' hbound =>
    change o.map.binding? t = _
    by_cases ht : t = slot
    · rw [ht, hbound]
      rfl
    · rw [if_neg ht, Option.or_none]

/-- A slot that was bound is told. -/
theorem duplicates_declareSlot (o : Outline) (slot : Slot) (b : Binding) :
    (o.declareSlot slot b).duplicates = o.duplicates ++
      if (o.map.binding? slot).isSome then [o.map.duplicate slot] else [] := by
  unfold declareSlot
  cases hbound : o.map.binding? slot with
  | none => exact (List.append_nil _).symm
  | some b' => exact duplicates_refuse o slot

/-- Declaring a slot adds no module and no scope. -/
theorem declareSlot_sized (o : Outline) (slot : Slot) (b : Binding) :
    (o.declareSlot slot b).map.tree = o.map.tree ∧
      (o.declareSlot slot b).map.scopes.size = o.map.scopes.size := by
  unfold declareSlot
  split
  · exact ⟨rfl, Array.size_modify⟩
  · exact ⟨rfl, rfl⟩

/-- Different slots that are declared one after the other do not get into each other's way. -/
theorem declareSlots_spec {slots : List Slot} (hnd : slots.Nodup)
    (h : ∀ slot ∈ slots, slot.module.index < o.map.scopes.size) (b : Binding) :
    (∀ t, (slots.foldl (fun o slot => o.declareSlot slot b) o).map.binding? t
      = (o.map.binding? t).or (if t ∈ slots then some b else none)) ∧
    (slots.foldl (fun o slot => o.declareSlot slot b) o).duplicates = o.duplicates ++
      (slots.filter fun slot => (o.map.binding? slot).isSome).map o.map.duplicate := by
  induction slots generalizing o with
  | nil => exact ⟨fun t => by simp, by simp⟩
  | cons slot slots ih =>
    obtain ⟨hnew, hnd⟩ := List.nodup_cons.1 hnd
    have hslot := h slot List.mem_cons_self
    obtain ⟨htree, hsize⟩ := declareSlot_sized o slot b
    have hduplicate : (o.declareSlot slot b).map.duplicate = o.map.duplicate := by
      funext t
      unfold CrateMap.duplicate CrateMap.displayModule
      rw [htree]
    obtain ⟨hbound, htold⟩ := ih (o := o.declareSlot slot b) hnd fun t ht => by
      rw [hsize]
      exact h t (List.mem_cons_of_mem slot ht)
    refine ⟨fun t => ?_, ?_⟩
    · rw [List.foldl_cons, hbound, binding?_declareSlot hslot, Option.or_assoc]
      congr 1
      by_cases ht : t = slot <;> simp [ht]
    · rw [List.foldl_cons, htold, duplicates_declareSlot, hduplicate, List.append_assoc]
      congr 1
      -- The slots that come later have not been touched.
      have hrest : slots.filter (fun t => ((o.declareSlot slot b).map.binding? t).isSome)
          = slots.filter fun t => (o.map.binding? t).isSome := by
        refine List.filter_congr fun t ht => ?_
        have hne : t ≠ slot := fun heq => hnew (heq ▸ ht)
        rw [binding?_declareSlot hslot, if_neg hne, Option.or_none]
      rw [hrest, List.filter_cons]
      split <;> rfl

/-- To declare a name is to declare its slots. -/
theorem declare_ofShape (map : CrateMap) (d : Declaration) (o : Outline) (b : Binding) :
    o.declare (map.moduleAt d.home) d.name (.ofShape b d.spaces)
      = (d.slots map).foldl (fun o slot => o.declareSlot slot b) o := by
  obtain ⟨home, name, ⟨types, values, macros⟩, -⟩ := d
  cases types <;> cases values <;> cases macros <;> rfl

/-! ### What was declared so far -/

/-- What the walk has made of some declarations: each slot has what the first of them binds it to,
all others are told in their order, and what is left out comes after what has its name. -/
structure Declared (later : CrateMap) (done : List Declaration) (o : Outline) : Prop where
  binding? : ∀ slot, o.map.binding? slot
    = (done.find? fun d => slot ∈ d.slots later).map (·.binding later)
  duplicates : o.duplicates = (repeated (done.flatMap (·.slots later))).map later.duplicate
  placed : ∀ d ∈ done, d.Placed later
  leftOut : ∀ before d after, done = before ++ d :: after → d.leftOut = true →
    d.isModuleOrEnum = true ∧ d.spaces.types = true ∧
      ∃ first ∈ before, first.Opens d.home d.name

namespace Declared

variable {done : List Declaration} (h : Declared later done o)

include h

theorem quiet (hq : Quiet o o') : Declared later done o' :=
  ⟨fun slot => (hq.binding? slot).trans (h.binding? slot), hq.duplicates.trans h.duplicates,
    h.placed, h.leftOut⟩

/-- A slot is bound if it was declared. -/
theorem isSome_binding?_iff {slot : Slot} :
    (o.map.binding? slot).isSome ↔ slot ∈ done.flatMap (·.slots later) := by
  rw [h.binding?, Option.isSome_map, List.find?_isSome, List.mem_flatMap]
  simp

/-- One more declaration binds its slots that are free, and the others are told. -/
theorem add (hsound : Sound o) (hlater : o.map.Precedes later) {d : Declaration}
    (hm : (later.moduleAt d.home).index < o.map.tree.size) (hplaced : d.Placed later)
    (hleftOut : d.leftOut = true → d.isModuleOrEnum = true ∧ d.spaces.types = true ∧
      ∃ first ∈ done, first.Opens d.home d.name) :
    Declared later (done ++ [d])
      (o.declare (later.moduleAt d.home) d.name (.ofShape (d.binding later) d.spaces)) := by
  have hmodule : ∀ slot ∈ d.slots later, slot.module = later.moduleAt d.home := fun slot hslot =>
    ((d.mem_slots later).1 hslot).1
  obtain ⟨hbound, htold⟩ := declareSlots_spec (d.nodup_slots later) (o := o) (fun slot hslot => by
    rw [hmodule slot hslot, hsound.sized]
    exact hm) (d.binding later)
  rw [declare_ofShape]
  refine ⟨fun slot => ?_, ?_, fun e he => ?_, fun before e after heq hleft => ?_⟩
  · rw [hbound, h.binding?, List.find?_append, Option.map_or]
    congr 1
    by_cases hslot : slot ∈ d.slots later <;> simp [hslot]
  · rw [htold, h.duplicates, List.flatMap_append,
      repeated_append (by simpa using d.nodup_slots later), List.map_append]
    congr 1
    have hsame : (d.slots later).filter (fun slot => (o.map.binding? slot).isSome)
        = (d.slots later).filter (· ∈ done.flatMap (·.slots later)) := by
      refine List.filter_congr fun slot _ => ?_
      rw [Bool.eq_iff_iff, h.isSome_binding?_iff, decide_eq_true_iff]
    rw [hsame]
    simp only [List.flatMap_cons, List.flatMap_nil, List.append_nil]
    refine List.map_congr_left fun slot hslot => ?_
    unfold CrateMap.duplicate
    rw [hlater.displayModule (by rw [hmodule slot (List.mem_filter.1 hslot).1]; exact hm)]
  · rcases List.mem_append.1 he with he | he
    · exact h.placed e he
    · rw [List.mem_singleton.1 he]
      exact hplaced
  · -- Either the declaration was there before, or it is the last one.
    rcases List.eq_nil_or_concat after with rfl | ⟨after, last, rfl⟩
    · obtain ⟨rfl, hlast⟩ := List.append_inj' heq rfl
      cases hlast
      exact hleftOut hleft
    · rw [List.concat_eq_append, ← List.cons_append, ← List.append_assoc] at heq
      exact h.leftOut before e after (List.append_inj' heq rfl).1 hleft

end Declared

/-! ### The walk -/

/-- The walk is in the module `m`, which is found at a path in the end. -/
structure Here (later : CrateMap) (o : Outline) (m : LocalId) (path : List Name) : Prop
    extends At o m where
  precedes : o.map.Precedes later
  found : later.tree.descend? .root path = some m

namespace Here

variable {path : List Name} (h : Here later o m path)

include h

theorem moduleAt : later.moduleAt path = m := by
  unfold CrateMap.moduleAt
  rw [h.found]
  rfl

theorem pathOf (hregular : later.tree.Regular) : o.map.tree.pathOf m = ⟨later.crate, path⟩ :=
  (h.precedes.tree.pathOf m h.inside).symm.trans (hregular.pathOf_descend? h.found).2

theorem still (hsteps : Steps o o') (htree : o'.map.tree = o.map.tree) : Here later o' m path where
  toAt := h.toAt.steps hsteps
  precedes := ⟨htree ▸ h.precedes.tree, h.precedes.edition.trans hsteps.precedes.edition.symm⟩
  found := h.found

end Here

/-- Which visibility a mark gives does not depend on the name. -/
theorem judged_name (map : CrateMap) (m : LocalId) (mark : WrittenVisibility) (name name' : Name) :
    map.judged m mark name = map.judged m mark name' := by
  unfold CrateMap.judged judge
  cases mark with
  | pub | unmarked | pubSelf | pubCrate => rfl
  | pubSuper =>
    simp only
    cases map.tree.parent? m <;> rfl
  | pubIn text =>
    simp only
    cases map.restrictionScope? m (map.tree.pathOf m).segments text <;> rfl

section Walk

variable {done : List Declaration} {path : List Name} (hregular : later.tree.Regular)

include hregular

/-- A declaration of something that has no names inside. -/
theorem Declared.leaf (h : Declared later done o) (hm : Here later o m path) {scope : LocalId}
    {markedIn : List Name} (hscope : later.tree.descend? .root markedIn = some scope) (name : Name)
    (mark : WrittenVisibility) (spaces : NamespaceSet) :
    Declared later (done ++ [{ home := path, name, spaces, markedIn, mark }])
      (o.declareLeaf m name (later.judged scope mark name) spaces) := by
  have hat : later.moduleAt markedIn = scope := by
    unfold CrateMap.moduleAt
    rw [hscope]
    rfl
  have hadd := h.add (d := { home := path, name, spaces, markedIn, mark }) hm.sound hm.precedes
    (by rw [hm.moduleAt]; exact hm.inside) ⟨by rw [hm.moduleAt, hm.found], by rw [hscope, hat],
      fun hfalse => by cases hfalse⟩ (fun hfalse => by cases hfalse)
  unfold Declaration.binding at hadd
  rw [hm.moduleAt, hat] at hadd
  unfold declareLeaf
  rw [hm.pathOf hregular]
  exact hadd

/-- An item that has no names inside. -/
theorem Declared.item (h : Declared later done o) (hm : At o m)
    (hfound : later.tree.descend? .root path = some m) (name : Name) {mark : WrittenVisibility}
    (hv : (later.judged m mark name).isVisibleFrom o.map.tree m = true) (spaces : NamespaceSet)
    (hlater : (o.declareLeaf m name (later.judged m mark name) spaces).map.Precedes later) :
    Declared later (done ++ [{ home := path, name, spaces, markedIn := path, mark }])
      (o.declareLeaf m name (later.judged m mark name) spaces) :=
  h.leaf hregular ⟨hm, (declareLeaf_steps name spaces hm hv).precedes.trans hlater, hfound⟩ hfound
    name mark spaces

/-- The variants of an enum are declared in it. -/
theorem Declared.variants (h : Declared later done o) {enum : Name} {child : LocalId}
    (hm : Here later o child (path ++ [enum])) (hscope : later.tree.descend? .root path = some m)
    (mark : WrittenVisibility) (name : Name)
    (hv : (later.judged m mark name).isVisibleFrom o.map.tree child = true)
    (variants : List Variant) :
    Declared later (done ++ Variant.declarations path enum mark variants)
      (o.declareVariants child (later.judged m mark name) variants) := by
  induction variants generalizing o done with
  | nil =>
    rw [Variant.declarations, List.filterMap_nil, List.append_nil]
    exact h
  | cons variant variants ih =>
    unfold declareVariants Variant.declarations
    rw [List.foldl_cons, List.filterMap_cons]
    cases hname : variant.name with
    | none =>
      have hsteps : Steps o (o.skip child .enumVariant) := overlooks_steps.skip o child rfl
      exact ih (h.quiet (Quiet.overlooks.skip o child rfl)) (hm.still hsteps rfl)
        (hm.toAt.visible hsteps hv)
    | some variantName =>
      have hsteps := declareLeaf_steps variantName variant.fields.namespaces hm.toAt hv
      have htree := (Still.declareLeaf o child variantName (later.judged m mark name)
        variant.fields.namespaces).tree
      have hleaf := h.leaf hregular hm hscope variantName mark variant.fields.namespaces
      rw [judged_name later m mark variantName name] at hleaf
      have hrest := ih hleaf (hm.still hsteps htree) (hm.toAt.visible hsteps hv)
      rw [List.append_assoc, List.singleton_append] at hrest
      exact hrest

/-- A module or an enum that comes in is declared in the module around it. -/
theorem Declared.opened (h : Declared later done o) {chain : List Name} (hm : AtModule o m chain)
    (hfound : later.tree.descend? .root path = some m) {name : Name} {mark : WrittenVisibility}
    {kind : ModuleKind} {child : LocalId}
    (hv : (later.judged m mark name).isVisibleFrom o.map.tree m = true)
    (hopen : o.openChild? m name (later.judged m mark name) kind = some (o', child))
    (hlater : o'.map.Precedes later) (hchild : o'.map.tree.child? m name = some child) :
    Declared later (done ++ [.opening path name mark false]) o' := by
  obtain ⟨hsteps, -⟩ := openChild?_steps hm hv hopen
  rw [openChild?, Option.map_eq_some_iff] at hopen
  obtain ⟨⟨map, child'⟩, hadd, heq⟩ := hopen
  cases heq
  have hgrown := CrateMap.grown_of_addChild? hadd
  have hopened : Steps o { o with map } := .single (.opened hadd hm.kind)
  have htree := (Still.declare { o with map } m name
    (.only .types (map.moduleBinding child (later.judged m mark name)))).tree
  -- Before it is declared it is there without a name.
  have hquiet := quiet_addChild? o hadd
  have hhere : Here later { o with map } m path :=
    ⟨hm.toAt.steps hopened, ⟨htree ▸ hlater.tree, hlater.edition.trans
      (hsteps.precedes.edition.trans hopened.precedes.edition.symm)⟩, hfound⟩
  have hadded := (h.quiet hquiet).add (d := .opening path name mark false) hhere.sound
    hhere.precedes (by rw [Declaration.opening, hhere.moduleAt]; exact hhere.inside)
    ⟨by rw [Declaration.opening, hhere.moduleAt, hfound],
      by rw [Declaration.opening, hhere.moduleAt, hfound], fun _ => by
        rw [Declaration.opening, hhere.moduleAt, hlater.tree.child? m name child hchild]
        rfl⟩ (fun hfalse => by cases hfalse)
  have hbinding : (Declaration.opening path name mark false).binding later
      = map.moduleBinding child (later.judged m mark name) := by
    unfold Declaration.binding Declaration.opening CrateMap.moduleBinding
    rw [hhere.moduleAt, hgrown.pathOf, ← hgrown.extension.pathOf m hm.inside,
      show map.tree.pathOf m = _ from hhere.pathOf hregular]
    rfl
  rw [hbinding, Declaration.opening, hhere.moduleAt] at hadded
  exact hadded

omit hregular in
/-- A module or an enum whose name is taken is told. -/
theorem Declared.refused (h : Declared later done o) (hm : Here later o m path) {name : Name}
    (hfirst : ∃ first ∈ done, first.Opens path name) (mark : WrittenVisibility) :
    Declared later (done ++ [.opening path name mark true]) (o.refuse ⟨m, name, .types⟩) := by
  obtain ⟨first, hmem, hopens⟩ := hfirst
  have hplaced := h.placed first hmem
  have hat : later.moduleAt first.home = m := by rw [hopens.home, hm.moduleAt]
  have hadded := h.add (d := .opening path name mark true) hm.sound hm.precedes
    (by rw [Declaration.opening, hm.moduleAt]; exact hm.inside)
    ⟨by rw [Declaration.opening, hm.moduleAt, hm.found],
      by rw [Declaration.opening, hm.moduleAt, hm.found], fun _ => by
        rw [Declaration.opening, hm.moduleAt, ← hat, ← hopens.name]
        exact hplaced.child hopens.isModuleOrEnum⟩
    fun _ => ⟨rfl, rfl, first, hmem, hopens⟩
  -- The slot is bound, since the name is that of an earlier module or enum.
  have hbound : (o.map.binding? ⟨m, name, .types⟩).isSome := by
    rw [h.isSome_binding?_iff, List.mem_flatMap]
    exact ⟨first, hmem, (first.mem_slots later).2 ⟨hat.symm, hopens.name.symm, hopens.types⟩⟩
  obtain ⟨b, hb⟩ := Option.isSome_iff_exists.1 hbound
  have hslots : (Declaration.opening path name mark true).slots later = [⟨m, name, .types⟩] := by
    change [Slot.mk (later.moduleAt path) name .types] = _
    rw [hm.moduleAt]
  rw [declare_ofShape, hslots] at hadded
  unfold List.foldl List.foldl declareSlot at hadded
  rw [hb] at hadded
  exact hadded

end Walk

/-- A module or an enum whose name was free is declared as one that is visited. -/
theorem exists_opens {item : Item} {n : Name} (hn : item.opens? = some n) (path : List Name)
    {taken : List Name} (hfree : n ∉ taken) :
    ∃ first ∈ item.declarations path taken, first.Opens path n := by
  obtain ⟨name, mark, kind⟩ := item
  change (if kind.isModuleOrEnum then name else none) = some n at hn
  split at hn
  · next hkind =>
    cases hn
    have hleftOut : decide (n ∈ taken) = false := decide_eq_false hfree
    refine ⟨.opening path n mark (n ∈ taken), ?_, rfl, rfl, rfl, rfl, hleftOut⟩
    cases kind with
    | module | enum => exact List.mem_cons_self
    | struct | union | trait | typeAlias | function | const | static | macroRules => cases hkind
  · cases hn

/-- What is declared so far has the names of the modules and enums that were visited at a path. -/
def Recorded (done : List Declaration) (path taken : List Name) : Prop :=
  ∀ n ∈ taken, ∃ first ∈ done, first.Opens path n

theorem Recorded.item {done : List Declaration} {path taken : List Name}
    (h : Recorded done path taken) (item : Item) :
    Recorded (done ++ item.declarations path taken) path (item.opens?.toList ++ taken) := by
  intro n hn
  by_cases hold : n ∈ taken
  · obtain ⟨first, hmem, hopens⟩ := h n hold
    exact ⟨first, List.mem_append_left _ hmem, hopens⟩
  · have hnew := (List.mem_append.1 hn).resolve_right hold
    obtain ⟨first, hmem, hopens⟩ := exists_opens (Option.mem_toList.1 hnew) path hold
    exact ⟨first, List.mem_append_right _ hmem, hopens⟩

mutual

/-- The walk over the contents of a module comes to the declarations in their order. -/
theorem addBody_declared (hregular : later.tree.Regular) {o : Outline} {m : LocalId}
    {chain : List Name} (h : AtModule o m chain) (htaken : Taken o m [])
    (hpath : later.tree.descend? .root chain = some m) {done : List Declaration}
    (hdone : Declared later done o) :
    (body : ModuleBody) → (addBody o m chain body).map.Precedes later →
      Declared later (done ++ body.declarations chain) (addBody o m chain body)
  | ⟨items, uses, externCrates⟩ => by
    intro hlater
    have hsteps := directives_steps h uses externCrates
    have hquiet := Quiet.overlooks.directives m chain o uses externCrates
    rw [addBody] at hlater ⊢
    rw [ModuleBody.declarations]
    exact addItems_declared hregular (h.steps hsteps) (htaken.afterImports chain uses externCrates)
      hpath (hdone.quiet hquiet) (fun _ hn => absurd hn List.not_mem_nil) items hlater

theorem addItems_declared (hregular : later.tree.Regular) {o : Outline} {m : LocalId}
    {chain : List Name} (h : AtModule o m chain) {taken : List Name}
    (htaken : Taken o m taken) (hpath : later.tree.descend? .root chain = some m)
    {done : List Declaration} (hdone : Declared later done o)
    (hrecorded : Recorded done chain taken) :
    (items : List Item) → (addItems o m chain items).map.Precedes later →
      Declared later (done ++ Item.declarationsAll chain taken items) (addItems o m chain items)
  | [] => by
    intro _
    rw [Item.declarationsAll, List.append_nil]
    exact hdone
  | item :: items => by
    intro hlater
    have hsteps := addItem_steps h item
    rw [addItems] at hlater ⊢
    have hlater' := (addItems_steps (h.steps hsteps) items).precedes.trans hlater
    have hitem := addItem_declared hregular h htaken hpath hdone hrecorded item hlater'
    have htaken' := (addItem_covers h htaken hpath item hlater').2
    rw [Item.declarationsAll, ← List.append_assoc]
    exact addItems_declared hregular (h.steps hsteps) htaken' hpath hitem (hrecorded.item item)
      items hlater

theorem addItem_declared (hregular : later.tree.Regular) {o : Outline} {m : LocalId}
    {chain : List Name} (h : AtModule o m chain) {taken : List Name}
    (htaken : Taken o m taken) (hpath : later.tree.descend? .root chain = some m)
    {done : List Declaration} (hdone : Declared later done o)
    (hrecorded : Recorded done chain taken) :
    (item : Item) → (addItem o m chain item).map.Precedes later →
      Declared later (done ++ item.declarations chain taken) (addItem o m chain item)
  | ⟨none, mark, kind⟩ => by
    intro _
    rw [addItem, Item.declarations, List.append_nil]
    exact hdone.quiet (Quiet.overlooks.skip o m rfl)
  | ⟨some name, mark, kind⟩ => by
    intro hlater
    obtain ⟨hsteps, hv⟩ := judge_spec h.toAt chain mark name
    have hjudged := h.judged ((addItem_steps h ⟨some name, mark, kind⟩).precedes.trans hlater)
      mark name
    have hvisible := h.visible hsteps hv
    rw [addItem] at hlater ⊢
    simp only at hlater ⊢
    rw [Item.declarations]
    rw [hjudged] at hlater hvisible ⊢
    exact addKind_declared hregular (h.steps hsteps)
      (htaken.still (Still.overlooks.judge o m chain mark name)) hpath
      (hdone.quiet (Quiet.overlooks.judge o m chain mark name)) hrecorded name mark hvisible kind
      hlater

theorem addKind_declared (hregular : later.tree.Regular) {o : Outline} {m : LocalId}
    {chain : List Name} (h : AtModule o m chain) {taken : List Name}
    (htaken : Taken o m taken) (hpath : later.tree.descend? .root chain = some m)
    {done : List Declaration} (hdone : Declared later done o)
    (hrecorded : Recorded done chain taken) (name : Name) (mark : WrittenVisibility)
    (hv : (later.judged m mark name).isVisibleFrom o.map.tree m = true) :
    (kind : ItemKind) →
      (addKind o m chain name (later.judged m mark name) kind).map.Precedes later →
      Declared later (done ++ kind.declarations chain taken name mark)
        (addKind o m chain name (later.judged m mark name) kind)
  | .module body => by
    intro hlater
    have hchild := openChild?_taken later name (later.judged m mark name) .module h htaken
    rw [addKind] at hlater ⊢
    rw [ItemKind.declarations]
    cases hopen : o.openChild? m name (later.judged m mark name) .module with
    | none =>
      rw [hopen] at hchild hlater
      rw [if_pos hchild, decide_eq_true hchild]
      exact hdone.refused ⟨h.toAt, (overlooks_steps.refuse o _ rfl).precedes.trans hlater, hpath⟩
        (hrecorded name hchild) mark
    | some r =>
      obtain ⟨o', child⟩ := r
      rw [hopen] at hchild hlater
      obtain ⟨hfree, -, -, hempty, hfound, -⟩ := hchild
      obtain ⟨hsteps, hinner⟩ := openModule_steps h hv hopen
      have hlater' := (addBody_steps hinner body).precedes.trans hlater
      have hpath' := ModuleTree.descend?_child hpath (hlater'.tree.child? m name child hfound)
      have hopened := hdone.opened hregular h hpath hv hopen hlater' hfound
      rw [if_neg hfree, decide_eq_false hfree, List.append_cons]
      exact addBody_declared hregular hinner hempty hpath' hopened body hlater
  | .enum variants => by
    intro hlater
    have hchild := openChild?_taken later name (later.judged m mark name) .enum h htaken
    rw [addKind] at hlater ⊢
    rw [ItemKind.declarations]
    cases hopen : o.openChild? m name (later.judged m mark name) .enum with
    | none =>
      rw [hopen] at hchild hlater
      rw [if_pos hchild, decide_eq_true hchild]
      exact hdone.refused ⟨h.toAt, (overlooks_steps.refuse o _ rfl).precedes.trans hlater, hpath⟩
        (hrecorded name hchild) mark
    | some r =>
      obtain ⟨o', child⟩ := r
      rw [hopen] at hchild hlater
      obtain ⟨hfree, -, -, -, hfound, -⟩ := hchild
      obtain ⟨hsteps, hat, -, -, hvisible⟩ := openChild?_steps h hv hopen
      have hlater' := (declareVariants_steps variants hat hvisible).precedes.trans hlater
      have hpath' := ModuleTree.descend?_child hpath (hlater'.tree.child? m name child hfound)
      have hopened := hdone.opened hregular h hpath hv hopen hlater' hfound
      rw [if_neg hfree, decide_eq_false hfree, List.append_cons]
      exact hopened.variants hregular ⟨hat, hlater', hpath'⟩ hpath mark name hvisible variants
  | .macroRules true => by
    -- An exported macro is declared in the root, and is public there.
    intro hlater
    have hpublic : (later.judged .root .pub name).isVisibleFrom o.map.tree .root = true := rfl
    rw [addKind] at hlater ⊢
    exact hdone.item hregular ⟨h.sound, o.map.tree.size_pos⟩ rfl name hpublic { macros := true }
      hlater
  | .macroRules false => fun hlater => hdone.item hregular h.toAt hpath name hv _ hlater
  | .struct _ => fun hlater => hdone.item hregular h.toAt hpath name hv _ hlater
  | .union => fun hlater => hdone.item hregular h.toAt hpath name hv _ hlater
  | .trait => fun hlater => hdone.item hregular h.toAt hpath name hv _ hlater
  | .typeAlias => fun hlater => hdone.item hregular h.toAt hpath name hv _ hlater
  | .function => fun hlater => hdone.item hregular h.toAt hpath name hv _ hlater
  | .const => fun hlater => hdone.item hregular h.toAt hpath name hv _ hlater
  | .static => fun hlater => hdone.item hregular h.toAt hpath name hv _ hlater

end

end Outline

end CrateScope
