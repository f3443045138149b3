import CrateScope.Proofs.References

/-!
# Resolving a path is compositional

To resolve a path with one more name is to resolve the path before it, and to look the name up in
the module that this one stands for.  The first name of a path is looked up by other rules than the
later ones, which depend on the use of the path, on the edition and on whether more names follow.
All the same the law holds as soon as there is a first name or a keyword: what a lone name can mean
besides is a macro, and there are no names inside of macros.

## Main definitions

* `Path.child`, `Path.HasBeginning` — a path with one more name, and what can have one more.
* `View.Hosts` — the module or enum that a path stands for.
* `View.LeavesBefore` — a path comes to another crate before its last name.
* `View.knowing` — a view in which other macros are known everywhere.

## Main results

* `View.get_resolve_child` — the law, in each namespace.
* `View.flags_resolve` — what is found is final, and when the path has left the crate.
* `path_resolution_is_compositional` — both in the finished views of a workspace.
-/

namespace CrateScope

/-! ### Paths with one more name -/

namespace Path

/-- The path to something inside. -/
def child (path : Path) (name : Name) : Path := { path with segments := path.segments ++ [name] }

/-- A path begins with a name, or with a keyword. -/
def HasBeginning (path : Path) : Prop :=
  path.segments ≠ [] ∨ path.anchor = .crate ∨ ∃ levels, path.anchor = .super levels

end Path

@[simp] theorem spaceBefore_types (names : List Name) : spaceBefore .types names = .types := by
  cases names <;> rfl

@[simp] theorem spaceBefore_concat (ns : Namespace) (names : List Name) (name : Name) :
    spaceBefore ns (names ++ [name]) = .types := by
  cases names <;> rfl

theorem Meaning.ne_empty_of_get {meaning : Meaning} {ns : Namespace} {b : Binding}
    (h : meaning.get ns = some b) : meaning ≠ ∅ := by
  rintro rfl
  rw [get_empty] at h
  cases h

namespace View

variable {view : View} {m : LocalId} {path : Path} {use : PathUse} {name : Name} {ns : Namespace}
  {meaning : Meaning} {names : List Name} {host : Binding} {leavesCrate : Bool}

/-- A path stands for a module or enum. -/
def Hosts (view : View) (m : LocalId) (path : Path) (use : PathUse) (host : Binding) : Prop :=
  (view.resolve m path use).meaning.types = some host ∧ host.isModuleOrEnum = true

/-! ### One namespace -/

/-- As a type a lone name means what it means in front of others. -/
theorem types_meaningInScope (view : View) (m : LocalId) (name : Name) (isWholePath : Bool) :
    (view.meaningInScope m name isWholePath).types = (view.meaningInScope m name false).types := by
  have hmacro : (view.macroMeaning name).get .types = none := by
    unfold macroMeaning
    split <;> rfl
  cases isWholePath with
  | false => rfl
  | true =>
    change ((view.meaningInScope m name false).orElse (view.macroMeaning name)).get .types = _
    rw [Meaning.get_orElse, hmacro, Option.or_none]
    rfl

/-- Where a path starts does not depend on the names behind its beginning. -/
theorem startIn_child (hbegin : path.HasBeginning) : view.startIn m (path.child name) use ns
    = (view.startIn m path use .types).map fun r => (r.1, r.2 ++ [name]) := by
  obtain ⟨anchor, segments⟩ := path
  unfold Path.child
  cases anchor with
  | crate => simp [startIn, start, Function.comp_def]
  | super levels =>
    cases habove : view.tree.climb? levels m with
    | none => simp [startIn, start, habove]
    | some above => simp [startIn, start, habove, Function.comp_def]
  | absolute =>
    cases huniform : view.own.edition.hasUniformPaths with
    | false => simp [startIn, start, huniform, Function.comp_def]
    | true =>
      cases segments with
      | nil => simp [Path.HasBeginning] at hbegin
      | cons first rest =>
        rw [startIn_absolute view rfl rfl huniform, startIn_absolute view rfl rfl huniform]
        simp [Function.comp_def]
  | plain =>
    cases segments with
    | nil => simp [Path.HasBeginning] at hbegin
    | cons first rest =>
      rw [startIn_plain view rfl rfl, startIn_plain view rfl rfl]
      simp only [List.append_eq, spaceBefore_concat, spaceBefore_types, Option.map_map,
        Function.comp_def]
      split
      · rfl
      · change Option.map _ (view.meaningInScope m first _).types
          = Option.map _ (view.meaningInScope m first _).types
        rw [types_meaningInScope, ← types_meaningInScope view m first rest.isEmpty]

/-- The last name of some is looked up inside of what those before it mean. -/
theorem followIn_concat (viewer : LocalId) (b : Binding) :
    view.followIn viewer ns b (names ++ [name])
      = (view.followIn viewer .types b names).bind (view.followIn viewer ns · [name]) := by
  induction names generalizing b with
  | nil => rfl
  | cons first names ih =>
    simp only [List.cons_append, followIn]
    split
    · cases view.locate? b.path with
      | none => rfl
      | some inside =>
        simp only [spaceBefore_concat, spaceBefore_types, Option.bind_assoc, ih]
        rfl
    · rfl

/-- **A path with one more name.**  The name is looked up inside of what the path before it means as
a type. -/
theorem get_resolve_child (hbegin : path.HasBeginning) :
    (view.resolve m (path.child name) use).meaning.get ns
      = (view.resolve m path use).meaning.types.bind (view.followIn m ns · [name]) := by
  change _ = ((view.resolve m path use).meaning.get .types).bind _
  rw [get_resolve, get_resolve, startIn_child hbegin, Option.bind_map, Option.bind_assoc]
  exact Option.bind_congr fun r _ => followIn_concat m r.1

theorem resolve_child_of_hosts (hbegin : path.HasBeginning) (h : view.Hosts m path use host)
    {inside : ModuleId} (hinside : view.locate? host.path = some inside) (name : Name) :
    (view.resolve m (path.child name) use).meaning
      = (view.meaning inside name).visible view.tree m := by
  refine Meaning.ext fun ns => ?_
  rw [get_resolve_child hbegin, h.1, Option.bind_some, followIn, if_pos h.2, hinside]
  exact Option.bind_fun_some _

theorem resolve_child_of_not_hosts (hbegin : path.HasBeginning)
    (h : ¬ ∃ host, view.Hosts m path use host) (name : Name) :
    (view.resolve m (path.child name) use).meaning = ∅ := by
  refine Meaning.ext fun ns => ?_
  rw [get_resolve_child hbegin, Meaning.get_empty]
  cases htypes : (view.resolve m path use).meaning.types with
  | none => rfl
  | some host =>
    have hkind : ¬ host.isModuleOrEnum = true := fun hkind => h ⟨host, htypes, hkind⟩
    rw [Option.bind_some, followIn, if_neg hkind]

/-! ### All namespaces at once -/

theorem isEmpty_orElse {a b : Meaning} (h : (a.orElse b).isEmpty = true) : a.isEmpty = true := by
  rw [Meaning.isEmpty_iff] at h ⊢
  refine Meaning.ext fun ns => ?_
  have hns := congrArg (Meaning.get · ns) h
  simp only [Meaning.get_orElse, Meaning.get_empty, Option.or_eq_none_iff] at hns
  rw [hns.1, Meaning.get_empty]

/-- If a path with one more name can be started, so can the path itself, with the same types. -/
theorem start_of_start_child (hbegin : path.HasBeginning) {names' : List Name} {meaning' : Meaning}
    (h : view.start m (path.child name) use = .ok (meaning', names')) :
    ∃ meaning names, view.start m path use = .ok (meaning, names) ∧ names' = names ++ [name] ∧
      meaning'.types = meaning.types := by
  obtain ⟨anchor, segments⟩ := path
  unfold Path.child start at h
  unfold start
  cases anchor with
  | crate =>
    cases h
    exact ⟨_, _, rfl, rfl, rfl⟩
  | super levels =>
    simp only at h ⊢
    split at h
    · cases h
      exact ⟨_, _, rfl, rfl, rfl⟩
    · cases h
  | absolute =>
    cases huniform : view.own.edition.hasUniformPaths with
    | false =>
      simp only [huniform] at h ⊢
      cases h
      exact ⟨_, _, rfl, rfl, rfl⟩
    | true =>
      cases segments with
      | nil => simp [Path.HasBeginning] at hbegin
      | cons first rest =>
        simp only [huniform, List.cons_append] at h ⊢
        cases hroot : view.own.externPrelude.get? first with
        | none =>
          rw [hroot] at h
          cases h
        | some root =>
          rw [hroot] at h
          cases h
          exact ⟨_, _, rfl, rfl, rfl⟩
  | plain =>
    cases segments with
    | nil => simp [Path.HasBeginning] at hbegin
    | cons first rest =>
      have hmore : (rest ++ [name]).isEmpty = false := by cases rest <;> rfl
      simp only [List.cons_append, hmore] at h ⊢
      by_cases hroot : use = .inImport ∧ view.own.edition.hasUniformPaths = false
      · simp only [if_pos hroot] at h ⊢
        split at h
        · cases h
        · next hsome =>
          cases h
          exact ⟨_, _, if_neg hsome, rfl, rfl⟩
      · simp only [if_neg hroot] at h ⊢
        split at h
        · cases h
        · next hsome =>
          cases h
          refine ⟨view.meaningInScope m first rest.isEmpty, rest, if_neg fun hempty => hsome ?_,
            rfl, (types_meaningInScope view m first rest.isEmpty).symm⟩
          -- A macro that is known everywhere can only be found in addition.
          cases hrest : rest.isEmpty with
          | false => rwa [hrest] at hempty
          | true =>
            rw [hrest] at hempty
            exact isEmpty_orElse hempty

/-- Only what is found as a type counts for the names that follow. -/
theorem follow_congr {meaning' : Meaning} (htypes : meaning'.types = meaning.types)
    (viewer : LocalId) :
    view.follow viewer leavesCrate meaning' (names ++ [name])
      = view.follow viewer leavesCrate meaning (names ++ [name]) := by
  cases names <;> simp only [List.nil_append, List.cons_append, follow, htypes]

/-- If the last name of some is found, then inside of a module that those before it stand for. -/
theorem follow_concat {viewer : LocalId}
    (h : (view.follow viewer leavesCrate meaning (names ++ [name])).meaning ≠ ∅) :
    ∃ host inside, (view.follow viewer leavesCrate meaning names).meaning.types = some host ∧
      host.isModuleOrEnum = true ∧ view.locate? host.path = some inside ∧
      view.follow viewer leavesCrate meaning (names ++ [name])
        = { meaning := (view.meaning inside name).visible view.tree viewer, settled := true
            leavesCrate := (view.follow viewer leavesCrate meaning names).leavesCrate
              || inside.crate != view.crate } := by
  induction names generalizing meaning leavesCrate with
  | nil =>
    simp only [List.nil_append, follow] at h ⊢
    split at h
    · exact absurd rfl h
    · next host hhost =>
      split at h
      · next hkind =>
        split at h
        · exact absurd rfl h
        · next inside hinside =>
          simp only [if_pos hkind] at h ⊢
          split at h
          · exact absurd rfl h
          · next hempty => exact ⟨host, inside, hhost, hkind, hinside, if_neg hempty⟩
      · exact absurd rfl h
  | cons first names ih =>
    simp only [List.cons_append, follow] at h ⊢
    split at h
    · exact absurd rfl h
    · next host hhost =>
      split at h
      · next hkind =>
        split at h
        · exact absurd rfl h
        · next inside hinside =>
          simp only [if_pos hkind] at h ⊢
          split at h
          · exact absurd rfl h
          · next hempty =>
            simp only [if_neg hempty]
            exact ih h
      · exact absurd rfl h

/-- A path with one more name that means something is settled, and leaves the crate if the path
before it does or stands for a module of another crate. -/
theorem flags_resolve_child (hbegin : path.HasBeginning)
    (h : (view.resolve m (path.child name) use).meaning ≠ ∅) :
    ∃ host, view.Hosts m path use host ∧ (view.resolve m (path.child name) use).settled = true ∧
      (view.resolve m (path.child name) use).leavesCrate
        = ((view.resolve m path use).leavesCrate || host.path.crate != view.crate) := by
  unfold Hosts
  unfold resolve at h ⊢
  cases hstart : view.start m (path.child name) use with
  | error miss =>
    rw [hstart] at h
    exact absurd rfl h
  | ok r =>
    obtain ⟨meaning, names, hlead, hnames, htypes⟩ := start_of_start_child hbegin hstart
    simp only [hstart, hlead, hnames, follow_congr htypes] at h ⊢
    obtain ⟨host, inside, hhost, hkind, hinside, hresult⟩ := follow_concat h
    refine ⟨host, ⟨hhost, hkind⟩, ?_, ?_⟩
    · rw [hresult]
    · rw [hresult, ← (locate?_eq_some_iff.1 hinside).1]

/-! ### Where a path leaves the crate -/

/-- Some of the names of a path, but not all of them, stand for a module of another crate. -/
def LeavesBefore (view : View) (m : LocalId) (path : Path) (use : PathUse) : Prop :=
  ∃ names host, names <+: path.segments ∧ names ≠ path.segments ∧
    view.Hosts m ⟨path.anchor, names⟩ use host ∧ host.path.crate ≠ view.crate

theorem leavesBefore_child : view.LeavesBefore m (path.child name) use ↔
    view.LeavesBefore m path use ∨
      ∃ host, view.Hosts m path use host ∧ host.path.crate ≠ view.crate := by
  have hlonger : ∀ names : List Name, names <+: path.segments →
      names <+: (path.child name).segments ∧ names ≠ (path.child name).segments := by
    intro names hlead
    refine ⟨hlead.trans (List.prefix_append _ _), fun heq => ?_⟩
    have hlength := hlead.length_le
    simp [heq, Path.child] at hlength
  constructor
  · rintro ⟨names, host, hlead, hproper, hhost, hforeign⟩
    rcases List.prefix_concat_iff.1 hlead with heq | hlead
    · exact absurd heq hproper
    · by_cases hall : names = path.segments
      · rw [hall] at hhost
        exact Or.inr ⟨host, hhost, hforeign⟩
      · exact Or.inl ⟨names, host, hlead, hall, hhost, hforeign⟩
  · rintro (⟨names, host, hlead, -, hhost, hforeign⟩ | ⟨host, hhost, hforeign⟩)
    · exact ⟨names, host, (hlonger names hlead).1, (hlonger names hlead).2, hhost, hforeign⟩
    · obtain ⟨hlead, hproper⟩ := hlonger path.segments (List.prefix_refl _)
      exact ⟨path.segments, host, hlead, hproper, hhost, hforeign⟩

/-- A path that names nothing behind its beginning is settled at once, and stays in the crate. -/
theorem flags_resolve_of_start (hstart : ∀ r, view.start m path use = .ok r → r.2 = [])
    (h : (view.resolve m path use).meaning ≠ ∅) :
    (view.resolve m path use).settled = true ∧
      (view.resolve m path use).leavesCrate = false := by
  unfold resolve at h ⊢
  cases hs : view.start m path use with
  | error miss =>
    rw [hs] at h
    exact absurd rfl h
  | ok r =>
    obtain ⟨meaning, names⟩ := r
    obtain rfl : names = [] := hstart _ hs
    exact ⟨rfl, rfl⟩

theorem start_nil {anchor : Anchor} (r : Meaning × List Name)
    (h : view.start m ⟨anchor, []⟩ use = .ok r) : r.2 = [] := by
  cases anchor with
  | crate =>
    cases h
    rfl
  | super levels =>
    simp only [start] at h
    split at h <;> cases h
    rfl
  | absolute =>
    simp only [start] at h
    split at h <;> cases h
    rfl
  | plain => cases h

/-- What has no beginning stands for nothing, and a single name behind it is the beginning. -/
theorem start_of_not_hasBeginning (m : LocalId) (use : PathUse) (name : Name) {anchor : Anchor}
    {segments : List Name} (hanchor : anchor = .absolute → view.own.edition.hasUniformPaths = true)
    (hbegin : ¬ Path.HasBeginning ⟨anchor, segments⟩) : segments = [] ∧
      (∀ host, ¬ view.Hosts m ⟨anchor, []⟩ use host) ∧
      ∀ r, view.start m ⟨anchor, [name]⟩ use = .ok r → r.2 = [] := by
  simp only [Path.HasBeginning, not_or, not_not] at hbegin
  obtain ⟨rfl, hcrate, hsuper⟩ := hbegin
  refine ⟨rfl, ?_⟩
  cases anchor with
  | crate => exact absurd rfl hcrate
  | super levels => exact absurd ⟨levels, rfl⟩ hsuper
  | absolute =>
    have huniform := hanchor rfl
    refine ⟨?_, fun r hr => ?_⟩
    · rintro host ⟨hhost, -⟩
      simp only [resolve, start, huniform] at hhost
      cases hhost
    · simp only [start, huniform] at hr
      cases hroot : view.own.externPrelude.get? name with
      | none =>
        rw [hroot] at hr
        cases hr
      | some root =>
        rw [hroot] at hr
        cases hr
        rfl
  | plain =>
    refine ⟨?_, fun r hr => ?_⟩
    · rintro host ⟨hhost, -⟩
      cases hhost
    · simp only [start] at hr
      generalize (if use = .inImport ∧ view.own.edition.hasUniformPaths = false then
        view.meaningFromRoot name else view.meaningInScope m name [].isEmpty) = meaning at hr
      split at hr
      · cases hr
      · cases hr
        rfl

/-- Before 2018 an absolute path is one from the root. -/
theorem resolve_absolute (h : view.own.edition.hasUniformPaths = false) (names : List Name) :
    view.resolve m ⟨.absolute, names⟩ use = view.resolve m ⟨.crate, names⟩ use := by
  simp [resolve, start, h]

/-- The names of a path that leads to something, one after the other. -/
theorem flags_resolve_append {anchor : Anchor} (segments : List Name)
    (hanchor : anchor = .absolute → view.own.edition.hasUniformPaths = true)
    (h : (view.resolve m ⟨anchor, segments⟩ use).meaning ≠ ∅) :
    (view.resolve m ⟨anchor, segments⟩ use).settled = true ∧
      ((view.resolve m ⟨anchor, segments⟩ use).leavesCrate = true ↔
        view.LeavesBefore m ⟨anchor, segments⟩ use) := by
  induction segments using List.reverseRecOn with
  | nil =>
    obtain ⟨hsettled, hstays⟩ := flags_resolve_of_start start_nil h
    refine ⟨hsettled, iff_of_false (by rw [hstays]; exact Bool.false_ne_true) ?_⟩
    rintro ⟨names, host, hlead, hproper, -⟩
    exact hproper (List.prefix_nil.1 hlead)
  | append_singleton names name ih =>
    by_cases hbegin : Path.HasBeginning ⟨anchor, names⟩
    · obtain ⟨host, hhost, hsettled, hleaves⟩ := flags_resolve_child hbegin h
      have hlead : (view.resolve m ⟨anchor, names⟩ use).meaning ≠ ∅ :=
        Meaning.ne_empty_of_get (show Meaning.get _ .types = some host from hhost.1)
      have hchild : view.LeavesBefore m (Path.child ⟨anchor, names⟩ name) use ↔ _ :=
        leavesBefore_child
      refine ⟨hsettled, Iff.trans ?_ hchild.symm⟩
      rw [show (view.resolve m ⟨anchor, names ++ [name]⟩ use).leavesCrate = _ from hleaves,
        Bool.or_eq_true, (ih hlead).2, bne_iff_ne]
      refine or_congr_right ⟨fun hforeign => ⟨host, hhost, hforeign⟩, ?_⟩
      rintro ⟨host', hhost', hforeign⟩
      rwa [Option.some.inj (hhost.1.symm.trans hhost'.1)]
    · obtain ⟨rfl, hnone, hstart⟩ :=
        start_of_not_hasBeginning m use name hanchor hbegin
      rw [List.nil_append] at h ⊢
      obtain ⟨hsettled, hstays⟩ := flags_resolve_of_start hstart h
      refine ⟨hsettled, iff_of_false (by rw [hstays]; exact Bool.false_ne_true) ?_⟩
      rintro ⟨names, host, hlead, hproper, hhost, -⟩
      rcases List.prefix_cons_iff.1 hlead with rfl | ⟨names, rfl, hrest⟩
      · exact hnone host hhost
      · exact hproper (by rw [List.prefix_nil.1 hrest])

/-- **What is found is final.**  A path that means something is settled, and it leaves the crate
just in case some of its names before the last one stand for a module of another crate. -/
theorem flags_resolve (h : (view.resolve m path use).meaning ≠ ∅) :
    (view.resolve m path use).settled = true ∧
      ((view.resolve m path use).leavesCrate = true ↔ view.LeavesBefore m path use) := by
  obtain ⟨anchor, segments⟩ := path
  by_cases hold : anchor = .absolute ∧ view.own.edition.hasUniformPaths = false
  · obtain ⟨rfl, hold⟩ := hold
    unfold LeavesBefore Hosts
    simp only [resolve_absolute hold] at h ⊢
    exact flags_resolve_append segments (fun hanchor => by cases hanchor) h
  · refine flags_resolve_append segments (fun hanchor => ?_) h
    exact Bool.eq_true_of_not_eq_false fun hfalse => hold ⟨hanchor, hfalse⟩

/-! ### Macros that are known everywhere -/

/-- The view with other macros that are known everywhere. -/
def knowing (view : View) (macros : Listing Name Binding) : View :=
  { view with own := { view.own with macroPrelude := macros } }

/-- The macros that are known everywhere have no part in a path that is no lone name. -/
theorem resolve_knowing (macros : Listing Name Binding) (hlone : ¬ path.IsLoneName) :
    (view.knowing macros).resolve m path use = view.resolve m path use := by
  have hsame : view.SameNames (view.knowing macros) := ⟨rfl, rfl, rfl, rfl, rfl, rfl⟩
  exact hsame.resolve fun h => absurd h hlone

end View

/-- **Path resolution is compositional.**  Let `m` be a module of a crate that was finished in a run
of a workspace.  What a path with one more name means in `m` is what the name means in the module or
enum that the path before it stands for, as far as `m` may name it; and nothing, if that path stands
for none.  What is found is final, and the path has left the crate just in case some of its names
before the last one stand for a module of another crate.  So the macros that are known everywhere,
among which only lone names are looked up, make no difference to any other path. -/
theorem path_resolution_is_compositional {graph : CrateGraph} {settings : Settings} {w : Workspace}
    (h : Workspace.Run graph settings w) {id : CrateId} {view : View}
    (hview : w.view? id = some view) {m : LocalId} (hm : m.index < view.tree.size)
    (use : PathUse) :
    (∀ path name, path.HasBeginning →
      (∀ host, view.Hosts m path use host → ∃ inside, view.locate? host.path = some inside ∧
        (view.resolve m (path.child name) use).meaning
          = (view.meaning inside name).visible view.tree m) ∧
      ((¬ ∃ host, view.Hosts m path use host) →
        (view.resolve m (path.child name) use).meaning = ∅)) ∧
    (∀ path, (view.resolve m path use).meaning ≠ ∅ →
      (view.resolve m path use).settled = true ∧
        ((view.resolve m path use).leavesCrate = true ↔ view.LeavesBefore m path use)) ∧
    ∀ path macros, ¬ path.IsLoneName →
      (view.knowing macros).resolve m path use = view.resolve m path use := by
  refine ⟨fun path name hbegin => ⟨fun host hhost => ?_, fun hnone => ?_⟩, fun path => ?_,
    fun path macros => View.resolve_knowing macros⟩
  · -- What a path stands for is found, and so it is there.
    have hfinds : view.Finds m .types host := View.finds_resolve hhost.1
    obtain ⟨inside, -, hinside, -⟩ := (h.refers_of_finds hview hm hfinds).module hhost.2
    exact ⟨inside, hinside, View.resolve_child_of_hosts hbegin hhost hinside name⟩
  · exact View.resolve_child_of_not_hosts hbegin hnone name
  · exact View.flags_resolve

/-- The borrower finds the struct of the lender in the module of the lender that the path before it
stands for, in another crate. -/
theorem path_resolution_is_compositional_lending : ∃ w view host inside,
    Workspace.Run lendingGraph {} w ∧ w.view? ⟨1⟩ = some view ∧
    view.Hosts .root ⟨.plain, ["lender", "m"]⟩ .elsewhere host ∧
    view.locate? host.path = some inside ∧
    (view.resolve .root ⟨.plain, ["lender", "m", "S"]⟩ .elsewhere).meaning
      = (view.meaning inside "S").visible view.tree .root ∧
    (view.resolve .root ⟨.plain, ["lender", "m", "S"]⟩ .elsewhere).meaning.types.isSome = true ∧
    (view.resolve .root ⟨.plain, ["lender", "m", "S"]⟩ .elsewhere).settled = true ∧
    view.LeavesBefore .root ⟨.plain, ["lender", "m", "S"]⟩ .elsewhere := by
  have hfound : ((Workspace.buildAll { graph := lendingGraph } (fun _ _ => false)).workspace.view?
      ⟨1⟩).map (fun view =>
        ((view.resolve .root ⟨.plain, ["lender", "m"]⟩ .elsewhere).meaning.types,
          (view.resolve .root ⟨.plain, ["lender", "m", "S"]⟩ .elsewhere).meaning.types.isSome,
          (view.resolve .root ⟨.plain, ["lender", "m", "S"]⟩ .elsewhere).leavesCrate))
      = some (some ⟨⟨⟨0⟩, ["m"]⟩, .everywhere, true⟩, true, true) := by cbv
  obtain ⟨view, hview, hresults⟩ := Option.map_eq_some_iff.1 hfound
  obtain ⟨hmodule, hresults⟩ := Prod.mk.inj hresults
  obtain ⟨hstruct, hleaves⟩ := Prod.mk.inj hresults
  have hrun : Workspace.Run lendingGraph {}
      (Workspace.buildAll { graph := lendingGraph } (fun _ _ => false)).workspace :=
    .buildAll .fresh _
  have hhost : view.Hosts .root ⟨.plain, ["lender", "m"]⟩ .elsewhere _ := ⟨hmodule, rfl⟩
  obtain ⟨hchild, hflags, -⟩ :=
    path_resolution_is_compositional hrun hview (m := .root) view.tree.size_pos .elsewhere
  obtain ⟨inside, hinside, hmeaning⟩ :=
    (hchild ⟨.plain, ["lender", "m"]⟩ "S" (Or.inl (List.cons_ne_nil _ _))).1 _ hhost
  obtain ⟨hsettled, hiff⟩ := hflags ⟨.plain, ["lender", "m", "S"]⟩ fun hempty => by
    rw [hempty] at hstruct
    cases hstruct
  exact ⟨_, view, _, inside, hrun, hview, hhost, hinside, hmeaning, hstruct, hsettled,
    hiff.1 hleaves⟩

end CrateScope
