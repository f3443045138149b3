import CrateScope.Proofs.Declarations
import CrateScope.Proofs.Forwarding

/-!
# What carrying an import out changes

Carrying an import out is a row of small changes: bindings of its own that come to the name it
binds, bindings that are handed on along the globs, the crate that an `extern crate` opens, and the
connection that a glob leaves behind.  What each of these keeps holds in every state of every
course.

## Main definitions

* `Collection.Alike` — two states with the same bindings and the same marks.
* `Collection.Change` — one change while an import is carried out.
* `Collection.naming` — the state in which the name of an import is bound, before that is handed on.

## Main results

* `Collection.carryOut_walk` — the states while an import is carried out are joined by changes.
* `Collection.Course.coherent` — every state of a course is coherent.
* `Collection.Course.invariant` — what every change keeps holds in every state of a course.
-/

namespace CrateScope

namespace Collection

variable {imports : List Import} {c c' : Collection}

/-! ### States with the same bindings -/

/-- Two states have the same modules, bindings and marks. -/
structure Alike (c c' : Collection) : Prop where
  tree : c'.tree = c.tree
  scopes : c'.map.scopes = c.map.scopes
  globSources : c'.globSources = c.globSources
  dependencies : c'.view.dependencies = c.view.dependencies

namespace Alike

theorem of_eq (h : c' = c) : Alike c c' := by
  subst h
  exact ⟨rfl, rfl, rfl, rfl⟩

theorem told (c : Collection) (log : Log) : Alike c { c with log } := ⟨rfl, rfl, rfl, rfl⟩

theorem settled (c : Collection) (settled : List SettledImport) : Alike c { c with settled } :=
  ⟨rfl, rfl, rfl, rfl⟩

theorem giveUp (c : Collection) (i : Import) : Alike c (c.giveUp i) := ⟨rfl, rfl, rfl, rfl⟩

theorem addEdge (c : Collection) (source : LocalId) (edge : GlobEdge) :
    Alike c (c.addEdge source edge) := by
  unfold Collection.addEdge
  split
  · exact of_eq rfl
  · exact ⟨rfl, rfl, rfl, rfl⟩

theorem openCrate (c : Collection) (name : Option Name) (meaning : Meaning) (macroUse : Bool) :
    Alike c (c.openCrate name meaning macroUse) := by
  unfold Collection.openCrate
  split <;> exact ⟨rfl, rfl, rfl, rfl⟩

theorem binding? (h : Alike c c') (t : Slot) : c'.map.binding? t = c.map.binding? t := by
  unfold CrateMap.binding? CrateMap.meaning CrateMap.scope
  rw [h.scopes]

theorem source? (h : Alike c c') (t : Slot) : c'.globSources.get? t = c.globSources.get? t := by
  rw [h.globSources]

theorem readsFrom (h : Alike c c') : c'.ReadsFrom = c.ReadsFrom := by
  funext name ns a b
  unfold ReadsFrom
  rw [h.globSources, h.tree]

theorem provenance (h : Alike c c') (hp : Provenance c) : Provenance c' where
  bound t source ht := by
    rw [h.binding?]
    exact hp.bound t source (h.source? t ▸ ht)
  source_bound name ns a b hab := by
    rw [h.binding?]
    exact hp.source_bound name ns a b (h.readsFrom ▸ hab)
  acyclic name ns a := by
    rw [h.readsFrom]
    exact hp.acyclic name ns a

theorem coherent (h : Alike c c') (hc : Coherent imports c)
    (hedges : ∀ s e, e ∈ c'.edgesFrom s →
      ∃ i ∈ imports, i.kind = .glob ∧ e = { importer := i.module, visibility := i.visibility }) :
    Coherent imports c' where
  toProvenance := h.provenance hc.toProvenance
  sized := by rw [h.scopes, h.tree, hc.sized]
  inside := by rw [h.tree]; exact hc.inside
  edges := hedges

end Alike

theorem crate_alike (h : Alike c c') : c'.view.crate = c.view.crate :=
  congrArg ModuleTree.crate h.tree

theorem mem_edgesFrom_addEdge {source s : LocalId} {edge e : GlobEdge} :
    e ∈ (c.addEdge source edge).edgesFrom s ↔ e ∈ c.edgesFrom s ∨ (s = source ∧ e = edge) := by
  unfold addEdge
  split
  · next hmem =>
    refine ⟨Or.inl, ?_⟩
    rintro (h | ⟨rfl, rfl⟩)
    · exact h
    · exact hmem
  · unfold edgesFrom
    rw [Listing.get?_insert]
    by_cases hs : s = source
    · subst hs
      simp [List.mem_append]
    · simp [hs]

theorem edgesFrom_openCrate (name : Option Name) (meaning : Meaning) (macroUse : Bool)
    (s : LocalId) : (c.openCrate name meaning macroUse).edgesFrom s = c.edgesFrom s := by
  unfold openCrate
  split <;> rfl

/-! ### Changes -/

/-- One change while the import `i`, whose path has the given meaning, is carried out. -/
inductive Change (imports : List Import) (i : Import) (meaning : Meaning) (c : Collection) :
    Collection → Prop
  /-- A glob copies a binding, or something is told. -/
  | copied {c' : Collection} (h : GlobStep imports [] c c') : Change imports i meaning c c'
  /-- The import binds its name in one namespace. -/
  | bound (hk : i.kind ≠ .glob) {name : Name} (hn : i.name = some name) {ns : Namespace}
      {b : Binding} (hb : meaning.get ns = some b) :
      Change imports i meaning c
        (c.place ⟨i.module, name, ns⟩ (b.handedOn c.tree i.visibility) .named).1
  /-- The import, which stands in the root, makes a crate known everywhere. -/
  | opened {macroUse : Bool} (hk : i.kind = .externCrate macroUse) (hroot : i.module = .root) :
      Change imports i meaning c (c.openCrate i.name meaning macroUse)
  /-- The import becomes a standing connection to a module that it was found to name. -/
  | linked (hk : i.kind = .glob) (source : LocalId) (path : ItemPath)
      (hlocated : c.view.locate? path = some (c.tree.global source)) :
      Change imports i meaning c
        (c.addEdge source { importer := i.module, visibility := i.visibility })

/-- Something is told. -/
theorem Change.told {i : Import} {meaning : Meaning} (log : Log) :
    Change imports i meaning c { c with log } :=
  .copied (.told log)

theorem Change.coherent {i : Import} (hi : i ∈ imports) {meaning : Meaning}
    (hc : Coherent imports c) (h : Change imports i meaning c c') : Coherent imports c' := by
  cases h with
  | copied h => exact h.coherent hc
  | bound hk hn hb =>
    refine hc.of_frame (frame_place _ _ _ _) (hc.toProvenance.place _ ?_ (hc.mem_scopes hi))
    intro s hs
    cases hs
  | opened hk =>
    refine (Alike.openCrate c _ _ _).coherent hc fun s e he => hc.edges s e ?_
    rwa [edgesFrom_openCrate] at he
  | linked hk source =>
    refine (Alike.addEdge c _ _).coherent hc fun s e he => ?_
    rcases mem_edgesFrom_addEdge.1 he with he | ⟨-, rfl⟩
    · exact hc.edges s e he
    · exact ⟨i, hi, hk, rfl⟩

/-- Nothing is lost from one state to another: the modules stay, and what is bound or connected
stays bound or connected. -/
structure Later (c c' : Collection) : Prop where
  tree : c'.tree = c.tree
  dependencies : c'.view.dependencies = c.view.dependencies
  settled : c'.settled = c.settled
  edges : ∀ s e, e ∈ c.edgesFrom s → e ∈ c'.edgesFrom s
  bound : ∀ t, (c.map.binding? t).isSome → (c'.map.binding? t).isSome

theorem Later.refl (c : Collection) : Later c c :=
  ⟨rfl, rfl, rfl, fun _ _ h => h, fun _ h => h⟩

theorem Later.trans {c'' : Collection} (h : Later c c') (h' : Later c' c'') : Later c c'' where
  tree := h'.tree.trans h.tree
  dependencies := h'.dependencies.trans h.dependencies
  settled := h'.settled.trans h.settled
  edges s e he := h'.edges s e (h.edges s e he)
  bound t ht := h'.bound t (h.bound t ht)

theorem later_place {slot : Slot} (hr : slot.module.index < c.map.scopes.size) (b : Binding)
    (origin : Origin) : Later c (c.place slot b origin).1 := by
  have hframe := c.frame_place slot b origin
  refine ⟨hframe.tree, hframe.dependencies, hframe.settled, ?_, fun t => isSome_place hr b origin⟩
  intro s e he
  rwa [edgesFrom_frame hframe]

theorem Alike.later (h : Alike c c') (hsettled : c'.settled = c.settled)
    (hedges : ∀ s e, e ∈ c.edgesFrom s → e ∈ c'.edgesFrom s) : Later c c' :=
  ⟨h.tree, h.dependencies, hsettled, hedges, fun t ht => by rwa [h.binding?]⟩

theorem Change.later {i : Import} (hi : i ∈ imports) {meaning : Meaning} (hc : Coherent imports c)
    (h : Change imports i meaning c c') : Later c c' := by
  cases h with
  | copied h =>
    cases h with
    | told log => exact (Alike.told c log).later rfl fun _ _ he => he
    | copied hi' hk h => exact later_place (hc.mem_scopes hi') _ _
  | bound hk hn hb => exact later_place (hc.mem_scopes hi) _ _
  | @opened macroUse hk =>
    refine (Alike.openCrate c _ _ _).later ?_ fun s e he => ?_
    · unfold openCrate
      split <;> rfl
    · rwa [edgesFrom_openCrate]
  | linked hk source =>
    refine (Alike.addEdge c _ _).later ?_ fun s e he => mem_edgesFrom_addEdge.2 (Or.inl he)
    unfold addEdge
    split <;> rfl

/-! ### The names that a glob brings in -/

/-- A glob brings in what its source has and it may name, or what is public if that is of another
crate. -/
theorem brings_globNames {i : Import} {source : ModuleId} {t : Slot} {b : Binding} :
    Brings i.module (c.globNames i source) t b
      ↔ t.module = i.module ∧ ∃ b₀, (c.view.meaning source t.name).get t.space = some b₀ ∧
        (if source.crate = c.view.crate then b₀.visibility.isVisibleFrom c.tree i.module
          else b₀.visibility.isPublic) = true ∧ b = b₀.handedOn c.tree i.visibility := by
  have hentries : ∀ (scope : Scope) (b₀ : Binding),
      Brings i.module scope.entries t b₀
        ↔ t.module = i.module ∧ (Scope.meaning scope t.name).get t.space = some b₀ := by
    intro scope b₀
    unfold Brings Scope.meaning
    simp only [← Listing.get?_eq_some_iff]
    cases scope.get? t.name <;> simp
  unfold globNames View.meaning
  cases hmap : c.view.mapOf? source.crate with
  | none => simp [Brings]
  | some map =>
    simp only
    by_cases hown : source.crate = c.view.crate
    · rw [if_pos hown, brings_offered]
      simp only [hentries, if_pos hown, and_assoc, exists_and_left]
      rfl
    · rw [if_neg hown]
      refine brings_handedOn.trans ?_
      simp only [hentries, if_neg hown, and_assoc, exists_and_left]
      rfl

theorem nodup_globNames (c : Collection) (i : Import) (source : ModuleId) :
    ((c.globNames i source).map Prod.fst).Nodup := by
  unfold globNames
  split
  · exact List.nodup_nil
  · next map _ =>
    simp only
    split
    · exact nodup_offered _ _ _ (map.scope source.index).nodup
    · refine (List.filter_sublist.map Prod.fst).nodup ?_
      rw [List.map_map]
      exact (map.scope source.index).nodup

/-- The modules that the names of a source came through before a glob brings them in: the source,
if it is of the own crate. -/
def sourcePath (c : Collection) (source : ModuleId) : List LocalId :=
  if source.crate = c.view.crate then [source.index] else []

theorem mem_sourcePath {source : ModuleId} {s : LocalId} (h : source = c.tree.global s) :
    s ∈ c.sourcePath source := by
  subst h
  unfold sourcePath
  rw [if_pos (crate_global c s)]
  exact List.mem_singleton_self s

theorem incoming_globNames (c : Collection) (i : Import) (source : ModuleId) :
    Incoming (c.sourcePath source) c i source (c.globNames i source) where
  nodup := nodup_globNames c i source
  copies t b hb := by
    obtain ⟨-, b₀, hget, htest, rfl⟩ := brings_globNames.1 hb
    refine ⟨b₀, ⟨hget, ?_, ?_, ?_⟩, rfl⟩
    · split at htest
      · exact htest
      · exact Visibility.isVisibleFrom_of_isPublic htest
    · intro hforeign
      rwa [if_neg hforeign] at htest
    · intro x hx
      unfold sourcePath at hx
      split at hx
      · next hown =>
        refine ⟨source.index, eq_global_of_crate_eq hown, ?_⟩
        rw [List.mem_singleton.1 hx]
      · cases hx

/-! ### The walk of an import -/

/-- The bindings of the name that an import binds come to it one after the other. -/
theorem placeStates_walk_named {i : Import} {meaning : Meaning} (hk : i.kind ≠ .glob) {name : Name}
    (hn : i.name = some name) {ps : List (Slot × Binding)}
    (hps : ∀ p ∈ ps, ∃ ns b, meaning.get ns = some b ∧
      p = (⟨i.module, name, ns⟩, b.handedOn c.tree i.visibility)) :
    Walk (Change imports i meaning) c (placeStates .named c ps) (placeAll .named c ps) := by
  induction ps generalizing c with
  | nil => exact .nil c
  | cons p ps ih =>
    obtain ⟨ns, b, hb, rfl⟩ := hps p List.mem_cons_self
    refine .cons (.bound hk hn hb) (ih fun p hp => ?_)
    rw [(c.frame_place _ _ _).tree]
    exact hps p (List.mem_cons_of_mem _ hp)

/-- What an import brings to its name. -/
theorem brings_named {t : ModuleTree} {visibility : Visibility} {m : LocalId} {name : Name}
    {meaning : Meaning} {slot : Slot} {b : Binding} :
    Brings m [(name, meaning.handedOn t visibility)] slot b
      ↔ slot = ⟨m, name, slot.space⟩ ∧ ∃ b₀, meaning.get slot.space = some b₀ ∧
        b = b₀.handedOn t visibility := by
  obtain ⟨m', name', ns⟩ := slot
  simp only [Brings, List.mem_singleton, Prod.mk.injEq, Slot.mk.injEq, and_true]
  constructor
  · rintro ⟨rfl, _, ⟨rfl, rfl⟩, hget⟩
    rw [Meaning.get_handedOn, Option.map_eq_some_iff] at hget
    obtain ⟨b₀, hb₀, rfl⟩ := hget
    exact ⟨⟨rfl, rfl⟩, b₀, hb₀, rfl⟩
  · rintro ⟨⟨rfl, rfl⟩, b₀, hb₀, rfl⟩
    exact ⟨rfl, _, ⟨rfl, rfl⟩, by rw [Meaning.get_handedOn, hb₀]; rfl⟩

/-- The state in which what the path of an import means has come to the name that it binds, and what
changed there, which is still to be handed on. -/
def naming (c : Collection) (i : Import) (name : Name) (meaning : Meaning) :
    Collection × List (Name × Meaning) :=
  (c.tellBinding i name).mergeAll i.module [(name, meaning.handedOn c.tree i.visibility)] .named

/-- Binding the name of an import, in two parts. -/
theorem bindName_eq (limit : Nat) {i : Import} {name : Name} (hn : i.name = some name)
    (meaning : Meaning) :
    c.bindName limit i meaning =
      if (c.naming i name meaning).2.isEmpty then .ok (c.naming i name meaning).1
      else ((c.naming i name meaning).1.edgesFrom i.module).foldlM
        (handOn (update limit limit) i.module (c.naming i name meaning).2)
        (c.naming i name meaning).1 := by
  unfold bindName
  rw [hn]
  rfl

section Naming

variable {i : Import} (hc : Coherent imports c) (hi : i ∈ imports) (name : Name) (meaning : Meaning)

include hc hi

theorem mem_scopes_tellBinding : i.module.index < (c.tellBinding i name).map.scopes.size :=
  (hc.told _).mem_scopes hi

theorem tree_naming : (c.naming i name meaning).1.tree = c.tree :=
  (frame_mergeAll (mem_scopes_tellBinding hc hi name) (nodup_named name _) .named).tree

theorem coherent_naming : Coherent imports (c.naming i name meaning).1 :=
  coherent_mergeAll_named (hc.told _) (mem_scopes_tellBinding hc hi name) (nodup_named name _)

theorem forwarding_naming : Forwarding [i.module] (c.naming i name meaning).1 i.module
    (c.naming i name meaning).2 :=
  forwarding_named (mem_scopes_tellBinding hc hi name) (nodup_named name _)

/-- What changed in the name of an import is handed on step by step. -/
theorem handOn_naming_walk (limit : Nat) :
    Traces (GlobStep imports [i.module]) (c.naming i name meaning).1
      (loopStates (handOn (update limit limit) i.module (c.naming i name meaning).2)
        (handOnStates (updateStates limit limit) i.module (c.naming i name meaning).2)
        (c.naming i name meaning).1 ((c.naming i name meaning).1.edgesFrom i.module))
      (((c.naming i name meaning).1.edgesFrom i.module).foldlM
        (handOn (update limit limit) i.module (c.naming i name meaning).2)
        (c.naming i name meaning).1) := by
  refine handOn_walk (update limit limit) (updateStates limit limit) ?_
    (coherent_naming hc hi name meaning) (forwarding_naming hc hi name meaning)
  intro c₁ i' news hc₁ hi' hk' hin
  exact update_walk limit limit hc₁ hi' hk' (fun s hs => mem_cons_of_global c₁.tree [] hs) hin

end Naming

/-- The states while the name of an import is bound are joined by changes. -/
theorem name_walk (limit : Nat) {i : Import} {meaning : Meaning} (hc : Coherent imports c)
    (hi : i ∈ imports) (hk : i.kind ≠ .glob) :
    Traces (Change imports i meaning) c (c.nameStates limit i meaning)
      (c.bindName limit i meaning) := by
  unfold nameStates
  cases hn : i.name with
  | none =>
    refine ⟨c, .nil c, fun c' h => ?_⟩
    unfold bindName at h
    rw [hn] at h
    cases h
    rfl
  | some name =>
    rw [bindName_eq limit hn]
    have htold : Change imports i meaning c (c.tellBinding i name) := .told _
    have hm := mem_scopes_tellBinding hc hi name
    have hnd := nodup_named name (meaning.handedOn c.tree i.visibility)
    have hmerge : Walk (Change imports i meaning) (c.tellBinding i name)
        (placeStates .named (c.tellBinding i name)
          (placements i.module [(name, meaning.handedOn c.tree i.visibility)]))
        (c.naming i name meaning).1 := by
      unfold naming
      rw [(c.tellBinding i name).mergeAll_eq hm hnd]
      refine placeStates_walk_named hk hn fun p hp => ?_
      obtain ⟨hslot, b₀, hb₀, hb⟩ := brings_named.1 (mem_placements.1 hp)
      exact ⟨p.1.space, b₀, hb₀, Prod.ext hslot hb⟩
    dsimp only
    rw [updateStates]
    change ∃ d, Walk _ c (c.tellBinding i name :: (_ ++ if (c.naming i name meaning).2.isEmpty then _
      else loopStates _ _ (c.naming i name meaning).1 _)) d ∧ _
    split
    · exact ⟨_, .cons htold (hmerge.append (.nil _)), fun c' h => by cases h; rfl⟩
    · -- What is handed on is copied by globs, which is one of the changes.
      obtain ⟨d, hloop, hend⟩ := handOn_naming_walk hc hi name meaning limit
      have hloop' : Walk (Change imports i meaning) _ _ d := hloop.mono fun a b hab =>
        .copied (hab.mono fun x hx => absurd hx List.not_mem_nil)
      exact ⟨d, .cons htold (hmerge.append hloop'), hend⟩

/-- The states while the names of a glob are brought in are joined by changes. -/
theorem glob_walk (limit : Nat) {i : Import} {meaning : Meaning} (hc : Coherent imports c)
    (hi : i ∈ imports) (hk : i.kind = .glob) :
    Traces (Change imports i meaning) c (c.globStates limit i meaning)
      (c.openGlob limit i meaning) := by
  unfold globStates openGlob
  cases htarget : meaning.types.filter Binding.isModuleOrEnum with
  | none => exact ⟨_, .cons (.told _) (.nil _), fun c' h => by cases h; rfl⟩
  | some target =>
    simp only [Option.bind_some]
    cases hlocate : c.view.locate? target.path with
    | none => exact ⟨c, .cons (.told c.log) (.nil _), fun c' h => by cases h; rfl⟩
    | some source =>
      simp only
      have htold : Change imports i meaning c (c.tellGlob i (c.globNames i source)) := .told _
      obtain ⟨d, hwalk, hend⟩ := update_walk limit (limit + 1) (hc.told _) hi hk
        (fun s hs => mem_sourcePath hs)
        (incoming_globNames (c.tellGlob i (c.globNames i source)) i source)
      have hwalk' : Walk (Change imports i meaning) _ _ d := hwalk.mono fun a b hab =>
        .copied (hab.mono fun x hx => absurd hx List.not_mem_nil)
      unfold receive
      cases hr : update limit (limit + 1) (c.tellGlob i (c.globNames i source)) i.module
        (c.globNames i source) (.glob source) with
      | error e => exact ⟨d, .cons htold (hwalk'.append (.nil d)), fun c' h => by cases h⟩
      | ok c₁ =>
        obtain rfl := hend c₁ hr
        have hframe := (walk_keeps (hc.told _) hwalk).2.1.frame
        have hlink : Change imports i meaning c₁ (c₁.linkGlob i source) := by
          unfold linkGlob
          split
          · next hown =>
            refine .linked hk _ target.path ?_
            rw [View.locate?_congr hframe.tree hframe.dependencies, ← eq_global_of_crate_eq hown]
            exact hlocate
          · exact .told c₁.log
        exact ⟨_, .cons htold (hwalk'.append (.cons hlink (.nil _))), fun c' h => by cases h; rfl⟩

/-- The states while an import is carried out are joined by changes. -/
theorem carryOut_walk (limit : Nat) {i : Import} (meaning : Meaning) (hc : Coherent imports c)
    (hi : i ∈ imports) :
    Traces (Change imports i meaning) c (c.carryOutStates limit i meaning)
      (c.carryOut limit i meaning) := by
  unfold carryOutStates carryOut
  cases hk : i.kind with
  | glob => exact glob_walk limit hc hi hk
  | named => exact name_walk limit hc hi (by rw [hk]; exact ImportKind.noConfusion)
  | externCrate macroUse =>
    have hk' : i.kind ≠ .glob := by rw [hk]; exact ImportKind.noConfusion
    simp only
    split
    · next hroot =>
      have hopened : Change imports i meaning c (c.openCrate i.name meaning macroUse) :=
        .opened hk hroot
      obtain ⟨d, hwalk, hend⟩ := name_walk limit (hopened.coherent hi hc) hi hk'
      exact ⟨d, .cons hopened hwalk, hend⟩
    · exact name_walk limit hc hi hk'

/-- While an import is carried out nothing is lost from one state to any later one. -/
theorem carryOut_later (limit : Nat) {i : Import} (meaning : Meaning) (hc : Coherent imports c)
    (hi : i ∈ imports) :
    (c :: c.carryOutStates limit i meaning).Pairwise Later ∧
      ∀ c', c.carryOut limit i meaning = .ok c' →
        ∀ a ∈ c :: c.carryOutStates limit i meaning, Later a c' := by
  obtain ⟨d, hwalk, hend⟩ := carryOut_walk limit meaning hc hi
  have hwalk' := hwalk.with_invariant (P := Coherent imports) (fun _ _ hab => hab.coherent hi) hc
  obtain ⟨hpairs, hlast⟩ := hwalk'.pairwise (R := Later) Later.refl
    fun _ _ _ hab hl => hl.trans (hab.2.later hi hab.1)
  refine ⟨hpairs, fun c' h a ha => ?_⟩
  obtain rfl := hend c' h
  exact hlast a ha

/-- What carrying an import out keeps. -/
theorem carryOut_keeps {limit : Nat} {i : Import} {meaning : Meaning} (hc : Coherent imports c)
    (hi : i ∈ imports) (h : c.carryOut limit i meaning = .ok c') :
    Coherent imports c' ∧ Later c c' := by
  obtain ⟨d, hwalk, hend⟩ := carryOut_walk limit meaning hc hi
  obtain rfl := hend c' h
  exact ⟨(hwalk.invariant (fun _ _ hab ha => hab.coherent hi ha) hc).2,
    (carryOut_later limit meaning hc hi).2 c' h c List.mem_cons_self⟩

/-- An import that is no glob binds its name, after it opened a crate at most. -/
theorem bindName_of_carryOut {limit : Nat} {i : Import} {meaning : Meaning}
    (hc : Coherent imports c) (hi : i ∈ imports) (hk : i.kind ≠ .glob)
    (h : c.carryOut limit i meaning = .ok c') :
    ∃ d, Coherent imports d ∧ Alike c d ∧ d.bindName limit i meaning = .ok c' := by
  unfold carryOut at h
  cases hkind : i.kind with
  | glob => exact absurd hkind hk
  | named =>
    simp only [hkind] at h
    exact ⟨c, hc, .of_eq rfl, h⟩
  | externCrate macroUse =>
    simp only [hkind] at h
    split at h
    · next hroot =>
      have hopened : Change imports i meaning c (c.openCrate i.name meaning macroUse) :=
        .opened hkind hroot
      exact ⟨_, hopened.coherent hi hc, .openCrate c _ _ _, h⟩
    · exact ⟨c, hc, .of_eq rfl, h⟩

/-! ### What holds in every state of a course -/

namespace Course

variable {limit : Nat} {start : Collection} {past : List Collection} {hand : Option SettledImport}

/-- If taking an import up, every change, and recording it keep a property, then it holds in every
state of a course.  The property may depend on the import that is in hand. -/
theorem invariant {P : Option SettledImport → Collection → Prop}
    (hcoherent : Coherent imports start) (hstart : P none start)
    (hlog : ∀ c log, P none c → P none { c with log })
    (htake : ∀ c i, i ∈ imports → ∀ meaning, (c.status i).meaning? = some meaning → P none c →
      P (some ⟨i, c.status i⟩) c)
    (hchange : ∀ x : SettledImport, x.declaration ∈ imports → ∀ meaning,
      x.status.meaning? = some meaning → ∀ c c', Coherent imports c →
      Change imports x.declaration meaning c c' → P (some x) c → P (some x) c')
    (hrecord : ∀ c x, P (some x) c → P none { c with settled := c.settled ++ [x] })
    (hgiveUp : ∀ c i, P none c → P none (c.giveUp i))
    (h : Course limit imports start past hand c) : Coherent imports c ∧ P hand c := by
  induction h with
  | start => exact ⟨hcoherent, hstart⟩
  | @told past c h log ih =>
    exact ⟨(Alike.told c log).coherent ih.1 ih.1.edges, hlog c log ih.2⟩
  | @within past c h i hi meaning hm before now after hs ih =>
    -- The state is one of those that the changes of the import in hand join.
    obtain ⟨hc, hP⟩ := ih
    obtain ⟨d, hwalk, -⟩ := carryOut_walk limit meaning hc hi
    have hall := (hwalk.invariant (P := fun a => Coherent imports a ∧ P (some ⟨i, c.status i⟩) a)
      (fun a b hab ha => ⟨hab.coherent hi ha.1, hchange _ hi _ hm a b ha.1 hab ha.2⟩)
      ⟨hc, htake c i hi meaning hm hP⟩).1
    exact hall now (by rw [hs]; simp)
  | @settled past c h i hi meaning hm c' hok ih =>
    obtain ⟨hc, hP⟩ := ih
    obtain ⟨d, hwalk, hend⟩ := carryOut_walk limit meaning hc hi
    obtain ⟨hcd, hPd⟩ := (hwalk.invariant
      (P := fun a => Coherent imports a ∧ P (some ⟨i, c.status i⟩) a)
      (fun a b hab ha => ⟨hab.coherent hi ha.1, hchange _ hi _ hm a b ha.1 hab ha.2⟩)
      ⟨hc, htake c i hi meaning hm hP⟩).2
    obtain ⟨c₁, hr, hok⟩ := ok_of_bind hok
    cases hok
    obtain rfl := hend c₁ hr
    exact ⟨(Alike.settled c₁ _).coherent hcd hcd.edges, hrecord c₁ _ hPd⟩
  | @givenUp past c h i ih =>
    exact ⟨(Alike.giveUp c i).coherent ih.1 ih.1.edges, hgiveUp c i ih.2⟩

theorem coherent (hcoherent : Coherent imports start)
    (h : Course limit imports start past hand c) : Coherent imports c :=
  (h.invariant (P := fun _ _ => True) hcoherent trivial (fun _ _ _ => trivial)
    (fun _ _ _ _ _ _ => trivial) (fun _ _ _ _ _ _ _ _ _ => trivial) (fun _ _ _ => trivial)
    (fun _ _ _ => trivial)).1

/-- What carrying an import out as a whole keeps holds in every state between two imports. -/
theorem invariant_between {P : Collection → Prop} (hcoherent : Coherent imports start)
    (hstart : P start) (hlog : ∀ c log, P c → P { c with log })
    (hsettle : ∀ c i, Coherent imports c → i ∈ imports → ∀ meaning,
      (c.status i).meaning? = some meaning → ∀ d, c.carryOut limit i meaning = .ok d → P c →
      P { d with settled := d.settled ++ [⟨i, c.status i⟩] })
    (hgiveUp : ∀ c i, P c → P (c.giveUp i))
    (h : Course limit imports start past hand c) : hand = none → P c := by
  induction h with
  | start => exact fun _ => hstart
  | told h log ih => exact fun _ => hlog _ _ (ih rfl)
  | within => exact fun hnone => by cases hnone
  | settled h hi hm hok ih =>
    intro _
    obtain ⟨d, hd, hok⟩ := ok_of_bind hok
    cases hok
    exact hsettle _ _ (h.coherent hcoherent) hi _ hm d hd (ih rfl)
  | givenUp h i ih => exact fun _ => hgiveUp _ _ (ih rfl)

end Course

end Collection

end CrateScope
