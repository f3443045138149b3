import CrateScope.Proofs.Opening
import Mathlib

/-!
# Globs lose no name

A glob brings the names of its source in at once, and hands on later what the source gains or
replaces.  Together the two leave nothing out: whatever the source has in the end and the glob may
name, the importing module has as well, from there or from elsewhere.

In the middle of an update this fails for the globs that still have to be gone through, the outer
ones of a nest included.  These are the only exceptions, and each round of the loop over the globs
removes one.

What a slot has through a glob of a module is then what one of the globs between the two modules
hands on of what that module has.  There can be several of them, with different visibilities, and
the one whose names came last counts.

## Main definitions

* `Collection.SuppliedAt` — a glob has delivered one name in one namespace.
* `Collection.SuppliedBut` — the globs have delivered everything but what is pending.
* `Collection.CarriedAt`, `Collection.CarriedBut` — the same as far as items are concerned.
* `Collection.Arrived` — names that were brought to a module have arrived there.
* `SettledImport.source?` — the module that a glob import was found to name.

## Main results

* `Collection.update_delivers` — an update leaves nothing new pending.
* `globs_lose_no_name` — what every glob import has delivered when a crate is finished.
-/

namespace CrateScope

namespace Collection

variable {imports : List Import} {passed : List LocalId} {c c' : Collection}
  {granted : LocalId → GlobEdge → Prop} {pending : LocalId → GlobEdge → Name → Namespace → Prop}

/-! ### What globs have delivered -/

/-- If the module `s` has a name in a namespace and the module `m` may name it, then `m` has the
name too; and if it has it through a glob that reads from `s`, then as one of the globs in `granted`
hands it on. -/
def SuppliedAt (granted : LocalId → GlobEdge → Prop) (c : Collection) (s m : LocalId) (name : Name)
    (ns : Namespace) : Prop :=
  ∀ b, c.map.binding? ⟨s, name, ns⟩ = some b → b.visibility.isVisibleFrom c.tree m = true →
    ∃ b', c.map.binding? ⟨m, name, ns⟩ = some b' ∧
      (c.globSources.get? ⟨m, name, ns⟩ = some (c.tree.global s) →
        ∃ e, granted s e ∧ e.importer = m ∧ b' = b.handedOn c.tree e.visibility)

/-- Every glob has delivered everything, with some exceptions. -/
def SuppliedBut (granted : LocalId → GlobEdge → Prop)
    (pending : LocalId → GlobEdge → Name → Namespace → Prop) (c : Collection) : Prop :=
  ∀ s e, e ∈ c.edgesFrom s → ∀ name ns,
    pending s e name ns ∨ c.SuppliedAt granted s e.importer name ns

/-- If the module `s` has a name in a namespace and the module `m` may name it, then `m` has the
name too; and if it has it through a glob that reads from `s`, both are the same item. -/
def CarriedAt (c : Collection) (s m : LocalId) (name : Name) (ns : Namespace) : Prop :=
  ∀ b, c.map.binding? ⟨s, name, ns⟩ = some b → b.visibility.isVisibleFrom c.tree m = true →
    ∃ b', c.map.binding? ⟨m, name, ns⟩ = some b' ∧
      (c.globSources.get? ⟨m, name, ns⟩ = some (c.tree.global s) → b'.path = b.path)

/-- Every glob has delivered the same items, with some exceptions. -/
def CarriedBut (pending : LocalId → GlobEdge → Name → Namespace → Prop) (c : Collection) : Prop :=
  ∀ s e, e ∈ c.edgesFrom s → ∀ name ns, pending s e name ns ∨ c.CarriedAt s e.importer name ns

/-- What is pending while changed names of the module `m` are handed on along some globs. -/
def PendingFrom (m : LocalId) (changed : List (Name × Meaning)) (edges : List GlobEdge)
    (s : LocalId) (e : GlobEdge) (name : Name) (ns : Namespace) : Prop :=
  s = m ∧ e ∈ edges ∧ ∃ b, Brings m changed ⟨m, name, ns⟩ b

/-- All standing globs are among those in `granted`. -/
def Grants (granted : LocalId → GlobEdge → Prop) (c : Collection) : Prop :=
  ∀ s e, e ∈ c.edgesFrom s → granted s e

theorem Grants.frame (h : Grants granted c) (hf : Frame c c') : Grants granted c' :=
  fun s e he => h s e (edgesFrom_frame hf s ▸ he)

/-- What was brought to a module is bound there, and it is unchanged where it is marked with the
source. -/
def Arrived (c : Collection) (source : ModuleId) (m : LocalId) (news : List (Name × Meaning)) :
    Prop :=
  ∀ t b, Brings m news t b → ∃ b', c.map.binding? t = some b' ∧
    (c.globSources.get? t = some source → b' = b)

theorem SuppliedAt.carriedAt {s m : LocalId} {name : Name} {ns : Namespace}
    (h : c.SuppliedAt granted s m name ns) : c.CarriedAt s m name ns := by
  intro b hb hv
  obtain ⟨b', hb', hsource⟩ := h b hb hv
  refine ⟨b', hb', fun hmark => ?_⟩
  obtain ⟨e, -, -, rfl⟩ := hsource hmark
  rfl

theorem SuppliedBut.carriedBut (h : SuppliedBut granted pending c) : CarriedBut pending c :=
  fun s e he name ns => (h s e he name ns).imp_right SuppliedAt.carriedAt

theorem suppliedAt_alike (h : Alike c c') {s m : LocalId} {name : Name} {ns : Namespace} :
    c'.SuppliedAt granted s m name ns ↔ c.SuppliedAt granted s m name ns := by
  unfold SuppliedAt
  rw [h.tree]
  simp only [h.binding?, h.globSources]

theorem SuppliedBut.alike (h : SuppliedBut granted pending c) (halike : Alike c c')
    (hedges : ∀ s, c'.edgesFrom s = c.edgesFrom s) : SuppliedBut granted pending c' := by
  intro s e he name ns
  rw [hedges] at he
  rw [suppliedAt_alike halike]
  exact h s e he name ns

theorem SuppliedBut.told (h : SuppliedBut granted pending c) (log : Log) :
    SuppliedBut granted pending { c with log } :=
  h.alike (Alike.told c log) fun _ => rfl

/-- It does no harm to grant more. -/
theorem SuppliedBut.mono {granted' : LocalId → GlobEdge → Prop}
    (hsub : ∀ s e, granted s e → granted' s e) (h : SuppliedBut granted pending c) :
    SuppliedBut granted' pending c := by
  intro s e he name ns
  refine (h s e he name ns).imp_right fun hsupplied b hb hv => ?_
  obtain ⟨b', hb', hsource⟩ := hsupplied b hb hv
  refine ⟨b', hb', fun hmark => ?_⟩
  obtain ⟨e', he', hm, heq⟩ := hsource hmark
  exact ⟨e', hsub s e' he', hm, heq⟩

/-! ### Names that come to a module -/

section MergeAll

variable {m : LocalId} (hm : m.index < c.map.scopes.size) {news : List (Name × Meaning)}
  (hnd : (news.map Prod.fst).Nodup) (origin : Origin)
  (hgrant : ∀ s, origin = .glob (c.tree.global s) → ∀ t b, Brings m news t b →
    ∃ b₀, c.map.binding? ⟨s, t.name, t.space⟩ = some b₀ ∧
      ∃ e, granted s e ∧ e.importer = m ∧ b = b₀.handedOn c.tree e.visibility)

include hm hnd hgrant

/-- What a glob has delivered stays delivered when names come to a module, as long as its source
does not change. -/
theorem SuppliedAt.mergeAll {s k : LocalId} {name : Name} {ns : Namespace}
    (hsame : (c.mergeAll m news origin).1.map.binding? ⟨s, name, ns⟩
      = c.map.binding? ⟨s, name, ns⟩)
    (h : c.SuppliedAt granted s k name ns) :
    (c.mergeAll m news origin).1.SuppliedAt granted s k name ns := by
  intro b hb hv
  rw [hsame] at hb
  rw [(frame_mergeAll hm hnd origin).tree] at hv ⊢
  obtain ⟨b', hb', hsource⟩ := h b hb hv
  by_cases hbrings : ∃ b₁, Brings m news ⟨k, name, ns⟩ b₁
  · obtain ⟨b₁, hb₁⟩ := hbrings
    rw [binding?_mergeAll hm hnd origin hb₁, source?_mergeAll hm hnd origin hb₁]
    split
    · -- The slot took what was brought: if that came from `s`, it is what `s` has.
      refine ⟨b₁, rfl, fun hmark => ?_⟩
      cases origin with
      | named => cases hmark
      | glob source =>
        cases hmark
        obtain ⟨b₀, hb₀, e, he, him, rfl⟩ := hgrant s rfl _ b₁ hb₁
        obtain rfl : k = m := hb₁.1
        rw [Option.some.inj (hb₀.symm.trans hb)]
        exact ⟨e, he, him, rfl⟩
    · exact ⟨b', hb', hsource⟩
  · obtain ⟨hbinding, hmark⟩ := mergeAll_of_not_brings hm hnd origin fun b₁ h₁ => hbrings ⟨b₁, h₁⟩
    rw [hbinding, hmark]
    exact ⟨b', hb', hsource⟩

/-- When names come to a module, what changed there becomes pending along its globs. -/
theorem SuppliedBut.mergeAll (h : SuppliedBut granted pending c) :
    SuppliedBut granted (fun s e name ns => pending s e name ns ∨
      PendingFrom m (c.mergeAll m news origin).2 ((c.mergeAll m news origin).1.edgesFrom m)
        s e name ns) (c.mergeAll m news origin).1 := by
  intro s e he name ns
  by_cases hchanged : s = m ∧ ∃ b, Brings m (c.mergeAll m news origin).2 ⟨m, name, ns⟩ b
  · obtain ⟨rfl, b, hb⟩ := hchanged
    exact Or.inl (Or.inr ⟨rfl, he, b, hb⟩)
  · have hsame : (c.mergeAll m news origin).1.map.binding? ⟨s, name, ns⟩
        = c.map.binding? ⟨s, name, ns⟩ := by
      refine binding?_mergeAll_of_not_changed hm hnd origin fun b hb => hchanged ?_
      obtain rfl : s = m := hb.1
      exact ⟨rfl, b, hb⟩
    rw [edgesFrom_frame (frame_mergeAll hm hnd origin)] at he
    rcases h s e he name ns with hpending | hcarried
    · exact Or.inl (Or.inl hpending)
    · exact Or.inr (hcarried.mergeAll hm hnd origin hgrant hsame)

end MergeAll

/-- Where nothing changed nothing is pending. -/
theorem SuppliedBut.of_isEmpty {m : LocalId} {changed : List (Name × Meaning)}
    {edges : List GlobEdge}
    (h : SuppliedBut granted (fun s e name ns => pending s e name ns ∨
      PendingFrom m changed edges s e name ns) c) (hempty : changed.isEmpty = true) :
    SuppliedBut granted pending c := by
  intro s e he name ns
  rcases h s e he name ns with (hpending | ⟨-, -, b, -, meaning, hmem, -⟩) | hcarried
  · exact Or.inl hpending
  · rw [List.isEmpty_iff.1 hempty] at hmem
    cases hmem
  · exact Or.inr hcarried

/-! ### The loop over the globs -/

/-- One round of the loop over the globs delivers what was pending along its glob. -/
theorem suppliedAt_of_round {m : LocalId} {changed : List (Name × Meaning)} {i : Import}
    (hf : Forwarding passed c m changed) (htree : c'.tree = c.tree) (hspares : Spares passed c c')
    (hgranted : granted m { importer := i.module, visibility := i.visibility })
    (harrived : Arrived c' (c.tree.global m) i.module
      (offered c.tree i.module i.visibility changed))
    {name : Name} {ns : Namespace} {b : Binding} (hb : Brings m changed ⟨m, name, ns⟩ b) :
    c'.SuppliedAt granted m i.module name ns := by
  intro b₁ hb₁ hv
  rw [(hspares ⟨m, name, ns⟩ hf.mem).1, hf.held _ b hb] at hb₁
  cases hb₁
  rw [htree] at hv ⊢
  obtain ⟨b', hb', hsource⟩ := harrived ⟨i.module, name, ns⟩ (b.handedOn c.tree i.visibility)
    (brings_offered.2 ⟨b, hb.at, hv, rfl⟩)
  exact ⟨b', hb', fun hmark => ⟨_, hgranted, rfl, hsource hmark⟩⟩

section Handing

variable {limit depth : Nat} {m : LocalId} {changed : List (Name × Meaning)}
  (hupdate : ∀ {c c' : Collection} {i : Import} {news : List (Name × Meaning)}
    {pending : LocalId → GlobEdge → Name → Namespace → Prop}, Coherent imports c → i ∈ imports →
    i.kind = .glob → Incoming passed c i (c.tree.global m) news → Grants granted c →
    granted m { importer := i.module, visibility := i.visibility } → SuppliedBut granted pending c →
    update limit depth c i.module news (.glob (c.tree.global m)) = .ok c' →
    SuppliedBut granted pending c' ∧ Arrived c' (c.tree.global m) i.module news)

include hupdate

/-- One round of the loop leaves the other globs as they were. -/
theorem handOn_round_delivers {i : Import} (hi : i ∈ imports) (hk : i.kind = .glob)
    (hc : Coherent imports c) (hf : Forwarding passed c m changed) (hgrants : Grants granted c)
    (hgranted : granted m { importer := i.module, visibility := i.visibility })
    (hsupplied : SuppliedBut granted pending c)
    (h : handOn (update limit depth) m changed c
      { importer := i.module, visibility := i.visibility } = .ok c') :
    Coherent imports c' ∧ Forwarding passed c' m changed ∧ Grants granted c' ∧
      SuppliedBut granted pending c' ∧
      ∀ name ns b, Brings m changed ⟨m, name, ns⟩ b → c'.SuppliedAt granted m i.module name ns := by
  unfold handOn at h
  simp only at h
  split at h
  · next hempty =>
    cases h
    refine ⟨hc, hf, hgrants, hsupplied, fun name ns b hb b₁ hb₁ hv => ?_⟩
    rw [hf.held _ b hb] at hb₁
    cases hb₁
    -- Had the glob been allowed to name the binding, it would have been offered.
    obtain ⟨-, meaning, hmem, -⟩ :=
      brings_offered.2 ⟨b, (hb.at : Brings i.module changed _ b), hv, rfl⟩
    rw [List.isEmpty_iff.1 hempty] at hmem
    cases hmem
  · obtain ⟨htold, hct, hin⟩ := hf.incoming_told hc i
    obtain ⟨hsupplied', harrived⟩ :=
      hupdate hct hi hk hin hgrants hgranted (hsupplied.told _) h
    obtain ⟨hc', hgrows, hspares⟩ := update_keeps hct hi hk
      (fun s hs => global_injective c.tree hs ▸ hf.mem) hin h
    have hspares' := (htold.spares hc).trans hspares
    have hf' := hf.keep hc.toProvenance ((htold.grows hc).trans hgrows) hspares'
    refine ⟨hc', hf', hgrants.frame ((Frame.told c _).trans hgrows.frame), hsupplied', ?_⟩
    intro name ns b hb
    exact suppliedAt_of_round hf hgrows.frame.tree hspares' hgranted harrived hb

/-- The loop over the globs of a module delivers what is pending along them. -/
theorem handOn_delivers {edges : List GlobEdge} (hedges : ∀ e ∈ edges, granted m e ∧
      ∃ i ∈ imports, i.kind = .glob ∧ e = { importer := i.module, visibility := i.visibility })
    (hc : Coherent imports c) (hf : Forwarding passed c m changed) (hgrants : Grants granted c)
    (hsupplied : SuppliedBut granted (fun s e name ns => pending s e name ns ∨
      PendingFrom m changed edges s e name ns) c)
    (h : edges.foldlM (handOn (update limit depth) m changed) c = .ok c') :
    SuppliedBut granted pending c' := by
  induction edges generalizing c with
  | nil =>
    cases h
    intro s e he name ns
    rcases hsupplied s e he name ns with (hpending | ⟨-, hmem, -⟩) | hsupplied
    · exact Or.inl hpending
    · cases hmem
    · exact Or.inr hsupplied
  | cons e edges ih =>
    obtain ⟨hgranted, i, hi, hk, rfl⟩ := hedges e List.mem_cons_self
    have hedges' := fun e he => hedges e (List.mem_cons_of_mem _ he)
    rw [List.foldlM_cons] at h
    obtain ⟨c₁, hround, hrest⟩ := ok_of_bind h
    obtain ⟨hc₁, hf₁, hgrants₁, hsupplied₁, hdelivered⟩ :=
      handOn_round_delivers hupdate hi hk hc hf hgrants hgranted hsupplied hround
    refine ih hedges' hc₁ hf₁ hgrants₁ ?_ hrest
    -- The glob of this round is not pending any more.
    intro s e he name ns
    rcases hsupplied₁ s e he name ns with (hpending | ⟨rfl, hmem, b, hb⟩) | hsupplied
    · exact Or.inl (Or.inl hpending)
    · rcases List.mem_cons.1 hmem with rfl | hmem
      · exact Or.inr (hdelivered name ns b hb)
      · exact Or.inl (Or.inr ⟨rfl, hmem, b, hb⟩)
    · exact Or.inr hsupplied

end Handing

/-! ### Updates -/

/-- What a glob brings in is what it hands on of what its source has. -/
theorem granted_of_incoming {i : Import} {source : ModuleId} {news : List (Name × Meaning)}
    (hin : Incoming passed c i source news) (s : LocalId)
    (hgranted : granted s { importer := i.module, visibility := i.visibility })
    (hs : source = c.tree.global s) (t : Slot) (b : Binding) (hb : Brings i.module news t b) :
    ∃ b₀, c.map.binding? ⟨s, t.name, t.space⟩ = some b₀ ∧
      ∃ e, granted s e ∧ e.importer = i.module ∧ b = b₀.handedOn c.tree e.visibility := by
  subst hs
  obtain ⟨b₀, hcopies, rfl⟩ := hin.copies t b hb
  exact ⟨b₀, hcopies.isSome, _, hgranted, rfl, rfl⟩

section Incoming

variable {i : Import} (hc : Coherent imports c) (hi : i ∈ imports) (hk : i.kind = .glob)
  {source : ModuleId} (hself : ∀ s, source = c.tree.global s → s ∈ passed)
  {news : List (Name × Meaning)} (hin : Incoming passed c i source news)

include hc hi hin

/-- What a glob brings in has arrived as soon as it was merged. -/
theorem arrived_mergeAll :
    Arrived (c.mergeAll i.module news (.glob source)).1 source i.module news := by
  intro t b hb
  rw [binding?_mergeAll (hc.mem_scopes hi) hin.nodup _ hb,
    source?_mergeAll (hc.mem_scopes hi) hin.nodup _ hb]
  split
  · exact ⟨b, rfl, fun _ => rfl⟩
  · next hnot =>
    cases hold : c.map.binding? t with
    | none => exact absurd (Or.inl hold) hnot
    | some b' => exact ⟨b', rfl, fun hmark => absurd (Or.inr hmark) hnot⟩

include hk hself

/-- An update that a glob set off delivers what it brings, and leaves nothing new pending. -/
theorem update_delivers (limit depth : Nat) (hgrants : Grants granted c)
    (hown : ∀ s, source = c.tree.global s →
      granted s { importer := i.module, visibility := i.visibility })
    (hsupplied : SuppliedBut granted pending c)
    (h : update limit depth c i.module news (.glob source) = .ok c') :
    SuppliedBut granted pending c' ∧ Arrived c' source i.module news := by
  induction depth generalizing c c' i source news passed pending with
  | zero => cases h
  | succ depth ih =>
    have hmerged := hsupplied.mergeAll (hc.mem_scopes hi) hin.nodup _
      fun s hs => granted_of_incoming hin s (hown s (Origin.glob.inj hs)) (Origin.glob.inj hs)
    have harrived := arrived_mergeAll hc hi hin
    rw [update] at h
    simp only at h
    split at h
    · next hempty =>
      cases h
      exact ⟨hmerged.of_isEmpty hempty, harrived⟩
    · obtain ⟨hcm, hgrows, -⟩ := walk_keeps hc (mergeAll_walk hc hi hk hself hin)
      have hf := forwarding_glob hc hi hk hself hin
      have hgrants' := hgrants.frame hgrows.frame
      have hself' : ∀ (c₁ : Collection) s, c₁.tree.global i.module = c₁.tree.global s →
          s ∈ i.module :: passed := fun c₁ s hs => mem_cons_of_global c₁.tree passed hs
      have hkeeps := handOn_keeps (fun c₁ i' news' hc₁ hi' hk' hin' =>
        update_walk limit depth hc₁ hi' hk' (hself' c₁) hin') hcm hf h
      refine ⟨handOn_delivers (fun {c₁ _ _ _ _} hc₁ hi' hk' hin' hgrants₁ hgranted hsupplied' h' =>
        ih hc₁ hi' hk' (hself' _) hin' hgrants₁
          (fun s hs => global_injective c₁.tree hs ▸ hgranted) hsupplied' h')
        (fun e he => ⟨hgrants' _ e he, hcm.edges i.module e he⟩) hcm hf hgrants' hmerged h, ?_⟩
      -- The module is left alone by the loop, so that what arrived is still there.
      intro t b hb
      obtain ⟨hbinding, hmark⟩ := hkeeps.2.2 t (hb.1 ▸ List.mem_cons_self)
      rw [hbinding, hmark]
      exact harrived t b hb

end Incoming

/-! ### Imports -/

/-- Binding the name of an import leaves nothing new pending. -/
theorem bindName_delivers {limit : Nat} {i : Import} (hc : Coherent imports c) (hi : i ∈ imports)
    {meaning : Meaning} (hgrants : Grants granted c) (hsupplied : SuppliedBut granted pending c)
    (h : c.bindName limit i meaning = .ok c') : SuppliedBut granted pending c' := by
  cases hn : i.name with
  | none =>
    unfold bindName at h
    rw [hn] at h
    cases h
    exact hsupplied
  | some name =>
    have hm := mem_scopes_tellBinding hc hi name
    have hnd := nodup_named name (meaning.handedOn c.tree i.visibility)
    have hmerged := SuppliedBut.mergeAll hm hnd .named (fun s hs => by cases hs)
      (hsupplied.told (c.tellBinding i name).log)
    rw [bindName_eq limit hn] at h
    split at h
    · next hempty =>
      cases h
      exact hmerged.of_isEmpty hempty
    · have hcm := coherent_naming hc hi name meaning
      have hgrants' := Grants.frame (c := c.tellBinding i name) hgrants
        (frame_mergeAll hm hnd .named)
      refine handOn_delivers
        (fun {c₁ _ _ _ _} hc₁ hi' hk' hin' hgrants₁ hgranted hsupplied' h' => ?_)
        (fun e he => ⟨hgrants' _ e he, hcm.edges i.module e he⟩) hcm
        (forwarding_naming hc hi name meaning) hgrants' hmerged h
      exact update_delivers hc₁ hi' hk' (fun s hs => mem_cons_of_global c₁.tree [] hs) hin' limit
        limit hgrants₁ (fun s hs => global_injective c₁.tree hs ▸ hgranted) hsupplied' h'

/-- The glob import `i` is connected to the module that it names: as a standing connection, or if
that module is of another crate by having brought in all its public names. -/
structure Connected (c : Collection) (i : Import) (source : ModuleId) : Prop where
  linked : ∀ s, source = c.tree.global s →
    { importer := i.module, visibility := i.visibility } ∈ c.edgesFrom s
  copied : source.crate ≠ c.view.crate → ∀ name ns b,
    (c.view.meaning source name).get ns = some b → b.visibility.isPublic = true →
    (c.map.binding? ⟨i.module, name, ns⟩).isSome

theorem crate_later (h : Later c c') : c'.view.crate = c.view.crate :=
  congrArg ModuleTree.crate h.tree

theorem Connected.later {i : Import} {source : ModuleId} (h : Connected c i source)
    (hl : Later c c') : Connected c' i source where
  linked s hs := hl.edges s _ (h.linked s (by rwa [← hl.tree]))
  copied hforeign name ns b hb hpublic := by
    rw [crate_later hl] at hforeign
    refine hl.bound _ (h.copied hforeign name ns b ?_ hpublic)
    rw [← hb]
    unfold View.meaning View.mapOf?
    rw [if_neg hforeign, crate_later hl, if_neg hforeign, hl.dependencies]

end Collection

/-- The module or enum that a meaning names as a type. -/
def View.moduleOf? (view : View) (meaning : Meaning) : Option ModuleId :=
  (meaning.types.filter Binding.isModuleOrEnum).bind fun b => view.locate? b.path

/-- The module that a glob import was found to name when it was carried out. -/
def SettledImport.source? (view : View) (x : SettledImport) : Option ModuleId :=
  if x.declaration.kind = .glob then x.status.meaning?.bind view.moduleOf? else none

namespace Collection

variable {imports : List Import} {c c' : Collection} {granted : LocalId → GlobEdge → Prop}
  {pending : LocalId → GlobEdge → Name → Namespace → Prop}

/-- Which modules there are does not change. -/
theorem moduleOf?_later (h : Later c c') (meaning : Meaning) :
    c'.view.moduleOf? meaning = c.view.moduleOf? meaning := by
  unfold View.moduleOf?
  congr 1
  funext b
  exact View.locate?_congr h.tree h.dependencies b.path

/-- A glob that has delivered everything can become a standing connection. -/
theorem SuppliedBut.linkGlob {i : Import} {source : ModuleId} (h : SuppliedBut granted pending c)
    (hdelivered : ∀ s, source = c.tree.global s →
      ∀ name ns, c.SuppliedAt granted s i.module name ns) :
    SuppliedBut granted pending (c.linkGlob i source) := by
  unfold Collection.linkGlob
  split
  · next hown =>
    intro s e he name ns
    rw [suppliedAt_alike (Alike.addEdge c _ _)]
    rcases mem_edgesFrom_addEdge.1 he with he | ⟨rfl, rfl⟩
    · exact h s e he name ns
    · exact Or.inr (hdelivered source.index (eq_global_of_crate_eq hown) name ns)
  · exact h

/-- A glob is connected when it was linked, if it has what is public in another crate. -/
theorem connected_linkGlob {i : Import} {source : ModuleId}
    (hpublic : source.crate ≠ c.view.crate → ∀ name ns b,
      (c.view.meaning source name).get ns = some b → b.visibility.isPublic = true →
      (c.map.binding? ⟨i.module, name, ns⟩).isSome) :
    Connected (c.linkGlob i source) i source := by
  unfold linkGlob
  by_cases hown : source.crate = c.view.crate
  · rw [if_pos hown]
    refine ⟨fun s hs => mem_edgesFrom_addEdge.2 (Or.inr ⟨?_, rfl⟩), fun hforeign => ?_⟩
    · rw [hs]
      rfl
    · rw [crate_alike (Alike.addEdge c _ _)] at hforeign
      exact absurd hown hforeign
  · rw [if_neg hown]
    refine ⟨fun s hs => ?_, hpublic⟩
    rw [hs] at hown
    exact absurd rfl hown

/-- When the names of a module were brought in, nothing of it is left to be delivered. -/
theorem globNames_delivers {limit : Nat} {i : Import} {source : ModuleId} (hc : Coherent imports c)
    (hi : i ∈ imports) (hk : i.kind = .glob) (hgrants : Grants granted c)
    (hown : ∀ s, source = c.tree.global s →
      granted s { importer := i.module, visibility := i.visibility })
    (hsupplied : SuppliedBut granted pending c)
    (h : (c.tellGlob i (c.globNames i source)).receive limit i.module (c.globNames i source)
      (.glob source) = .ok c') :
    SuppliedBut granted pending c' ∧
      (∀ s, source = c'.tree.global s → ∀ name ns, c'.SuppliedAt granted s i.module name ns) ∧
      (source.crate ≠ c'.view.crate → ∀ name ns b, (c'.view.meaning source name).get ns = some b →
        b.visibility.isPublic = true → (c'.map.binding? ⟨i.module, name, ns⟩).isSome) := by
  have hct : Coherent imports (c.tellGlob i (c.globNames i source)) := hc.told _
  have hin := incoming_globNames (c.tellGlob i (c.globNames i source)) i source
  have hself : ∀ s, source = c.tree.global s → s ∈ c.sourcePath source :=
    fun s hs => mem_sourcePath hs
  obtain ⟨hsupplied', harrived⟩ := update_delivers hct hi hk hself hin limit (limit + 1) hgrants
    hown (hsupplied.told _) h
  obtain ⟨-, hgrows, hspares⟩ := update_keeps hct hi hk hself hin h
  have htree : c'.tree = c.tree := hgrows.frame.tree
  have hbrings : ∀ name ns b, (c.view.meaning source name).get ns = some b →
      (if source.crate = c.view.crate then b.visibility.isVisibleFrom c.tree i.module
        else b.visibility.isPublic) = true →
      ∃ b', c'.map.binding? ⟨i.module, name, ns⟩ = some b' ∧
        (c'.globSources.get? ⟨i.module, name, ns⟩ = some source →
          b' = b.handedOn c.tree i.visibility) :=
    fun name ns b hb htest => harrived ⟨i.module, name, ns⟩ (b.handedOn c.tree i.visibility)
      (brings_globNames.2 ⟨rfl, b, hb, htest, rfl⟩)
  refine ⟨hsupplied', fun s hs name ns b hb hv => ?_, fun hforeign name ns b hb hpublic => ?_⟩
  · rw [htree] at hs hv ⊢
    -- The source did not change since its names were read.
    rw [(hspares ⟨s, name, ns⟩ (hself s hs)).1] at hb
    have hcrate : source.crate = c.view.crate := by
      rw [hs]
      rfl
    have hmeaning : (c.view.meaning source name).get ns = some b := by
      rw [hs, get_meaning_global]
      exact hb
    obtain ⟨b', hb', hsource⟩ := hbrings name ns b hmeaning (by rw [if_pos hcrate]; exact hv)
    rw [hs] at hsource
    exact ⟨b', hb', fun hmark => ⟨_, hown s hs, rfl, hsource hmark⟩⟩
  · have hcrate : c'.view.crate = c.view.crate := congrArg ModuleTree.crate htree
    rw [hcrate] at hforeign
    rw [meaning_frame_of_foreign hgrows.frame hforeign] at hb
    obtain ⟨b', hb', -⟩ := hbrings name ns b hb (by rw [if_neg hforeign]; exact hpublic)
    rw [hb']
    rfl

/-- Carrying a glob import out leaves nothing new pending, and connects it. -/
theorem openGlob_delivers {limit : Nat} {i : Import} (hc : Coherent imports c) (hi : i ∈ imports)
    (hk : i.kind = .glob) {meaning : Meaning} (hgrants : Grants granted c)
    (hown : ∀ source, c.view.moduleOf? meaning = some source → ∀ s, source = c.tree.global s →
      granted s { importer := i.module, visibility := i.visibility })
    (hsupplied : SuppliedBut granted pending c) (h : c.openGlob limit i meaning = .ok c') :
    SuppliedBut granted pending c' ∧
      ∀ source, c.view.moduleOf? meaning = some source → Connected c' i source := by
  unfold openGlob at h
  unfold View.moduleOf? at hown ⊢
  split at h
  · next hnone =>
    cases h
    rw [hnone]
    exact ⟨hsupplied.told _, fun source hs => by cases hs⟩
  · next target htarget =>
    rw [htarget, Option.bind_some] at hown ⊢
    split at h
    · next hnone =>
      cases h
      rw [hnone]
      exact ⟨hsupplied, fun source hs => by cases hs⟩
    · next source hsource =>
      obtain ⟨c₁, hr, h⟩ := ok_of_bind h
      cases h
      obtain ⟨hsupplied₁, hdelivered, hpublic⟩ :=
        globNames_delivers hc hi hk hgrants (hown source hsource) hsupplied hr
      refine ⟨hsupplied₁.linkGlob hdelivered, fun source' hs => ?_⟩
      rw [hsource] at hs
      cases hs
      exact connected_linkGlob hpublic

/-- Carrying an import out leaves nothing new pending, and connects it if it is a glob. -/
theorem carryOut_delivers {limit : Nat} {i : Import} (hc : Coherent imports c) (hi : i ∈ imports)
    {meaning : Meaning} (hgrants : Grants granted c)
    (hown : i.kind = .glob → ∀ source, c.view.moduleOf? meaning = some source →
      ∀ s, source = c.tree.global s →
        granted s { importer := i.module, visibility := i.visibility })
    (hsupplied : SuppliedBut granted pending c) (h : c.carryOut limit i meaning = .ok c') :
    SuppliedBut granted pending c' ∧ (i.kind = .glob →
      ∀ source, c.view.moduleOf? meaning = some source → Connected c' i source) := by
  unfold carryOut at h
  cases hk : i.kind with
  | glob =>
    simp only [hk] at h
    obtain ⟨hsupplied', hconnected⟩ :=
      openGlob_delivers hc hi hk hgrants (hown hk) hsupplied h
    exact ⟨hsupplied', fun _ => hconnected⟩
  | named =>
    simp only [hk] at h
    exact ⟨bindName_delivers hc hi hgrants hsupplied h, fun hglob => by cases hglob⟩
  | externCrate macroUse =>
    simp only [hk] at h
    refine ⟨?_, fun hglob => by cases hglob⟩
    split at h
    · next hroot =>
      have hopened : Change imports i meaning c (c.openCrate i.name meaning macroUse) :=
        .opened hk hroot
      have hedges : ∀ s, (c.openCrate i.name meaning macroUse).edgesFrom s = c.edgesFrom s :=
        fun s => edgesFrom_openCrate _ _ _ s
      exact bindName_delivers (hopened.coherent hi hc) hi
        (fun s e he => hgrants s e (hedges s ▸ he))
        (hsupplied.alike (Alike.openCrate c _ _ _) hedges) h
    · exact bindName_delivers hc hi hgrants hsupplied h

/-! ### Crates -/

/-- Nothing is pending, and all globs that were carried out are connected. -/
structure Delivered (c : Collection) : Prop where
  supplied : SuppliedBut (fun s e => e ∈ c.edgesFrom s) (fun _ _ _ _ => False) c
  connected : ∀ x ∈ c.settled, ∀ source, x.source? c.view = some source →
    Connected c x.declaration source

theorem Delivered.carried (h : Delivered c) : CarriedBut (fun _ _ _ _ => False) c :=
  h.supplied.carriedBut

theorem source?_later (h : Later c c') (x : SettledImport) :
    x.source? c'.view = x.source? c.view := by
  unfold SettledImport.source?
  split
  · congr 1
    funext meaning
    exact moduleOf?_later h meaning
  · rfl

theorem Delivered.alike (h : Delivered c) (halike : Alike c c')
    (hsettled : c'.settled = c.settled) (hedges : ∀ s, c'.edgesFrom s = c.edgesFrom s) :
    Delivered c' := by
  have hlater := halike.later hsettled fun s e he => by rwa [hedges]
  refine ⟨?_, fun x hx source hs => ?_⟩
  · simp only [hedges]
    exact h.supplied.alike halike hedges
  · rw [hsettled] at hx
    rw [source?_later hlater] at hs
    exact (h.connected x hx source hs).later hlater

/-- Before any import there is nothing to deliver. -/
theorem Opened.delivered {id : CrateId} (h : Opened id imports c) : Delivered c := by
  refine ⟨fun s e he => ?_, fun x hx => ?_⟩
  · unfold edgesFrom at he
    rw [h.globEdges] at he
    cases he
  · rw [h.settled] at hx
    cases hx

/-- Between two imports nothing is pending. -/
theorem Course.delivered {limit : Nat} {start : Collection} {past : List Collection}
    (hcoherent : Coherent imports start) (hstart : Delivered start)
    (h : Course limit imports start past none c) : Delivered c := by
  refine h.invariant_between hcoherent hstart ?_ ?_ ?_ rfl
  · exact fun c log h => h.alike (Alike.told c log) rfl fun _ => rfl
  · intro c i hc hi meaning hm d hd h
    obtain ⟨-, hlater⟩ := carryOut_keeps hc hi hd
    -- That the glob is connected then does not depend on what is granted.
    have hall : Grants (fun _ _ => True) c := fun _ _ _ => trivial
    obtain ⟨-, hconnected⟩ := carryOut_delivers hc hi hall (fun _ _ _ _ _ => trivial)
      (h.supplied.mono fun _ _ _ => trivial) hd
    have hstanding : Grants (fun s e => e ∈ d.edgesFrom s) c := hlater.edges
    obtain ⟨hsupplied, -⟩ := carryOut_delivers hc hi hstanding (fun hglob source hsource s hs =>
        (hconnected hglob source hsource).linked s (by rw [hs, hlater.tree]))
      (h.supplied.mono hlater.edges) hd
    refine ⟨hsupplied.alike (Alike.settled d _) fun _ => rfl, fun x hx source hs => ?_⟩
    change x.source? d.view = some source at hs
    rw [source?_later hlater] at hs
    have key : Connected d x.declaration source := by
      rcases List.mem_append.1 hx with hx | hx
      · rw [hlater.settled] at hx
        exact (h.connected x hx source hs).later hlater
      · rw [List.mem_singleton.1 hx] at hs ⊢
        unfold SettledImport.source? at hs
        split at hs
        · next hglob =>
          rw [hm, Option.bind_some] at hs
          exact hconnected hglob source hs
        · cases hs
    exact ⟨key.linked, key.copied⟩
  · exact fun c i h => h.alike (Alike.giveUp c i) rfl fun _ => rfl

end Collection

/-- **No name of a glob is lost.**  When the imports of a crate have been collected, in whatever
order, every glob import that was carried out has delivered what its source has in the finished map.
Of a source in the same crate this is all that the importing module may name, and where the name is
still marked with that source it is the same item; of a source in another crate it is all that is
public. -/
theorem globs_lose_no_name {g : CrateGraph} {id : CrateId} {crate : CrateSource}
    {finished : CrateId → Option CrateMap} {settings : Settings} {start : Collection}
    {imports : List Import}
    (hopen : openBuild g id crate finished settings = .ok (start, imports))
    {order : List Import} (horder : ∀ i ∈ order, i ∈ imports) {limit : Nat}
    {isCancelled : Nat → Bool} {outcome : Collection.Outcome}
    (hrun : Collection.run limit isCancelled order start = .ok outcome) :
    let built := closeBuild crate outcome
    ∀ x ∈ built.settled, ∀ source, x.source? built.view = some source →
      let m := x.declaration.module
      (source.crate = built.view.crate → ∀ name ns b,
        built.view.own.binding? ⟨source.index, name, ns⟩ = some b →
        b.visibility.isVisibleFrom built.view.tree m = true →
        ∃ b', built.view.own.binding? ⟨m, name, ns⟩ = some b' ∧
          (outcome.collection.globSources.get? ⟨m, name, ns⟩ = some source → b'.path = b.path)) ∧
      (source.crate ≠ built.view.crate → ∀ name ns b,
        (built.view.meaning source name).get ns = some b → b.visibility = .everywhere →
        (built.view.own.binding? ⟨m, name, ns⟩).isSome) := by
  have hstart := opened_of_openBuild hopen
  obtain ⟨past, hcourse⟩ := Collection.Course.of_run horder hrun
  have hdelivered := hcourse.delivered hstart.coherent hstart.delivered
  intro built x hx source hs m
  rw [view_closeBuild] at *
  rw [settled_closeBuild] at hx
  have hconnected := hdelivered.connected x hx source hs
  constructor
  · intro hown name ns b hb hv
    have hsource := Collection.eq_global_of_crate_eq hown
    have hedge := hconnected.linked source.index hsource
    rcases hdelivered.carried source.index _ hedge name ns with hfalse | hcarried
    · exact hfalse.elim
    · obtain ⟨b', hb', hpath⟩ := hcarried b hb hv
      exact ⟨b', hb', fun hmark => hpath (by rw [← hsource]; exact hmark)⟩
  · intro hforeign name ns b hb hpublic
    exact hconnected.copied hforeign name ns b hb (by rw [hpublic]; rfl)

/-- Of two modules that read from each other, each has what the other has. -/
theorem globs_lose_no_name_mirrors : ∃ outcome : Collection.Outcome,
    outcome.collection.settled.map (fun x => x.source? outcome.collection.view)
      = [some ⟨⟨0⟩, ⟨2⟩⟩, some ⟨⟨0⟩, ⟨1⟩⟩, none] ∧
    ∀ x ∈ outcome.collection.settled, ∀ source,
      x.source? (closeBuild mirrors outcome).view = some source →
      source.crate = (closeBuild mirrors outcome).view.crate → ∀ name ns b,
      (closeBuild mirrors outcome).view.own.binding? ⟨source.index, name, ns⟩ = some b →
      b.visibility.isVisibleFrom (closeBuild mirrors outcome).view.tree x.declaration.module = true →
      ∃ b', (closeBuild mirrors outcome).view.own.binding? ⟨x.declaration.module, name, ns⟩
        = some b' ∧
        (outcome.collection.globSources.get? ⟨x.declaration.module, name, ns⟩ = some source →
          b'.path = b.path) := by
  have hrun : (openBuild mirrorsGraph ⟨0⟩ mirrors (fun _ => none) {} >>= fun r =>
      (Collection.run 3 (fun _ => false) r.2 r.1)).map (fun outcome =>
        outcome.collection.settled.map fun x => x.source? outcome.collection.view)
      = .ok [some ⟨⟨0⟩, ⟨2⟩⟩, some ⟨⟨0⟩, ⟨1⟩⟩, none] := by cbv
  obtain ⟨outcome, hcollect, hsources⟩ := ok_of_map hrun
  obtain ⟨⟨start, imports⟩, hopen, hcollect⟩ := ok_of_bind hcollect
  refine ⟨outcome, hsources, fun x hx source hs => ?_⟩
  rw [← settled_closeBuild mirrors] at hx
  exact (globs_lose_no_name hopen (fun i hi => hi) hcollect x hx source hs).1

end CrateScope
