import CrateScope.Proofs.Opening
import Mathlib

/-!
# How deep names are handed on

The depth to which names are handed on is limited by the settings, and going deeper is an error.
The limit is a safeguard only.  A name on its way never changes a module through which it came, so
that the modules that are entered one inside the other are distinct: there are not more of them than
the crate has.  And where the limit does not stop a build, it has no influence on it.

## Main results

* `Collection.update_isOk` — an update comes to an end within as many levels as there are modules
  that it has not passed yet.
* `Collection.update_mono` — what is found within some levels is found within more.
* `buildView_globLimit` — a limit of as many levels as the crate has modules is never exceeded, and
  all limits under which a crate can be built give the same.
-/

namespace CrateScope

namespace Collection

variable {imports : List Import} {passed : List LocalId} {c : Collection}

/-! ### No module is entered twice -/

/-- Distinct modules of a tree are not more than the tree has. -/
theorem length_le_size {t : ModuleTree} (hnd : passed.Nodup) (h : ∀ x ∈ passed, x.index < t.size) :
    passed.length ≤ t.size := by
  have hindices : (passed.map LocalId.index).Nodup := by
    refine hnd.map fun a b hab => ?_
    cases a
    cases b
    exact congrArg LocalId.mk hab
  have hsub : passed.map LocalId.index ⊆ List.range t.size := by
    intro k hk
    obtain ⟨x, hx, rfl⟩ := List.mem_map.1 hk
    exact List.mem_range.2 (h x hx)
  have hle := hindices.length_le_of_subset hsub
  rwa [List.length_map, List.length_range] at hle

/-- A loop succeeds if each of its rounds does, as long as the rounds keep what that needs. -/
theorem foldlM_isOk {α : Type} {P : Collection → Prop}
    {step : Collection → α → Except Failure Collection} {as : List α}
    (hstep : ∀ c, ∀ a ∈ as, P c → ∃ d, step c a = .ok d ∧ P d) (hc : P c) :
    ∃ d, as.foldlM step c = .ok d ∧ P d := by
  induction as generalizing c with
  | nil => exact ⟨c, rfl, hc⟩
  | cons a as ih =>
    obtain ⟨d, hd, hP⟩ := hstep c a List.mem_cons_self hc
    obtain ⟨d', hd', hP'⟩ := ih (fun c a ha => hstep c a (List.mem_cons_of_mem _ ha)) hP
    refine ⟨d', ?_, hP'⟩
    rw [List.foldlM_cons, hd]
    exact hd'

/-- Handing names on along all globs of a module succeeds if the receiver does. -/
theorem handOn_isOk {m : LocalId} {changed : List (Name × Meaning)}
    (receiver : Collection → LocalId → List (Name × Meaning) → Origin → Except Failure Collection)
    (hreceiver : ∀ c₁ i news, c₁.tree = c.tree → Coherent imports c₁ → i ∈ imports →
      i.kind = .glob → Incoming passed c₁ i (c₁.tree.global m) news →
      ∃ d, receiver c₁ i.module news (.glob (c₁.tree.global m)) = .ok d ∧
        Coherent imports d ∧ Grows c₁ d ∧ Spares passed c₁ d)
    (hc : Coherent imports c) (hf : Forwarding passed c m changed) :
    ∃ d, (c.edgesFrom m).foldlM (handOn receiver m changed) c = .ok d := by
  have hstep : ∀ c₁, ∀ e ∈ c.edgesFrom m,
      (c₁.tree = c.tree ∧ Coherent imports c₁ ∧ Forwarding passed c₁ m changed) →
      ∃ d, handOn receiver m changed c₁ e = .ok d ∧
        (d.tree = c.tree ∧ Coherent imports d ∧ Forwarding passed d m changed) := by
    rintro c₁ e he ⟨htree, hc₁, hf₁⟩
    obtain ⟨i, hi, hk, rfl⟩ := hc.edges m e he
    unfold handOn
    simp only
    split
    · exact ⟨c₁, rfl, htree, hc₁, hf₁⟩
    · obtain ⟨htold, hct, hin⟩ := hf₁.incoming_told hc₁ i
      obtain ⟨d, hd, hcd, hgrows, hspares⟩ :=
        hreceiver (c₁.tellHandedOn m _ _) i _ htree hct hi hk hin
      have hft := hf₁.keep hc₁.toProvenance (htold.grows hc₁) (htold.spares hc₁)
      exact ⟨d, hd, hgrows.frame.tree.trans htree, hcd,
        hft.keep hct.toProvenance hgrows hspares⟩
  obtain ⟨d, hd, -⟩ := foldlM_isOk hstep ⟨rfl, hc, hf⟩
  exact ⟨d, hd⟩

/-- Within as many levels as there are modules that the names have not passed yet, an update comes
to an end. -/
theorem update_isOk (limit depth : Nat) {i : Import} {source : ModuleId}
    {news : List (Name × Meaning)} (hc : Coherent imports c) (hi : i ∈ imports)
    (hk : i.kind = .glob) (hself : ∀ s, source = c.tree.global s → s ∈ passed)
    (hin : Incoming passed c i source news) (hnd : passed.Nodup)
    (hinside : ∀ x ∈ passed, x.index < c.tree.size)
    (hdepth : c.tree.size < depth + passed.length) :
    ∃ d, update limit depth c i.module news (.glob source) = .ok d := by
  induction depth generalizing c passed i source news with
  | zero =>
    -- No level is left, but then more modules were passed than there are.
    have hle := length_le_size hnd hinside
    omega
  | succ depth ih =>
    rw [update]
    simp only
    split
    · exact ⟨_, rfl⟩
    · next hchanged =>
      -- A module that changes is not among those that the names passed.
      have hnew : i.module ∉ passed := by
        intro hmem
        obtain ⟨t, b, hb⟩ := exists_brings_of_mergeAll_snd (hc.mem_scopes hi) hin.nodup _
          (Bool.eq_false_iff.2 hchanged)
        obtain ⟨hnews, htakes, -⟩ := (brings_mergeAll_snd (hc.mem_scopes hi) hin.nodup _).1 hb
        obtain ⟨b₀, hcopies, -⟩ := hin.copies t b hnews
        obtain ⟨m, name, ns⟩ := t
        obtain rfl : m = i.module := hnews.1
        exact hcopies.not_takes hc.toProvenance hmem htakes
      obtain ⟨hcm, hgrows, -⟩ := walk_keeps hc (mergeAll_walk hc hi hk hself hin)
      refine handOn_isOk (update limit depth) ?_ hcm (forwarding_glob hc hi hk hself hin)
      intro c₁ i' news' htree hc₁ hi' hk' hin'
      have hself' : ∀ s, c₁.tree.global i.module = c₁.tree.global s → s ∈ i.module :: passed :=
        fun s hs => mem_cons_of_global c₁.tree passed hs
      have hsize : c₁.tree.size = c.tree.size := by rw [htree, hgrows.frame.tree]
      have hinside' : ∀ x ∈ i.module :: passed, x.index < c₁.tree.size := by
        intro x hx
        rw [hsize]
        rcases List.mem_cons.1 hx with rfl | hx
        · exact hc.inside i hi
        · exact hinside x hx
      have hdepth' : c₁.tree.size < depth + (i.module :: passed).length := by
        rw [hsize, List.length_cons]
        omega
      obtain ⟨d, hd⟩ := ih hc₁ hi' hk' hself' hin' (List.nodup_cons.2 ⟨hnew, hnd⟩) hinside' hdepth'
      exact ⟨d, hd, update_keeps hc₁ hi' hk' hself' hin' hd⟩

/-! ### A limit that is not exceeded -/

section Limit

variable {limit : Nat} (hlimit : c.tree.size ≤ limit) (hc : Coherent imports c)

include hlimit hc

/-- What an import changed in a module is handed on without exceeding the limit. -/
theorem forward_isOk {m : LocalId} (hm : m.index < c.tree.size) {changed : List (Name × Meaning)}
    (hf : Forwarding [m] c m changed) :
    ∃ d, (c.edgesFrom m).foldlM (handOn (update limit limit) m changed) c = .ok d := by
  refine handOn_isOk (update limit limit) ?_ hc hf
  intro c₁ i news htree hc₁ hi hk hin
  have hself : ∀ s, c₁.tree.global m = c₁.tree.global s → s ∈ [m] :=
    fun s hs => mem_cons_of_global c₁.tree [] hs
  have hinside : ∀ x ∈ [m], x.index < c₁.tree.size := by
    intro x hx
    rw [List.mem_singleton.1 hx, htree]
    exact hm
  have hdepth : c₁.tree.size < limit + [m].length := by
    rw [htree, List.length_singleton]
    omega
  obtain ⟨d, hd⟩ := update_isOk limit limit hc₁ hi hk hself hin (List.nodup_singleton m) hinside
    hdepth
  exact ⟨d, hd, update_keeps hc₁ hi hk hself hin hd⟩

theorem bindName_isOk {i : Import} (hi : i ∈ imports) (meaning : Meaning) :
    ∃ d, c.bindName limit i meaning = .ok d := by
  cases hn : i.name with
  | none =>
    unfold bindName
    rw [hn]
    exact ⟨c, rfl⟩
  | some name =>
    have htree := tree_naming hc hi name meaning
    rw [bindName_eq limit hn]
    split
    · exact ⟨_, rfl⟩
    · refine forward_isOk ?_ (coherent_naming hc hi name meaning) ?_
        (forwarding_naming hc hi name meaning)
      · rw [htree]
        exact hlimit
      · rw [htree]
        exact hc.inside i hi

theorem openGlob_isOk {i : Import} (hi : i ∈ imports) (hk : i.kind = .glob) (meaning : Meaning) :
    ∃ d, c.openGlob limit i meaning = .ok d := by
  unfold openGlob
  split
  · exact ⟨_, rfl⟩
  · split
    · exact ⟨_, rfl⟩
    · next source _ =>
      have hct : Coherent imports (c.tellGlob i (c.globNames i source)) := hc.told _
      have hself : ∀ s, source = (c.tellGlob i (c.globNames i source)).tree.global s →
          s ∈ (c.tellGlob i (c.globNames i source)).sourcePath source :=
        fun s hs => mem_sourcePath hs
      have hin := incoming_globNames (c.tellGlob i (c.globNames i source)) i source
      have hwalk := mergeAll_walk hct hi hk hself hin
      obtain ⟨hcm, hgrows, -⟩ := walk_keeps hct hwalk
      have hok : ∃ d, (c.tellGlob i (c.globNames i source)).receive limit i.module
          (c.globNames i source) (.glob source) = .ok d := by
        rw [receive, update]
        simp only
        split
        · exact ⟨_, rfl⟩
        · refine forward_isOk (by rw [hgrows.frame.tree]; exact hlimit) hcm (hcm.inside i hi)
            ((forwarding_glob hct hi hk hself hin).mono (fun x hx => ?_)
              (List.mem_singleton_self _))
          rw [List.mem_singleton.1 hx]
          exact List.mem_cons_self
      obtain ⟨d, hd⟩ := hok
      refine ⟨d.linkGlob i source, ?_⟩
      simp only
      rw [hd]
      rfl

theorem carryOut_isOk {i : Import} (hi : i ∈ imports) (meaning : Meaning) :
    ∃ d, c.carryOut limit i meaning = .ok d := by
  unfold carryOut
  split
  · next hk => exact openGlob_isOk hlimit hc hi hk meaning
  · exact bindName_isOk hlimit hc hi meaning
  · next macroUse hk =>
    split
    · next hroot =>
      have halike := Alike.openCrate c i.name meaning macroUse
      have hopened : Change imports i meaning c (c.openCrate i.name meaning macroUse) :=
        .opened hk hroot
      exact bindName_isOk (by rw [halike.tree]; exact hlimit) (hopened.coherent hi hc) hi meaning
    · exact bindName_isOk hlimit hc hi meaning

end Limit

/-- One pass over imports of the crate does not exceed the limit. -/
theorem pass_isOk {limit : Nat} (hlimit : c.tree.size ≤ limit) (hc : Coherent imports c)
    {waiting : List Import} (hw : ∀ i ∈ waiting, i ∈ imports) :
    ∃ d left, pass limit c waiting = .ok (d, left) ∧ Coherent imports d ∧ d.tree = c.tree ∧
      ∀ i ∈ left, i ∈ waiting := by
  induction waiting generalizing c with
  | nil => exact ⟨c, [], rfl, hc, rfl, fun i hi => hi⟩
  | cons i rest ih =>
    have hrest : ∀ j ∈ rest, j ∈ imports := fun j hj => hw j (List.mem_cons_of_mem i hj)
    have hi := hw i List.mem_cons_self
    let told : Collection := { c with log := c.log ++ c.statusLog i }
    have hct : Coherent imports told := hc.told _
    rw [pass]
    simp only
    split
    · obtain ⟨d, left, hd, hcd, htree, hleft⟩ := ih (c := told) hlimit hct hrest
      refine ⟨d, i :: left, ?_, hcd, htree, ?_⟩
      · rw [hd]
        rfl
      · intro j hj
        rcases List.mem_cons.1 hj with rfl | hj
        · exact List.mem_cons_self
        · exact List.mem_cons_of_mem i (hleft j hj)
    · next meaning _ =>
      -- The tree stays, so that the limit is enough for the imports after this one.
      obtain ⟨d₁, hd₁⟩ := carryOut_isOk (c := told) hlimit hct hi meaning
      obtain ⟨hc₁, hlater⟩ := carryOut_keeps hct hi hd₁
      have htree₁ : d₁.tree = c.tree := hlater.tree
      let recorded : Collection := { d₁ with settled := d₁.settled ++ [⟨i, c.status i⟩] }
      have hcr : Coherent imports recorded := (Alike.settled d₁ _).coherent hc₁ hc₁.edges
      have hsize : recorded.tree.size ≤ limit := by
        change d₁.tree.size ≤ limit
        rw [htree₁]
        exact hlimit
      obtain ⟨d, left, hd, hcd, htree, hleft⟩ := ih hsize hcr hrest
      refine ⟨d, left, ?_, hcd, htree.trans htree₁, fun j hj => List.mem_cons_of_mem i (hleft j hj)⟩
      rw [settleOne, hd₁]
      exact hd

/-- Collecting the imports of a crate can only fail by being stopped. -/
theorem settle_error {limit : Nat} (hlimit : c.tree.size ≤ limit) (hc : Coherent imports c)
    {isCancelled : Nat → Bool} {number : Nat} {waiting : List Import}
    (hw : ∀ i ∈ waiting, i ∈ imports) {failure : Failure}
    (h : settle limit isCancelled number waiting c = .error failure) :
    failure.error = .cancelled := by
  induction hn : waiting.length using Nat.strongRecOn generalizing waiting number c with
  | ind n ih =>
    obtain ⟨d, left, hd, hcd, htree, hleft⟩ := pass_isOk hlimit hc hw
    rw [settle] at h
    split at h
    · cases h
      rfl
    · rw [hd] at h
      simp only at h
      split at h
      · next hlt =>
        exact ih left.length (hn ▸ hlt) (by rw [← htree] at hlimit; exact hlimit) (hcd.told _)
          (fun i hi => hw i (hleft i hi)) h rfl
      · cases h

/-! ### Limits under which a build succeeds -/

/-- What an update comes to within some levels it comes to within more. -/
theorem update_mono {limit limit' depth depth' : Nat} (hdepth : depth ≤ depth') {m : LocalId}
    {news : List (Name × Meaning)} {origin : Origin} {d : Collection}
    (h : update limit depth c m news origin = .ok d) :
    update limit' depth' c m news origin = .ok d := by
  induction depth generalizing depth' c m news origin d with
  | zero => cases h
  | succ depth ih =>
    -- The larger depth has a level as well, and the rounds below it are compared one by one.
    obtain ⟨depth', rfl⟩ : ∃ k, depth' = k + 1 := ⟨depth' - 1, by omega⟩
    rw [update] at h ⊢
    simp only at h ⊢
    split
    · next hempty => rwa [if_pos hempty] at h
    · next hchanged =>
      rw [if_neg hchanged] at h
      refine foldlM_mono (fun c₁ e _ d₁ hd₁ => ?_) h
      unfold handOn at hd₁ ⊢
      simp only at hd₁ ⊢
      split
      · next hempty => rwa [if_pos hempty] at hd₁
      · next hnames =>
        rw [if_neg hnames] at hd₁
        exact ih (by omega) hd₁

section Limits

variable {limit limit' : Nat} (hle : limit ≤ limit')

include hle

theorem receive_mono {m : LocalId} {news : List (Name × Meaning)} {origin : Origin}
    {d : Collection} (h : c.receive limit m news origin = .ok d) :
    c.receive limit' m news origin = .ok d :=
  update_mono (by omega) h

theorem bindName_mono {i : Import} {meaning : Meaning} {d : Collection}
    (h : c.bindName limit i meaning = .ok d) : c.bindName limit' i meaning = .ok d := by
  unfold bindName at h ⊢
  split
  · next hn => simpa only [hn] using h
  · next name hn =>
    simp only [hn] at h
    exact receive_mono hle h

theorem openGlob_mono {i : Import} {meaning : Meaning} {d : Collection}
    (h : c.openGlob limit i meaning = .ok d) : c.openGlob limit' i meaning = .ok d := by
  unfold openGlob at h ⊢
  split
  · next ht => simpa only [ht] using h
  · next target ht =>
    simp only [ht] at h
    split
    · next hl => simpa only [hl] using h
    · next source hl =>
      simp only [hl] at h
      exact bind_mono (fun _ => receive_mono hle) (fun _ hd => hd) h

theorem carryOut_mono {i : Import} {meaning : Meaning} {d : Collection}
    (h : c.carryOut limit i meaning = .ok d) : c.carryOut limit' i meaning = .ok d := by
  unfold carryOut at h ⊢
  cases hk : i.kind with
  | glob =>
    simp only [hk] at h ⊢
    exact openGlob_mono hle h
  | named =>
    simp only [hk] at h ⊢
    exact bindName_mono hle h
  | externCrate macroUse =>
    simp only [hk] at h ⊢
    exact bindName_mono hle h

theorem pass_mono {waiting : List Import} {r : Collection × List Import}
    (h : pass limit c waiting = .ok r) : pass limit' c waiting = .ok r := by
  induction waiting generalizing c r with
  | nil => exact h
  | cons i rest ih =>
    rw [pass] at h ⊢
    simp only at h ⊢
    split
    · next hnone =>
      simp only [hnone] at h
      exact bind_mono (fun _ => ih) (fun _ hr => hr) h
    · next meaning hsome =>
      simp only [hsome] at h
      refine bind_mono (fun d hd => ?_) (fun _ => ih) h
      exact bind_mono (fun _ => carryOut_mono hle) (fun _ hd => hd) hd

/-- Two collections of the same imports that both come to an end come to the same, whenever they
may have been asked to stop. -/
theorem settle_unique {isCancelled isCancelled' : Nat → Bool} {number : Nat}
    {waiting : List Import} {o o' : Outcome}
    (h : settle limit isCancelled number waiting c = .ok o)
    (h' : settle limit' isCancelled' number waiting c = .ok o') : o = o' := by
  induction hn : waiting.length using Nat.strongRecOn generalizing waiting number c with
  | ind n ih =>
    rw [settle] at h h'
    split at h
    · cases h
    · split at h'
      · cases h'
      · cases hp : pass limit c waiting with
        | error e => rw [hp] at h; cases h
        | ok r =>
          obtain ⟨d, left⟩ := r
          rw [hp] at h
          rw [pass_mono hle hp] at h'
          simp only at h h'
          split at h
          · next hlt =>
            rw [if_pos hlt] at h'
            exact ih left.length (hn ▸ hlt) h h' rfl
          · next hge =>
            rw [if_neg hge] at h'
            exact Except.ok.inj (h.symm.trans h')

theorem run_unique {isCancelled isCancelled' : Nat → Bool} {waiting : List Import} {o o' : Outcome}
    (h : run limit isCancelled waiting c = .ok o)
    (h' : run limit' isCancelled' waiting c = .ok o') : o = o' := by
  obtain ⟨r, hr, h⟩ := ok_of_bind h
  obtain ⟨r', hr', h'⟩ := ok_of_bind h'
  obtain rfl := settle_unique hle hr hr'
  exact Except.ok.inj (h.symm.trans h')

end Limits

end Collection

/-! ### Builds -/

section Builds

variable {g : CrateGraph} {id : CrateId} {finished : CrateId → Option CrateMap}
  {settings : Settings} {isCancelled isCancelled' : Nat → Bool}

/-- A build with a limit of as many levels as the crate has modules does not fail because of it. -/
theorem buildView_error {failure : Failure}
    (hlimit : ∀ crate start imports, g.crate? id = some crate →
      openBuild g id crate finished settings = .ok (start, imports) →
      start.tree.size ≤ settings.globLimit)
    (h : buildView g id finished settings isCancelled = .error failure) (crate module : String)
    (limit : Nat) : failure.error ≠ .globRecursionLimit crate module limit := by
  unfold buildView at h
  split at h
  · cases h
    exact BuildError.noConfusion
  · next source hsource =>
    split at h
    · cases h
      exact BuildError.noConfusion
    · rcases error_of_bind h with h | ⟨⟨start, imports⟩, hopen, h⟩
      · rcases openBuild_error h with ⟨e, he⟩ | ⟨dependency, he⟩
        · rw [he]
          exact BuildError.noConfusion
        · rw [he]
          exact BuildError.noConfusion
      · rcases error_of_bind h with h | ⟨outcome, -, h⟩
        · rcases error_of_bind h with h | ⟨o, -, h⟩
          · rw [Collection.settle_error (hlimit source start imports hsource hopen)
              (opened_of_openBuild hopen).coherent (fun i hi => hi) h]
            exact BuildError.noConfusion
          · cases h
        · cases h

/-- What can be built with some limit comes to the same with a larger one. -/
theorem buildView_unique {limit limit' : Nat} {built built' : Built} (hle : limit ≤ limit')
    (h : buildView g id finished { settings with globLimit := limit } isCancelled = .ok built)
    (h' : buildView g id finished { settings with globLimit := limit' } isCancelled' = .ok built') :
    built = built' := by
  unfold buildView at h h'
  split at h
  · cases h
  · next crate hcrate =>
    simp only [hcrate] at h'
    split at h
    · cases h
    · split at h'
      · cases h'
      · obtain ⟨⟨start, imports⟩, hopen, h⟩ := ok_of_bind h
        obtain ⟨⟨start', imports'⟩, hopen', h'⟩ := ok_of_bind h'
        -- Only the propagation reads the limit, so that both builds begin alike.
        obtain ⟨rfl, rfl⟩ := Prod.mk.inj (Except.ok.inj (hopen.symm.trans hopen'))
        obtain ⟨o, ho, h⟩ := ok_of_bind h
        obtain ⟨o', ho', h'⟩ := ok_of_bind h'
        obtain rfl := Collection.run_unique hle ho ho'
        exact Except.ok.inj (h.symm.trans h')

end Builds

/-- **Handing names on comes to an end by itself.**  With a limit of as many levels as the crate has
modules, no build of it fails because of the limit; and all limits under which the crate can be
built give the same. -/
theorem buildView_globLimit (g : CrateGraph) (id : CrateId) (finished : CrateId → Option CrateMap)
    (settings : Settings) :
    ((∀ crate start imports, g.crate? id = some crate →
        openBuild g id crate finished settings = .ok (start, imports) →
        start.tree.size ≤ settings.globLimit) →
      ∀ isCancelled failure, buildView g id finished settings isCancelled = .error failure →
        ∀ crate module limit, failure.error ≠ .globRecursionLimit crate module limit) ∧
    ∀ limit limit' isCancelled isCancelled' built built',
      buildView g id finished { settings with globLimit := limit } isCancelled = .ok built →
      buildView g id finished { settings with globLimit := limit' } isCancelled' = .ok built' →
      built = built' := by
  constructor
  · intro hlimit isCancelled failure h crate module limit
    exact buildView_error hlimit h crate module limit
  · intro limit limit' isCancelled isCancelled' built built' h h'
    rcases Nat.le_total limit limit' with hle | hle
    · exact buildView_unique hle h h'
    · exact (buildView_unique hle h' h).symm

/-- Two modules that read from each other can be built with a limit of three, and with a limit of
one come to the same. -/
theorem buildView_globLimit_mirrors :
    (∀ failure, buildView mirrorsGraph ⟨0⟩ (fun _ => none) { globLimit := 3 } (fun _ => false)
      = .error failure → ∀ crate module limit,
        failure.error ≠ .globRecursionLimit crate module limit) ∧
    ∃ built built',
      buildView mirrorsGraph ⟨0⟩ (fun _ => none) { globLimit := 3 } (fun _ => false) = .ok built ∧
      buildView mirrorsGraph ⟨0⟩ (fun _ => none) { globLimit := 1 } (fun _ => false) = .ok built' ∧
      built = built' := by
  have hsize : (openBuild mirrorsGraph ⟨0⟩ mirrors (fun _ => none) { globLimit := 3 }).map
      (fun r => r.1.tree.size) = .ok 3 := by cbv
  obtain ⟨built, h, -⟩ := ok_of_map (x := buildView mirrorsGraph ⟨0⟩ (fun _ => none)
    { globLimit := 3 } (fun _ => false)) (f := fun _ => ()) (b := ()) (by cbv)
  obtain ⟨built', h', -⟩ := ok_of_map (x := buildView mirrorsGraph ⟨0⟩ (fun _ => none)
    { globLimit := 1 } (fun _ => false)) (f := fun _ => ()) (b := ()) (by cbv)
  refine ⟨(buildView_globLimit mirrorsGraph ⟨0⟩ (fun _ => none) { globLimit := 3 }).1 ?_ _,
    built, built', h, h',
    (buildView_globLimit mirrorsGraph ⟨0⟩ (fun _ => none) {}).2 3 1 _ _ built built' h h'⟩
  intro crate start imports hcrate hopen
  obtain rfl : mirrors = crate := Option.some.inj hcrate
  rw [hopen] at hsize
  exact Nat.le_of_eq (Except.ok.inj hsize)

end CrateScope
