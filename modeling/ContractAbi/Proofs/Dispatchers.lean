import ContractAbi.Proofs.Inventory

/-!
# Contracts and their dispatchers

Records and places are both kept by class name. Of contracts that share a name only the last one gets
a routine, and it routes the annotated methods of all of them. So a contract has a dispatcher of its
own only if no later contract has its name and no earlier one of its name has annotated methods.
-/

namespace ContractAbi

/-! ### Places -/

namespace Codebase

theorem classAt?_congr {code code' : Codebase} (same : code.sources = code'.sources) (site : Site) :
    code.classAt? site = code'.classAt? site := by
  unfold classAt?
  rw [same]

theorem classAt?_modifyClass (code : Codebase) (site site' : Site) (f : Class → Class) :
    (code.modifyClass site f).classAt? site' =
      if site' = site then (code.classAt? site).map f else code.classAt? site' := by
  obtain ⟨number, index⟩ := site
  obtain ⟨number', index'⟩ := site'
  unfold classAt? modifyClass
  dsimp only
  rw [List.getElem?_modify]
  by_cases source : number = number'
  · subst source
    cases code.sources[number]? with
    | none => simp
    | some s =>
      by_cases here : index = index'
      · subst here
        simp
      · have other : ¬index' = index := fun same => here same.symm
        simp [here, other]
  · have other : ¬number' = number := fun same => source same.symm
    simp [source, other]

theorem classAt?_of_mem_contracts {code : Codebase} {v : Contract} (listed : v ∈ code.contracts) :
    code.classAt? v.site = some v.declaration := by
  obtain ⟨⟨s, number⟩, source, inside⟩ := List.mem_flatMap.mp listed
  have placed := List.mk_mem_zipIdx_iff_getElem?.mp source
  dsimp only [Source.contracts] at inside
  split at inside
  · cases inside
  · obtain ⟨⟨c, index⟩, declared, rfl⟩ := List.mem_map.mp inside
    have held := List.mk_mem_zipIdx_iff_getElem?.mp declared
    simp [classAt?, placed, held]

theorem mem_methods_of_classAt? {code : Codebase} {site : Site} {c : Class}
    (found : code.classAt? site = some c) {m : Method} (own : m ∈ c.methods) : m ∈ code.methods := by
  obtain ⟨s, source, declared⟩ := Option.bind_eq_some_iff.mp found
  exact List.mem_flatMap.mpr ⟨s, List.mem_of_getElem? source,
    List.mem_flatMap.mpr ⟨c, List.mem_of_getElem? declared, own⟩⟩

/-- No two contracts stand at one place. -/
theorem nodup_sites (code : Codebase) : (code.contracts.map (·.site)).Nodup := by
  have numbers (n : Nat) (s : Source) (site : Site)
      (listed : site ∈ (s.contracts n).map (·.site)) : site.source = n := by
    obtain ⟨v, inside, rfl⟩ := List.mem_map.mp listed
    unfold Source.contracts at inside
    split at inside
    · cases inside
    · obtain ⟨_, _, rfl⟩ := List.mem_map.mp inside
      rfl
  have source (n : Nat) (s : Source) : ((s.contracts n).map (·.site)).Nodup := by
    unfold Source.contracts
    split
    · exact List.nodup_nil
    · have sites : (s.classes.zipIdx.map (·.2)).map (Site.mk n) =
          s.classes.zipIdx.map fun p => ⟨n, p.2⟩ := List.map_map
      rw [List.map_map]
      change (s.classes.zipIdx.map fun p => (⟨n, p.2⟩ : Site)).Nodup
      rw [← sites, List.zipIdx_map_snd]
      exact List.Pairwise.map _ (fun _ _ different same => different (Site.mk.inj same).2)
        List.nodup_range'
  unfold contracts List.Nodup
  rw [List.map_flatMap, List.pairwise_flatMap]
  refine ⟨fun p _ => source p.2 p.1, ?_⟩
  have increasing : code.sources.zipIdx.Pairwise fun p q => p.2 ≠ q.2 := by
    rw [← List.pairwise_map, List.zipIdx_map_snd]
    exact List.nodup_range'
  refine increasing.imp ?_
  rintro p q different site first _ second rfl
  exact different ((numbers _ _ _ first).symm.trans (numbers _ _ _ second))

end Codebase

/-! ### Injecting -/

namespace Injector

variable {classes : Table Json Visit} {s : Injector} {site : Site}

/-- Where the routine of a group goes. -/
def siteOf (classes : Table Json Visit) (group : Name × List Record) : Option Site :=
  (classes.get? group.1.key).map (·.site)

/-- The first group is injected at its site, and then the others are. -/
theorem injectAll_step (s : Injector) {group : Name × List Record} (rest : List (Name × List Record))
    (ready : IsReady classes group) : ∃ next : Injector,
      (injectAll classes s (group :: rest)).1 = (injectAll classes next rest).1 ∧
      next.layout.indentUnit = s.layout.indentUnit ∧
      ∀ site, next.code.classAt? site = if siteOf classes group = some site then
        (s.code.classAt? site).map fun c => (c.splice (s.routineOf group.2)).1
        else s.code.classAt? site := by
  obtain ⟨visit, next, found, injected, step⟩ := s.injectAll_cons rest ready
  obtain ⟨findings, same⟩ := s.inject_eq visit.site ready.2.2
  rw [injected] at same
  obtain ⟨reached, -⟩ := Prod.mk.inj same
  refine ⟨next, by rw [step], by rw [reached]; rfl, fun site => ?_⟩
  have changed := s.code.classAt?_modifyClass visit.site site
    fun c => (c.splice (s.routineOf group.2)).1
  have placed : siteOf classes group = some site ↔ site = visit.site := by
    simp [siteOf, found, eq_comm]
  simp only [placed, reached]
  refine (Codebase.classAt?_congr rfl site).trans (changed.trans ?_)
  by_cases here : site = visit.site
  · rw [if_pos here, if_pos here, here]
  · rw [if_neg here, if_neg here]

theorem injectAll_classAt?_of_ne {groups : List (Name × List Record)}
    (ready : ∀ group ∈ groups, IsReady classes group)
    (elsewhere : ∀ group ∈ groups, siteOf classes group ≠ some site) :
    (injectAll classes s groups).1.code.classAt? site = s.code.classAt? site := by
  induction groups generalizing s with
  | nil => rfl
  | cons group rest ih =>
    obtain ⟨next, same, -, placed⟩ := s.injectAll_step rest (ready _ List.mem_cons_self)
    rw [same, ih (fun g member => ready g (List.mem_cons_of_mem _ member))
      (fun g member => elsewhere g (List.mem_cons_of_mem _ member)), placed,
      if_neg (elsewhere _ List.mem_cons_self)]

/-- A class that is alone at its site gets the routine of its group and no other. -/
theorem injectAll_classAt? {groups : List (Name × List Record)}
    (ready : ∀ group ∈ groups, IsReady classes group)
    (apart : groups.Pairwise fun g g' => siteOf classes g ≠ siteOf classes g')
    {group : Name × List Record} (listed : group ∈ groups)
    (here : siteOf classes group = some site) : ∃ m : Method,
      m.name = .str Dispatch.routineName ∧ m.decorators = [] ∧
      m.body = some (Dispatch.routineText s.layout.indentUnit (Dispatch.guards group.2)) ∧
      (injectAll classes s groups).1.code.classAt? site =
        (s.code.classAt? site).map fun c => (c.splice m).1 := by
  induction groups generalizing s with
  | nil => cases listed
  | cons first rest ih =>
    obtain ⟨next, same, unit, placed⟩ := s.injectAll_step rest (ready _ List.mem_cons_self)
    obtain ⟨different, apart⟩ := List.pairwise_cons.mp apart
    have others : ∀ group ∈ rest, IsReady classes group :=
      fun g member => ready g (List.mem_cons_of_mem _ member)
    rw [same]
    rcases List.mem_cons.mp listed with rfl | later
    · have elsewhere : ∀ g ∈ rest, siteOf classes g ≠ some site :=
        fun g member => here ▸ (different g member).symm
      refine ⟨s.routineOf group.2, rfl, rfl, rfl, ?_⟩
      rw [injectAll_classAt?_of_ne others elsewhere, placed, if_pos here]
    · obtain ⟨m, name, bare, body, result⟩ := ih (s := next) others apart later
      refine ⟨m, name, bare, unit ▸ body, result.trans ?_⟩
      rw [placed, if_neg (here ▸ different group later)]

end Injector

/-! ### Methods of fresh code -/

namespace Codebase

theorem enrollEach_forall {α β : Type} {f : Nat → α → β × Nat} {P : β → Prop}
    (each : ∀ next x, P (f next x).1) (next : Nat) (xs : List α) :
    ∀ y ∈ (enrollEach f next xs).1, P y := by
  induction xs generalizing next with
  | nil => nofun
  | cons x xs ih =>
    rw [enrollEach]
    exact List.forall_mem_cons.mpr ⟨each next x, ih _⟩

/-- No method of fresh code has been synthesized. -/
theorem body_of_mem_ofDump {dump : List Dump.Source} {m : Method}
    (listed : m ∈ (ofDump dump).methods) : m.body = none := by
  let memberFresh (member : Member) : Prop := ∀ m, member.method? = some m → m.body = none
  let classFresh (c : Class) : Prop := ∀ m ∈ c.methods, m.body = none
  let sourceFresh (s : Source) : Prop := ∀ c ∈ s.classes, classFresh c
  have members (next : Nat) (member : Dump.Member) : memberFresh (enrollMember next member).1 := by
    intro m same
    cases member with
    | method name decorators =>
      cases same
      rfl
    | field f => cases same
  have classes (next : Nat) (c : Dump.Class) : classFresh (enrollClass next c).1 := by
    intro m own
    obtain ⟨member, inside, same⟩ := List.mem_filterMap.mp own
    exact enrollEach_forall (P := memberFresh) members next c.members member inside m same
  have sources (next : Nat) (s : Dump.Source) : sourceFresh (enrollSource next s).1 :=
    enrollEach_forall (P := classFresh) classes next s.classes
  obtain ⟨s, source, inside⟩ := List.mem_flatMap.mp listed
  obtain ⟨c, declared, own⟩ := List.mem_flatMap.mp inside
  exact enrollEach_forall (P := sourceFresh) sources 0 dump s source c declared m own

end Codebase

/-! ### Guards -/

/-- Of lists whose elements are of one kind each, those of a kind are all that is of the kind. -/
theorem filter_flatMap_of_kind {α β κ : Type} [DecidableEq κ] {kind : β → κ} {key : α → κ}
    {f : α → List β} (own : ∀ x, ∀ y ∈ f x, kind y = key x) (xs : List α) (k : κ) :
    (xs.flatMap f).filter (kind · = k) = (xs.filter (key · = k)).flatMap f := by
  have one (x : α) : (f x).filter (kind · = k) = if key x = k then f x else [] := by
    split
    · rename_i same
      exact List.filter_eq_self.mpr fun y member => by simp [own x y member, same]
    · rename_i different
      exact List.filter_eq_nil_iff.mpr fun y member => by simp [own x y member, different]
  induction xs with
  | nil => rfl
  | cons x xs ih =>
    rw [List.flatMap_cons, List.filter_append, ih, one, List.filter_cons]
    by_cases same : key x = k <;> simp [same]

namespace Contract

/-- The guards of these methods, as their own annotations have them. -/
def guards (methods : List (Name × Method)) : Except Fault (List (Text × Text)) :=
  methods.mapM fun p => Dispatch.guardOf (.ofMethod p.1 p.2 0)

theorem guards_append {xs ys : List (Name × Method)} {all : List (Text × Text)}
    (made : guards (xs ++ ys) = .ok all) :
    ∃ more own, guards xs = .ok more ∧ guards ys = .ok own ∧ all = more ++ own := by
  unfold guards at made
  rw [List.mapM_append] at made
  obtain ⟨more, first, made⟩ := bind_ok made
  obtain ⟨own, second, made⟩ := bind_ok made
  exact ⟨more, own, first, second, (Except.ok.inj made).symm⟩

theorem eq_nil_of_guards {methods : List (Name × Method)} (made : guards methods = .ok []) :
    methods = [] :=
  List.forall₂_nil_right_iff.mp (mapM_eq_ok.mp made)

/-- The annotated methods of all classes of a name. -/
theorem annotated_filter (vs : List Contract) (key : Json) :
    (vs.flatMap annotated).filter (·.1.key = key) =
      (vs.filter (·.name.key = key)).flatMap annotated :=
  filter_flatMap_of_kind (fun _ _ member => congrArg Json.key (owner_of_mem_annotated member)) vs key

end Contract

theorem Record.Describes.guardOf_eq {p : Name × Method} {r : Record} (describes : r.Describes p)
    (settled : r.IsSettled) : Dispatch.guardOf r = Dispatch.guardOf (ofMethod p.1 p.2 0) := by
  have declared : r.declared = (ofMethod p.1 p.2 0).declared := by
    rw [describes]
    rfl
  unfold Dispatch.guardOf
  rw [describes.resolveCall_eq settled, declared]

/-- The guards of settled records are those of the methods that they describe. -/
theorem Contract.guards_of_describes {methods : List (Name × Method)} {records : List Record}
    (describe : List.Forall₂ (fun p r => Record.Describes p r) methods records)
    (settled : ∀ r ∈ records, r.IsSettled) : guards methods = .ok (Dispatch.guards records) := by
  have called : records.mapM Dispatch.guardOf = .ok (Dispatch.guards records) := by
    refine Dispatch.mapM_guardOf fun r member => ?_
    obtain ⟨call, stored, -⟩ := (settled r member).resolveCall_eq
    exact Option.isSome_iff_exists.mpr ⟨call, stored⟩
  have each := (List.forall₂_and_left _ _).mpr ⟨settled, mapM_eq_ok.mp called⟩
  refine mapM_eq_ok.mpr (forall₂_comp ?_ describe each)
  rintro p r guard describes ⟨isSettled, made⟩
  rw [← describes.guardOf_eq isSettled, made]

theorem Dispatch.routineText_cons_length (indent : Text) (guard : Text × Text)
    (guards : List (Text × Text)) :
    (routineText indent guards).toList.length <
      (routineText indent (guard :: guards)).toList.length := by
  let guardLines := guards.map fun g => indent ++ guardText g.1 g.2
  obtain ⟨line, rest, tail⟩ :
      ∃ line rest, guardLines ++ [indent ++ parentLine, "\x7d"] = line :: rest :=
    List.exists_cons_of_ne_nil (by simp)
  have shorter : routineLines indent guards = marker :: headLine :: line :: rest := by
    rw [← tail]
    rfl
  have longer : routineLines indent (guard :: guards) =
      marker :: headLine :: (indent ++ guardText guard.1 guard.2) :: line :: rest := by
    rw [← tail]
    rfl
  rw [routineText, routineText, Text.toList_intercalate, Text.toList_intercalate, shorter, longer]
  simp only [List.map_cons, List.intercalate_cons_cons, List.length_append]
  have feed : (Text.toList "\n").length = 1 := by decide
  omega

/-- Routines with more guards are longer, so they are other texts. -/
theorem Dispatch.eq_nil_of_routineText_eq {indent : Text} {more guards : List (Text × Text)}
    (same : routineText indent (more ++ guards) = routineText indent guards) : more = [] := by
  have longer (more : List (Text × Text)) :
      (routineText indent guards).toList.length ≤
        (routineText indent (more ++ guards)).toList.length := by
    induction more with
    | nil => exact Nat.le_refl _
    | cons g more ih =>
      have step := routineText_cons_length indent g (more ++ guards)
      rw [List.cons_append]
      omega
  cases more with
  | nil => rfl
  | cons g more =>
    have step := routineText_cons_length indent g (more ++ guards)
    have rest := longer more
    rw [← List.cons_append, same] at step
    omega

namespace Class

theorem mem_methods_splice_self (c : Class) (m : Method) : m ∈ (c.splice m).1.methods := by
  refine List.mem_filterMap.mpr ⟨.method m, ?_, rfl⟩
  unfold splice
  split
  · rename_i i found
    have inside := (List.findIdx?_eq_some_iff_getElem.mp found).1
    exact List.mem_set inside _
  · exact List.mem_append_right _ List.mem_cons_self

theorem mem_methods_splice {c : Class} {m own : Method} (member : own ∈ (c.splice m).1.methods) :
    own = m ∨ own ∈ c.methods := by
  obtain ⟨x, inside, same⟩ := List.mem_filterMap.mp member
  have cases : x ∈ c.members ∨ x = .method m := by
    unfold splice at inside
    split at inside
    · exact List.mem_or_eq_of_mem_set inside
    · simpa using inside
  rcases cases with old | rfl
  · exact Or.inr (List.mem_filterMap.mpr ⟨x, old, same⟩)
  · exact Or.inl (Option.some.inj same).symm

end Class

/-! ### Runs -/

namespace Catalog

theorem byClass_keys_ne (c : Catalog) : c.byClass.Pairwise fun g g' => g.1.key ≠ g'.1.key := by
  unfold byClass
  exact List.pairwise_map.mpr (List.pairwise_map.mp c.nodup_owner_keys)

theorem mem_byClass {c : Catalog} (plain : ∀ r ∈ c.records, r.owner.isComposite = false)
    {r : Record} (member : r ∈ c.records) :
    ∃ owner, owner.key = r.owner.key ∧ (owner, c.recordsOf owner) ∈ c.byClass := by
  have known : r.owner.key ∈ c.owners.map Json.key := by
    rw [owners_keys plain, mem_distinct]
    exact List.mem_map.mpr ⟨r, member, rfl⟩
  obtain ⟨owner, listed, same⟩ := List.mem_map.mp known
  exact ⟨owner, same, List.mem_map_of_mem listed⟩

end Catalog

namespace Transformer

variable {t : Transformer} {code : Codebase} {program : Option Program} {output : Output}
  {files : Table Text Text}

theorem siteOf_eq (h : (t.run code program).2.2 = .ok (output, files)) (group : Name × List Record) :
    Injector.siteOf output.catalog.classes group =
      (code.contracts.filter (·.name.key = group.1.key)).getLast?.map (·.site) := by
  obtain ⟨g, same, -⟩ := run_records h
  unfold Injector.siteOf
  rw [same]
  exact (code.surveyed_sees (surveyed_of_run_ok h)).sites group.1.key

/-- The contract whose site a group has is one of the group's name. -/
theorem key_of_siteOf (h : (t.run code program).2.2 = .ok (output, files)) {v : Contract}
    (listed : v ∈ code.contracts) {group : Name × List Record}
    (placed : Injector.siteOf output.catalog.classes group = some v.site) :
    group.1.key = v.name.key := by
  rw [siteOf_eq h] at placed
  obtain ⟨u, last, same⟩ := Option.map_eq_some_iff.mp placed
  obtain ⟨inside, named⟩ := List.mem_filter.mp (List.mem_of_getLast? last)
  have one := Codebase.classAt?_of_mem_contracts inside
  rw [same, Codebase.classAt?_of_mem_contracts listed, Option.some.injEq] at one
  rw [← of_decide_eq_true named]
  unfold Contract.name
  rw [one]

/-- No two groups have the same site. -/
theorem byClass_sites_ne (h : (t.run code program).2.2 = .ok (output, files)) :
    output.catalog.byClass.Pairwise fun g g' => Injector.siteOf output.catalog.classes g ≠
      Injector.siteOf output.catalog.classes g' := by
  obtain ⟨c, s, stages⟩ := run_stages h
  refine output.catalog.byClass_keys_ne.imp_of_mem ?_
  intro g g' member _ different same
  obtain ⟨visit, found⟩ := Option.isSome_iff_exists.mp (stages.ready g member).2.1
  have placed : Injector.siteOf output.catalog.classes g = some visit.site := by
    unfold Injector.siteOf
    rw [found]
    rfl
  have last := (siteOf_eq h g).symm.trans placed
  obtain ⟨u, found, site⟩ := Option.map_eq_some_iff.mp last
  obtain ⟨inside, -⟩ := List.mem_filter.mp (List.mem_of_getLast? found)
  rw [← site] at placed
  exact different ((key_of_siteOf h inside placed).trans
    (key_of_siteOf h inside (same ▸ placed)).symm)

/-- After a run, a place has what stood there before, or that with the routine of a group. -/
theorem run_classAt? (h : (t.run code program).2.2 = .ok (output, files)) (site : Site) :
    ((∀ group ∈ output.catalog.byClass,
        Injector.siteOf output.catalog.classes group ≠ some site) →
      (t.run code program).2.1.classAt? site = code.classAt? site) ∧
    ∀ group ∈ output.catalog.byClass, Injector.siteOf output.catalog.classes group = some site →
      ∃ m : Method, m.name = .str Dispatch.routineName ∧ m.decorators = [] ∧
        m.body = some (Dispatch.routineText t.layout.indentUnit (Dispatch.guards group.2)) ∧
        (t.run code program).2.1.classAt? site =
          (code.classAt? site).map fun c => (c.splice m).1 := by
  obtain ⟨c, s, stages⟩ := run_stages h
  have start : (t.injector code program c).code.classAt? site = code.classAt? site :=
    Codebase.classAt?_congr (code.survey_sources program) site
  have reached : (t.run code program).2.1 = (Injector.injectAll output.catalog.classes
      (t.injector code program c) output.catalog.byClass).1.code := by
    rw [stages.ran, stages.injected]
  rw [reached, ← start]
  exact ⟨Injector.injectAll_classAt?_of_ne stages.ready, fun group listed here =>
    Injector.injectAll_classAt? (s := t.injector code program c) stages.ready (byClass_sites_ne h)
      listed here⟩

/-- A contract is left as it is if a later one has its name. -/
theorem run_classAt?_of_later (h : (t.run code program).2.2 = .ok (output, files))
    {before after : List Contract} {v w : Contract} (split : code.contracts = before ++ v :: after)
    (later : w ∈ after) (same : w.name.key = v.name.key) :
    (t.run code program).2.1.classAt? v.site = some v.declaration := by
  have listed : v ∈ code.contracts := split ▸ List.mem_append_right _ List.mem_cons_self
  rw [← Codebase.classAt?_of_mem_contracts listed]
  refine (run_classAt? h v.site).1 ?_
  intro group _ placed
  have key := key_of_siteOf h listed placed
  -- The site of the group is that of a contract after this one, and no two contracts share a site.
  have nonempty : after.filter (·.name.key = group.1.key) ≠ [] :=
    List.ne_nil_of_mem (List.mem_filter.mpr ⟨later, by rw [same, key]; exact decide_eq_true rfl⟩)
  rw [siteOf_eq h, split, List.filter_append, List.filter_cons] at placed
  rw [if_pos (by rw [key]; exact decide_eq_true rfl), ← List.singleton_append, ← List.append_assoc,
    List.getLast?_append_of_ne_nil _ nonempty] at placed
  obtain ⟨u, last, site⟩ := Option.map_eq_some_iff.mp placed
  have after : u ∈ after := (List.mem_filter.mp (List.mem_of_getLast? last)).1
  have apart := code.nodup_sites
  rw [split, List.map_append, List.map_cons] at apart
  have own := (List.nodup_cons.mp (List.nodup_append.mp apart).2.1).1
  exact own (site ▸ List.mem_map_of_mem after)

/-- The guards of a group are those of the annotated methods of all contracts of its name. -/
theorem run_guards (fresh : code.IsFresh) (h : (t.run code program).2.2 = .ok (output, files))
    (key : Json) : Contract.guards ((code.contracts.filter (·.name.key = key)).flatMap
      Contract.annotated) =
        .ok (Dispatch.guards (output.catalog.records.filter (·.owner.key = key))) := by
  have describe : List.Forall₂ (fun p r => Record.Describes p r)
      (code.annotated.filter (·.1.key = key))
      (output.catalog.records.filter (·.owner.key = key)) := by
    refine List.rel_filter ?_ (run_describes fresh h)
    intro p r own
    simp [own.owner_eq]
  have settled : ∀ r ∈ output.catalog.records.filter (·.owner.key = key), r.IsSettled :=
    fun r member => run_settled fresh h r (List.mem_filter.mp member).1
  unfold Codebase.annotated at describe
  rw [Contract.annotated_filter] at describe
  exact Contract.guards_of_describes describe settled

/-- A contract that no later one shares its name with gets a routine for the annotated methods of all
contracts of that name. -/
theorem run_classAt?_of_last (fresh : code.IsFresh)
    (h : (t.run code program).2.2 = .ok (output, files)) {before after : List Contract} {v : Contract}
    (split : code.contracts = before ++ v :: after) (last : ∀ u ∈ after, u.name.key ≠ v.name.key)
    (annotated : v.annotated ≠ []) : ∃ (m : Method) (guards : List (Text × Text)),
      m.name = .str Dispatch.routineName ∧
      m.body = some (Dispatch.routineText t.layout.indentUnit guards) ∧
      Contract.guards ((before.filter (·.name.key = v.name.key)).flatMap Contract.annotated ++
        v.annotated) = .ok guards ∧
      (t.run code program).2.1.classAt? v.site = some (v.declaration.splice m).1 := by
  have listed : v ∈ code.contracts := split ▸ List.mem_append_right _ List.mem_cons_self
  have none : after.filter (·.name.key = v.name.key) = [] :=
    List.filter_eq_nil_iff.mpr fun u member => by simpa using last u member
  have namesakes : code.contracts.filter (·.name.key = v.name.key) =
      before.filter (·.name.key = v.name.key) ++ [v] := by
    rw [split, List.filter_append, List.filter_cons, none]
    simp
  have guards := run_guards fresh h v.name.key
  rw [namesakes, List.flatMap_append, List.flatMap_singleton] at guards
  -- The contract's own methods have records, so there is a group under its name.
  obtain ⟨r, member⟩ : ∃ r, r ∈ output.catalog.records.filter (·.owner.key = v.name.key) := by
    refine List.exists_mem_of_ne_nil _ fun empty => ?_
    rw [empty] at guards
    exact annotated (List.append_eq_nil_iff.mp (Contract.eq_nil_of_guards guards)).2
  obtain ⟨recorded, key⟩ := List.mem_filter.mp member
  obtain ⟨owner, same, grouped⟩ := Catalog.mem_byClass (run_plain fresh h) recorded
  have named : owner.key = v.name.key := same.trans (of_decide_eq_true key)
  have placed : Injector.siteOf output.catalog.classes (owner, output.catalog.recordsOf owner) =
      some v.site := by
    rw [siteOf_eq h, named, namesakes, List.getLast?_concat]
    rfl
  obtain ⟨m, name, -, body, result⟩ := (run_classAt? h v.site).2 _ grouped placed
  unfold Catalog.recordsOf at body
  rw [named] at body
  rw [Codebase.classAt?_of_mem_contracts listed] at result
  exact ⟨m, _, name, body, guards, result⟩

/-! ### Dispatchers -/

/-- The class at the contract's place has a method `execute` whose guards are those of the
contract's own annotated methods. -/
def HasOwnDispatcher (indent : Text) (code : Codebase) (v : Contract) : Prop :=
  ∃ c m guards, code.classAt? v.site = some c ∧ m ∈ c.methods ∧
    m.name = .str Dispatch.routineName ∧ Contract.guards v.annotated = .ok guards ∧
    m.body = some (Dispatch.routineText indent guards)

/-- In fresh code, a contract with annotated methods gets a dispatcher of its own if and only if no
later contract has its name and no earlier one of its name has annotated methods. -/
theorem dispatcher_is_own_iff {t : Transformer} {dump : List Dump.Source} {program : Option Program}
    {output : Output} {files : Table Text Text}
    (h : (t.run (.ofDump dump) program).2.2 = .ok (output, files)) {before after : List Contract}
    {v : Contract} (split : (Codebase.ofDump dump).contracts = before ++ v :: after)
    (annotated : v.annotated ≠ []) :
    HasOwnDispatcher t.layout.indentUnit (t.run (.ofDump dump) program).2.1 v ↔
      (∀ u ∈ after, u.name.key ≠ v.name.key) ∧
        ∀ u ∈ before, u.name.key = v.name.key → u.annotated = [] := by
  have listed : v ∈ (Codebase.ofDump dump).contracts :=
    split ▸ List.mem_append_right _ List.mem_cons_self
  have unwritten : ∀ m ∈ v.declaration.methods, m.body = none := fun m own =>
    Codebase.body_of_mem_ofDump
      (Codebase.mem_methods_of_classAt? (Codebase.classAt?_of_mem_contracts listed) own)
  constructor
  · rintro ⟨c, m, guards, found, member, -, own, body⟩
    have last : ∀ u ∈ after, u.name.key ≠ v.name.key := by
      intro w later same
      rw [run_classAt?_of_later h split later same, Option.some.injEq] at found
      rw [unwritten m (found ▸ member)] at body
      cases body
    refine ⟨last, ?_⟩
    obtain ⟨m', all, -, text, made, result⟩ :=
      run_classAt?_of_last (Codebase.isFresh_ofDump dump) h split last annotated
    rw [result, Option.some.injEq] at found
    rcases Class.mem_methods_splice (found ▸ member) with rfl | old
    · obtain ⟨more, own', earlier, same, rfl⟩ := Contract.guards_append made
      obtain rfl := Except.ok.inj (same.symm.trans own)
      obtain rfl := Dispatch.eq_nil_of_routineText_eq (Option.some.inj (text.symm.trans body))
      have none := List.flatMap_eq_nil_iff.mp (Contract.eq_nil_of_guards earlier)
      exact fun u member same => none u (List.mem_filter.mpr ⟨member, decide_eq_true same⟩)
    · rw [unwritten m old] at body
      cases body
  · rintro ⟨last, alone⟩
    obtain ⟨m, guards, name, body, made, result⟩ :=
      run_classAt?_of_last (Codebase.isFresh_ofDump dump) h split last annotated
    have none : (before.filter (·.name.key = v.name.key)).flatMap Contract.annotated = [] := by
      refine List.flatMap_eq_nil_iff.mpr fun u member => ?_
      obtain ⟨earlier, same⟩ := List.mem_filter.mp member
      exact alone u earlier (of_decide_eq_true same)
    rw [none, List.nil_append] at made
    exact ⟨_, m, guards, result, Class.mem_methods_splice_self _ m, name, made, body⟩

/-- Two contracts that share a name, and a third one. -/
def twins : List Dump.Source := [
  { path := .str "mint.ts", isLibrary := false
    classes := [
      { name := .str "Token", base := .null, decorators := []
        members := [.method (.str "mint") [⟨.str "method", []⟩]] }] },
  { path := .str "burn.ts", isLibrary := false
    classes := [
      { name := .str "Token", base := .null, decorators := []
        members := [.method (.str "burn") [⟨.str "method", []⟩]] },
      { name := .str "Vault", base := .null, decorators := []
        members := [.method (.str "lock") [⟨.str "method", []⟩]] }] }]

/-- A contract of `twins`. -/
def twin (site : Site) (path name : Text) (key : Nat) (method : Text) : Contract where
  site := site
  path := .str path
  declaration :=
    { name := .str name, base := .null, decorators := []
      members := [.method { key, name := .str method, decorators := [⟨.str "method", []⟩] }] }

def minter : Contract := twin ⟨0, 0⟩ "mint.ts" "Token" 0 "mint"

def burner : Contract := twin ⟨1, 0⟩ "burn.ts" "Token" 1 "burn"

def vault : Contract := twin ⟨1, 1⟩ "burn.ts" "Vault" 2 "lock"

theorem contracts_twins : (Codebase.ofDump twins).contracts = [minter, burner, vault] := by
  decide +kernel

theorem run_twins : ∃ output files,
    (({} : Transformer).run (.ofDump twins) none).2.2 = .ok (output, files) :=
  run_completes {} (show (Codebase.ofDump twins).isTextual = true by decide) (by decide +kernel)

/-- Neither of the two that share a name has a dispatcher of its own. The third contract has one. -/
theorem dispatchers_of_twins :
    minter.annotated ≠ [] ∧ burner.annotated ≠ [] ∧ vault.annotated ≠ [] ∧
      ¬HasOwnDispatcher "    " (({} : Transformer).run (.ofDump twins) none).2.1 minter ∧
      ¬HasOwnDispatcher "    " (({} : Transformer).run (.ofDump twins) none).2.1 burner ∧
      HasOwnDispatcher "    " (({} : Transformer).run (.ofDump twins) none).2.1 vault := by
  obtain ⟨output, files, ran⟩ := run_twins
  have first : (Codebase.ofDump twins).contracts = [] ++ minter :: [burner, vault] := contracts_twins
  have second : (Codebase.ofDump twins).contracts = [minter] ++ burner :: [vault] := contracts_twins
  have third : (Codebase.ofDump twins).contracts = [minter, burner] ++ vault :: [] := contracts_twins
  have annotated : minter.annotated ≠ [] ∧ burner.annotated ≠ [] ∧ vault.annotated ≠ [] := by
    decide
  obtain ⟨mints, burns, locks⟩ := annotated
  refine ⟨mints, burns, locks, ?_, ?_, ?_⟩
  · intro own
    have alone := ((dispatcher_is_own_iff ran first mints).mp own).1
    exact alone burner (by simp) (by decide)
  · intro own
    have alone := ((dispatcher_is_own_iff ran second burns).mp own).2
    exact mints (alone minter (by simp) (by decide))
  · exact (dispatcher_is_own_iff ran third locks).mpr (by decide)

/-- A class with an annotated method may end up without a method `execute`. -/
theorem minter_has_no_dispatcher : ∃ output files c,
    (({} : Transformer).run (.ofDump twins) none).2.2 = .ok (output, files) ∧
      minter ∈ (Codebase.ofDump twins).contracts ∧ minter.annotated ≠ [] ∧
      (({} : Transformer).run (.ofDump twins) none).2.1.classAt? minter.site = some c ∧
      ∀ m ∈ c.methods, m.name ≠ .str Dispatch.routineName := by
  obtain ⟨output, files, ran⟩ := run_twins
  have first : (Codebase.ofDump twins).contracts = [] ++ minter :: [burner, vault] := contracts_twins
  have kept := run_classAt?_of_later ran first List.mem_cons_self rfl
  refine ⟨output, files, minter.declaration, ran, ?_, by decide, kept, by decide⟩
  rw [contracts_twins]
  exact List.mem_cons_self

end Transformer

end ContractAbi
