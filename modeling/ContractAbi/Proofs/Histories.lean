import ContractAbi.Proofs.Splicing

/-!
# Codebases that runs lead to

A run gives out handles and splices routines in, and does nothing else to a codebase: `run_keeps`. A
routine gets a key of its own, so no two methods ever share one.
-/

namespace ContractAbi

/-- The method has the name of a routine and no decorators. -/
structure Method.IsRoutine (m : Method) : Prop where
  name : m.name = .str Dispatch.routineName
  bare : m.decorators = []

theorem modify_cases {α : Type} (xs : List α) (i : Nat) (f : α → α) :
    xs.modify i f = xs ∨
      ∃ before x after, xs = before ++ x :: after ∧ xs.modify i f = before ++ f x :: after := by
  by_cases inside : i < xs.length
  · refine Or.inr ⟨xs.take i, xs[i], xs.drop (i + 1), by simp, ?_⟩
    rw [List.modify_eq_take_cons_drop inside]
  · exact Or.inl (List.modify_eq_self (by omega))

namespace Codebase

/-- The codebase with a method spliced into the class at a place. -/
def spliced (code : Codebase) (site : Site) (m : Method) : Codebase :=
  { code.modifyClass site (fun c => (c.splice m).1) with nextKey := m.key + 1 }

end Codebase

namespace Injector

theorem inject_code (s : Injector) (site : Site) (records : List Record) :
    (s.inject site records).1.code = s.code ∨
      ∃ m : Method, m.IsRoutine ∧ m.key = s.code.nextKey ∧
        (s.inject site records).1.code = s.code.spliced site m := by
  unfold inject
  split
  · exact Or.inl rfl
  · exact Or.inr ⟨_, ⟨rfl, rfl⟩, rfl, rfl⟩

variable {P : Codebase → Prop}

theorem inject_keeps
    (splices : ∀ code site (m : Method), P code → m.IsRoutine → m.key = code.nextKey →
      P (code.spliced site m)) {s : Injector} (start : P s.code) (site : Site)
    (records : List Record) : P (s.inject site records).1.code := by
  rcases s.inject_code site records with same | ⟨m, routine, key, same⟩
  · rwa [same]
  · rw [same]
    exact splices s.code site m start routine key

theorem injectAll_keeps
    (splices : ∀ code site (m : Method), P code → m.IsRoutine → m.key = code.nextKey →
      P (code.spliced site m)) (classes : Table Json Visit) {s : Injector} (start : P s.code)
    (groups : List (Name × List Record)) : P (injectAll classes s groups).1.code := by
  fun_induction injectAll classes s groups with
  | case1 => exact start
  | case2 => rename_i ih; exact ih start
  | case3 => rename_i ih; exact ih start
  | case4 s owner records rest nonempty visit found next fault stopped =>
    have kept := inject_keeps splices start visit.site records
    rwa [stopped] at kept
  | case5 s owner records rest nonempty visit found next m injected last result ran ih =>
    have kept := inject_keeps splices start visit.site records
    rw [injected] at kept
    rw [ran] at ih
    exact ih kept

end Injector

/-- What other handles and one more routine leave true, a run leaves true, however it ends. -/
theorem Transformer.run_keeps {P : Codebase → Prop}
    (handles : ∀ code handles, P code → P { code with handles })
    (splices : ∀ code site (m : Method), P code → m.IsRoutine → m.key = code.nextKey →
      P (code.spliced site m))
    (t : Transformer) {code : Codebase} (program : Option Program) (start : P code) :
    P (t.run code program).2.1 := by
  obtain ⟨given, same⟩ := code.survey_eq program
  have kept : P (code.survey program).1 := same ▸ handles code given start
  cases surveyed : (code.survey program).2 with
  | error fault =>
    rw [run_eq_of_survey_error surveyed]
    exact kept
  | ok c =>
    cases built : c.build with
    | error fault =>
      rw [run_eq_of_build_error surveyed built]
      exact kept
    | ok result =>
      obtain ⟨c', unit, classes⟩ := result
      obtain ⟨s, output, stages, -⟩ := stages_of_build_ok (t := t) surveyed built
      have injected := Injector.injectAll_keeps splices output.catalog.classes
        (s := t.injector code program c) kept output.catalog.byClass
      rw [stages.injected] at injected
      rw [stages.ran]
      exact injected

namespace Codebase

/-! ### Keys -/

theorem methods_spliced (code : Codebase) (site : Site) (m : Method) :
    (code.spliced site m).methods = code.methods ∨
      ∃ before old after, code.methods = before ++ old ++ after ∧
        (code.spliced site m).methods = before ++ m :: after := by
  unfold methods spliced modifyClass
  dsimp only
  rcases modify_cases code.sources site.source fun s =>
    { s with classes := s.classes.modify site.index fun c => (c.splice m).1 } with
    same | ⟨earlier, s, later, sources, same⟩
  · rw [same]
    exact Or.inl rfl
  rcases modify_cases s.classes site.index fun c => (c.splice m).1 with
    kept | ⟨before, c, after, classes, kept⟩
  · rw [same, sources, kept]
    exact Or.inl rfl
  · obtain ⟨xs, old, ys, own, spliced, -⟩ := c.methods_splice m
    let front := earlier.flatMap (fun s => s.classes.flatMap (·.methods)) ++ before.flatMap (·.methods)
    let back := after.flatMap (·.methods) ++ later.flatMap fun s => s.classes.flatMap (·.methods)
    refine Or.inr ⟨front ++ xs, old, ys ++ back, ?_, ?_⟩
    · rw [sources]
      simp [classes, own, front, back]
    · rw [same]
      simp [kept, spliced, front, back]

/-- No two methods share a key, and none has one that is free. -/
structure WellKeyed (code : Codebase) : Prop where
  fresh : code.IsFresh
  below : ∀ m ∈ code.methods, m.key < code.nextKey

theorem wellKeyed_ofDump (dump : List Dump.Source) : (ofDump dump).WellKeyed := by
  refine ⟨isFresh_ofDump dump, fun m member => ?_⟩
  have listed : m.key ∈ (ofDump dump).methods.map (·.key) := List.mem_map_of_mem member
  rw [keys_ofDump] at listed
  exact List.mem_range.mp listed

theorem WellKeyed.spliced {code : Codebase} (keyed : code.WellKeyed) (site : Site) {m : Method}
    (key : m.key = code.nextKey) : (code.spliced site m).WellKeyed := by
  have free : (code.spliced site m).nextKey = code.nextKey + 1 := congrArg (· + 1) key
  rcases code.methods_spliced site m with same | ⟨before, old, after, split, same⟩
  · refine ⟨by unfold IsFresh; rw [same]; exact keyed.fresh, fun own member => ?_⟩
    have below := keyed.below own (same ▸ member)
    omega
  · have kept : (before ++ after).Sublist code.methods := by
      rw [split, List.append_assoc]
      exact List.Sublist.append_left (List.sublist_append_right old after) before
    refine ⟨?_, fun own member => ?_⟩
    · unfold IsFresh
      rw [same, List.map_append, List.map_cons, List.nodup_middle, List.nodup_cons, ← List.map_append]
      refine ⟨fun taken => ?_, keyed.fresh.sublist (kept.map _)⟩
      obtain ⟨own, member, equal⟩ := List.mem_map.mp taken
      have below := keyed.below own (kept.subset member)
      omega
    · rw [same] at member
      rcases List.mem_cons.mp (List.perm_middle.mem_iff.mp member) with rfl | old
      · omega
      · have below := keyed.below own (kept.subset old)
        omega

/-- The codebases there are: loaded ones, and what runs make of them. -/
inductive Reachable : Codebase → Prop where
  | loaded (dump : List Dump.Source) : Reachable (ofDump dump)
  | run {code : Codebase} (before : Reachable code) (t : Transformer) (program : Option Program) :
      Reachable (t.run code program).2.1

theorem Reachable.wellKeyed {code : Codebase} (reachable : code.Reachable) : code.WellKeyed := by
  induction reachable with
  | loaded dump => exact wellKeyed_ofDump dump
  | run before t program ih =>
    exact t.run_keeps (fun _ _ keyed => ⟨keyed.fresh, keyed.below⟩)
      (fun _ site _ keyed _ key => keyed.spliced site key) program ih

end Codebase

end ContractAbi
