/-!
# Lists without repetition

`distinct` keeps the first occurrence of every element.
-/

namespace ContractAbi

variable {α : Type} [DecidableEq α]

/-- Appends `x` unless it is already there. -/
def appendNew (xs : List α) (x : α) : List α :=
  if x ∈ xs then xs else xs ++ [x]

/-- `xs` followed by the elements of `ys` that are new. -/
def appendAllNew (xs ys : List α) : List α :=
  ys.foldl appendNew xs

/-- The elements of `xs` in the order in which they first occur. -/
def distinct (xs : List α) : List α :=
  appendAllNew [] xs

/-- The first element of each kind, where `f` tells the kinds apart. -/
def firstOfEach {β : Type} (f : β → α) (xs : List β) : List β :=
  (distinct (xs.map f)).filterMap fun a => xs.find? fun x => f x = a

@[simp]
theorem mem_appendNew {xs : List α} {x y : α} : y ∈ appendNew xs x ↔ y ∈ xs ∨ y = x := by
  unfold appendNew
  split
  · rename_i present
    exact ⟨Or.inl, fun h => h.elim id fun same => same ▸ present⟩
  · simp

theorem nodup_appendNew {xs : List α} (h : xs.Nodup) (x : α) : (appendNew xs x).Nodup := by
  unfold appendNew
  split
  · exact h
  · rename_i absent
    rw [List.nodup_append]
    refine ⟨h, by simp, ?_⟩
    intro y hy z hz same
    obtain rfl := List.mem_singleton.mp hz
    exact absent (same ▸ hy)

@[simp]
theorem mem_appendAllNew {xs ys : List α} {y : α} : y ∈ appendAllNew xs ys ↔ y ∈ xs ∨ y ∈ ys := by
  unfold appendAllNew
  induction ys generalizing xs with
  | nil => simp
  | cons x ys ih => simp [ih, or_assoc]

theorem nodup_appendAllNew {xs : List α} (h : xs.Nodup) (ys : List α) :
    (appendAllNew xs ys).Nodup := by
  unfold appendAllNew
  induction ys generalizing xs with
  | nil => exact h
  | cons x ys ih => exact ih (nodup_appendNew h x)

theorem appendAllNew_append (xs ys zs : List α) :
    appendAllNew xs (ys ++ zs) = appendAllNew (appendAllNew xs ys) zs :=
  List.foldl_append

theorem appendAllNew_of_subset {xs ys : List α} (known : ys ⊆ xs) : appendAllNew xs ys = xs := by
  unfold appendAllNew
  induction ys with
  | nil => rfl
  | cons y ys ih =>
    obtain ⟨present, rest⟩ := List.cons_subset.mp known
    rw [List.foldl_cons, appendNew, if_pos present]
    exact ih rest

theorem appendAllNew_of_nodup {xs ys : List α} (nodup : (xs ++ ys).Nodup) :
    appendAllNew xs ys = xs ++ ys := by
  induction ys generalizing xs with
  | nil => simp [appendAllNew]
  | cons y ys ih =>
    have absent : y ∉ xs := fun present =>
      (List.nodup_append.mp nodup).2.2 y present y List.mem_cons_self rfl
    have step : appendAllNew xs (y :: ys) = appendAllNew (xs ++ [y]) ys := by
      simp [appendAllNew, appendNew, absent]
    rw [step, ih (by simpa using nodup), List.append_assoc, List.singleton_append]

@[simp]
theorem mem_distinct {xs : List α} {x : α} : x ∈ distinct xs ↔ x ∈ xs := by
  simp [distinct]

theorem nodup_distinct (xs : List α) : (distinct xs).Nodup :=
  nodup_appendAllNew List.nodup_nil xs

theorem mem_of_mem_firstOfEach {β : Type} {f : β → α} {xs : List β} {x : β}
    (h : x ∈ firstOfEach f xs) : x ∈ xs := by
  obtain ⟨_, _, found⟩ := List.mem_filterMap.mp h
  exact List.mem_of_find?_eq_some found

theorem map_firstOfEach {β : Type} (f : β → α) (xs : List β) :
    (firstOfEach f xs).map f = distinct (xs.map f) := by
  have general (kinds : List α) (known : kinds ⊆ xs.map f) :
      (kinds.filterMap fun a => xs.find? fun x => f x = a).map f = kinds := by
    induction kinds with
    | nil => rfl
    | cons a kinds ih =>
      obtain ⟨listed, others⟩ := List.cons_subset.mp known
      obtain ⟨x, member, rfl⟩ := List.mem_map.mp listed
      cases found : xs.find? fun y => f y = f x with
      | none => exact absurd (List.find?_eq_none.mp found x member) (by simp)
      | some first =>
        have same := List.find?_some found
        rw [List.filterMap_cons, found]
        dsimp only
        rw [List.map_cons, ih others, of_decide_eq_true same]
  exact general _ fun a listed => mem_distinct.mp listed

theorem firstOfEach_concat {β : Type} (f : β → α) (xs : List β) (x : β) :
    firstOfEach f (xs ++ [x]) =
      if f x ∈ xs.map f then firstOfEach f xs else firstOfEach f xs ++ [x] := by
  have kinds : distinct ((xs ++ [x]).map f) = appendNew (distinct (xs.map f)) (f x) := by
    simp [distinct, appendAllNew]
  have earlier (kinds : List α) (known : kinds ⊆ xs.map f) :
      (kinds.filterMap fun a => (xs ++ [x]).find? fun y => f y = a) =
        kinds.filterMap fun a => xs.find? fun y => f y = a := by
    induction kinds with
    | nil => rfl
    | cons a kinds ih =>
      obtain ⟨listed, others⟩ := List.cons_subset.mp known
      obtain ⟨y, member, rfl⟩ := List.mem_map.mp listed
      have found : (xs.find? fun z => f z = f y).isSome = true := by
        simpa using ⟨y, member, rfl⟩
      rw [List.filterMap_cons, List.filterMap_cons, ih others, List.find?_append,
        Option.or_of_isSome found]
  have known : distinct (xs.map f) ⊆ xs.map f := fun a listed => mem_distinct.mp listed
  unfold firstOfEach
  rw [kinds, appendNew]
  by_cases seen : f x ∈ xs.map f
  · rw [if_pos (mem_distinct.mpr seen), if_pos seen, earlier _ known]
  · have missing : (xs.find? fun y => f y = f x) = none := by
      simpa using seen
    rw [if_neg (mt mem_distinct.mp seen), if_neg seen, List.filterMap_append, earlier _ known]
    simp [List.find?_append, missing]
end ContractAbi
