import ContractAbi.Fault
import Mathlib.Data.List.Forall2

/-!
# Where a computation stops

`failure?` keeps of an outcome only the fault that stopped it. Working through a list stops at the
first element that has one, so the failure of a traversal is a `findSome?`.
-/

namespace ContractAbi

variable {ε α β : Type}

/-- The fault of a computation that was stopped. -/
def failure? : Except ε α → Option ε
  | .ok _ => none
  | .error e => some e

@[simp]
theorem failure?_ok (a : α) : failure? (.ok a : Except ε α) = none := rfl

@[simp]
theorem failure?_error (e : ε) : failure? (.error e : Except ε α) = some e := rfl

@[simp]
theorem failure?_map (f : α → β) (x : Except ε α) : failure? (x.map f) = failure? x := by
  cases x <;> rfl

theorem failure?_eq_none {x : Except ε α} : failure? x = none ↔ ∃ a, x = .ok a := by
  cases x <;> simp

theorem failure?_eq_some {x : Except ε α} {e : ε} : failure? x = some e ↔ x = .error e := by
  cases x <;> simp

/-- Two steps in a row fail where the first does, and otherwise where the second does. -/
theorem failure?_bind {x : Except ε α} {f : α → Except ε β} {later : Option ε}
    (second : ∀ a, x = .ok a → failure? (f a) = later) :
    failure? (x >>= f) = (failure? x).or later := by
  cases x with
  | error e => rfl
  | ok a => exact second a rfl

theorem failure?_bind_of_none {x : Except ε α} {f : α → Except ε β}
    (second : ∀ a, x = .ok a → failure? (f a) = none) : failure? (x >>= f) = failure? x := by
  rw [failure?_bind second, Option.or_none]

theorem bind_eq_ok {x : Except ε α} {f : α → Except ε β} {b : β} :
    x >>= f = .ok b ↔ ∃ a, x = .ok a ∧ f a = .ok b := by
  cases x <;> simp [bind, Except.bind]

theorem bind_ok {x : Except ε α} {f : α → Except ε β} {b : β} (h : x >>= f = .ok b) :
    ∃ a, x = .ok a ∧ f a = .ok b :=
  bind_eq_ok.mp h

theorem bind_eq_error {x : Except ε α} {f : α → Except ε β} {e : ε} :
    x >>= f = .error e ↔ x = .error e ∨ ∃ a, x = .ok a ∧ f a = .error e := by
  cases x <;> simp [bind, Except.bind]

theorem map_ok {x : Except ε α} {f : α → β} {b : β} (h : x.map f = .ok b) :
    ∃ a, x = .ok a ∧ f a = b := by
  cases x with
  | error e => cases h
  | ok a => exact ⟨a, rfl, Except.ok.inj h⟩

theorem mapError_eq_ok {ε' : Type} {x : Except ε α} {f : ε → ε'} {a : α} :
    x.mapError f = .ok a ↔ x = .ok a := by
  cases x <;> simp [Except.mapError]

theorem mapError_eq_error {ε' : Type} {x : Except ε α} {f : ε → ε'} {e : ε'} :
    x.mapError f = .error e ↔ ∃ e', x = .error e' ∧ f e' = e := by
  cases x <;> simp [Except.mapError]

/-- Two computations that are the same under `f` stop at the same fault, or both come to their end. -/
theorem map_eq_map_cases {x y : Except ε α} {f : α → β} (same : x.map f = y.map f) :
    (∃ e, x = .error e ∧ y = .error e) ∨ ∃ a b, x = .ok a ∧ y = .ok b ∧ f a = f b := by
  cases x with
  | error e =>
    cases y with
    | error e' => exact Or.inl ⟨e, rfl, congrArg Except.error (Except.error.inj same).symm⟩
    | ok b => cases same
  | ok a =>
    cases y with
    | error e' => cases same
    | ok b => exact Or.inr ⟨a, b, rfl, rfl, Except.ok.inj same⟩

/-! ### Traversals -/

theorem findSome?_congr {f g : α → Option β} {xs : List α} (same : ∀ x ∈ xs, f x = g x) :
    xs.findSome? f = xs.findSome? g := by
  induction xs with
  | nil => rfl
  | cons x xs ih =>
    rw [List.findSome?_cons, List.findSome?_cons, same x List.mem_cons_self,
      ih fun y member => same y (List.mem_cons_of_mem x member)]

theorem failure?_mapM (f : α → Except ε β) (xs : List α) :
    failure? (xs.mapM f) = xs.findSome? fun x => failure? (f x) := by
  induction xs with
  | nil => rfl
  | cons x xs ih =>
    rw [List.mapM_cons, List.findSome?_cons]
    cases first : f x with
    | error e => rfl
    | ok b =>
      rw [failure?_ok, ← ih]
      cases xs.mapM f <;> rfl

theorem failure?_forM (f : α → Except ε PUnit) (xs : List α) :
    failure? (xs.forM f) = xs.findSome? fun x => failure? (f x) := by
  induction xs with
  | nil => rfl
  | cons x xs ih =>
    change failure? (f x >>= fun _ => xs.forM f) = _
    rw [List.findSome?_cons]
    cases first : f x with
    | error e => rfl
    | ok _ => exact ih

/-- A traversal comes to its end if it works on every element. -/
theorem mapM_eq_ok {f : α → Except ε β} {xs : List α} {ys : List β} :
    xs.mapM f = .ok ys ↔ List.Forall₂ (fun x y => f x = .ok y) xs ys := by
  induction xs generalizing ys with
  | nil => cases ys <;> simp [pure, Except.pure]
  | cons x xs ih =>
    rw [List.mapM_cons]
    constructor
    · intro h
      obtain ⟨y, first, h⟩ := bind_ok h
      obtain ⟨rest, others, h⟩ := bind_ok h
      cases h
      exact .cons first (ih.mp others)
    · intro h
      cases h with
      | cons first others =>
        rw [first, ih.mpr others]
        rfl

/-- A traversal stops at the first element on which it does not work. -/
theorem mapM_eq_error {f : α → Except ε β} {xs : List α} {e : ε} :
    xs.mapM f = .error e ↔ ∃ before x after, xs = before ++ x :: after ∧
      (∀ y ∈ before, ∃ b, f y = .ok b) ∧ f x = .error e := by
  rw [← failure?_eq_some, failure?_mapM, List.findSome?_eq_some_iff]
  simp only [failure?_eq_some, failure?_eq_none, and_comm]

theorem exists_of_forall₂ {R : α → β → Prop} {xs : List α} {ys : List β} {y : β}
    (each : List.Forall₂ R xs ys) (member : y ∈ ys) : ∃ x ∈ xs, R x y := by
  induction each with
  | nil => cases member
  | cons first others ih =>
    rcases List.mem_cons.mp member with rfl | later
    · exact ⟨_, List.mem_cons_self, first⟩
    · obtain ⟨x, listed, related⟩ := ih later
      exact ⟨x, List.mem_cons_of_mem _ listed, related⟩

theorem forall₂_comp {γ : Type} {R : α → β → Prop} {S : β → γ → Prop} {T : α → γ → Prop}
    (comp : ∀ {x y z}, R x y → S y z → T x z) {xs : List α} {ys : List β} {zs : List γ}
    (first : List.Forall₂ R xs ys) (second : List.Forall₂ S ys zs) : List.Forall₂ T xs zs := by
  induction first generalizing zs with
  | nil =>
    cases second
    exact .nil
  | cons related rest ih =>
    cases second with
    | cons related' rest' => exact .cons (comp related related') (ih rest')

theorem exists_of_mem_mapM {f : α → Except ε β} {xs : List α} {ys : List β} {y : β}
    (h : xs.mapM f = .ok ys) (member : y ∈ ys) : ∃ x ∈ xs, f x = .ok y := by
  obtain ⟨x, listed, made⟩ := exists_of_forall₂ (mapM_eq_ok.mp h) member
  exact ⟨x, listed, made⟩

/-! ### Conditions -/

/-- This fault, unless something holds. -/
def Fault.unless (fault : Fault) (holds : Bool) : Option Fault :=
  if holds then none else some fault

namespace Fault

variable {fault : Fault}

@[simp]
theorem unless_eq_none {holds : Bool} : fault.unless holds = none ↔ holds = true := by
  cases holds <;> simp [Fault.unless]

theorem eq_of_unless {holds : Bool} {other : Fault} (h : fault.unless holds = some other) :
    other = fault := by
  cases holds with
  | true => cases h
  | false => exact (Option.some.inj h).symm

theorem or_unless (a b : Bool) :
    (fault.unless a).or (fault.unless b) = fault.unless (a && b) := by
  cases a <;> rfl

theorem findSome?_unless {α : Type} (p : α → Bool) (xs : List α) :
    xs.findSome? (fun x => fault.unless (p x)) = fault.unless (xs.all p) := by
  induction xs with
  | nil => rfl
  | cons x xs ih =>
    rw [List.all_cons, ← or_unless, ← ih, List.findSome?_cons]
    cases fault.unless (p x) <;> rfl

end Fault

end ContractAbi
