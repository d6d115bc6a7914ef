import ContractAbi.Proofs.Injecting

/-!
# Renderings one after another

Constants, definitions and routines are rendered with one layout, and what a fault stops leaves it
some levels in. Every rendering starts over all the same, so what it gives follows from the
unit of indentation alone: `rendering_ignores_history`.
-/

namespace ContractAbi

/-- What is rendered for a class. -/
inductive Rendering where
  | constants (owner : Text) (abi : Abi)
  | definitions (owner : Text) (abi : Abi)
  | routine (records : List Record)

namespace Rendering

def text : Rendering → Render Text
  | constants owner abi => Fragment.constants owner abi
  | definitions owner abi => Fragment.definitions owner abi
  | routine records => Dispatch.routine records

def run (r : Rendering) (l : Layout) : Except Fault Text × Layout :=
  r.text.run.run l

/-- Where renderings leave the layout, however they end. -/
def layoutAfter (l : Layout) (rs : List Rendering) : Layout :=
  rs.foldl (fun l r => (r.run l).2) l

/-- The same rendering once the calls of some of its records have been computed. -/
def settling (done : Record → Bool) : Rendering → Rendering
  | routine records => routine (records.map fun r => if done r then r.settle else r)
  | r => r

theorem run_routine (records : List Record) (l : Layout) :
    (routine records).run l =
      match records.mapM Dispatch.guardOf with
      | .error fault => (.error fault, l.reset.shift 1)
      | .ok guards => (.ok (Dispatch.routineText l.indentUnit guards), l.reset) :=
  Dispatch.routine_run records l

variable {l l' : Layout}

/-- Any two layouts do if they have the same unit. -/
theorem run_eq_of_unit (r : Rendering) (unit : l'.indentUnit = l.indentUnit) :
    (r.run l').1 = (r.run l).1 := by
  cases r with
  | constants owner abi =>
    exact congrArg Prod.fst ((Fragment.startsOver_constants owner abi).run_eq unit)
  | definitions owner abi =>
    exact congrArg Prod.fst ((Fragment.startsOver_definitions owner abi).run_eq unit)
  | routine records =>
    rw [run_routine, run_routine, unit]
    split <;> rfl

theorem unit_run (r : Rendering) (l : Layout) : (r.run l).2.indentUnit = l.indentUnit := by
  cases r with
  | constants owner abi => exact (Fragment.startsOver_constants owner abi).unit l
  | definitions owner abi => exact (Fragment.startsOver_definitions owner abi).unit l
  | routine records =>
    rw [run_routine]
    split <;> rfl

theorem level_run {r : Rendering} {written : Text} (ended : (r.run l).1 = .ok written) :
    (r.run l).2.level = 0 := by
  cases r with
  | constants owner abi =>
    exact (Fragment.startsOver_constants owner abi).level l written _ (Prod.ext ended rfl)
  | definitions owner abi =>
    exact (Fragment.startsOver_definitions owner abi).level l written _ (Prod.ext ended rfl)
  | routine records =>
    rw [run_routine] at ended ⊢
    split at ended
    · cases ended
    · rfl

theorem unit_layoutAfter (l : Layout) (rs : List Rendering) :
    (layoutAfter l rs).indentUnit = l.indentUnit := by
  induction rs generalizing l with
  | nil => rfl
  | cons r rs ih => exact (ih (r.run l).2).trans (r.unit_run l)

theorem run_settling (done : Record → Bool) (r : Rendering) (l : Layout) :
    (r.settling done).run l = r.run l := by
  cases r with
  | constants owner abi => rfl
  | definitions owner abi => rfl
  | routine records =>
    have same : (records.map fun r => if done r then r.settle else r).map Record.settle =
        records.map Record.settle := by
      rw [List.map_map]
      refine List.map_congr_left fun r _ => ?_
      rw [Function.comp_apply]
      split
      · exact r.settle_settle
      · rfl
    unfold settling
    rw [run_routine, run_routine, Dispatch.mapM_guardOf_congr same]

/-- In whatever state a layout is, and whatever has been rendered with it and has been stopped, a
rendering gives the text or the fault that it gives with a new layout of the same unit. If it comes to
its end, the layout is then at level zero. Calls that earlier renderings have computed make no
difference either. -/
theorem rendering_ignores_history (l : Layout) (earlier : List Rendering) (r : Rendering) :
    (r.run (layoutAfter l earlier)).1 = (r.run { indentUnit := l.indentUnit }).1 ∧
      (∀ written, (r.run (layoutAfter l earlier)).1 = .ok written →
        (r.run (layoutAfter l earlier)).2.level = 0) ∧
      ∀ done, ((r.settling done).run (layoutAfter l earlier)).1 =
        (r.run { indentUnit := l.indentUnit }).1 := by
  have same := r.run_eq_of_unit (l := { indentUnit := l.indentUnit }) (unit_layoutAfter l earlier)
  refine ⟨same, fun written ended => level_run ended, fun done => ?_⟩
  rw [run_settling]
  exact same

end Rendering

end ContractAbi
