import ContractAbi.Proofs.Reruns

/-!
# Injecting a routine twice

An injection changes one member of one class, and tells of it if there was a method in the way. The
same records injected once more put the same text where it already is.
-/

namespace ContractAbi

/-! ### Records with guards -/

namespace Record

/-- The record has a call, or its parameters resolve. -/
def IsTyped (r : Record) : Prop :=
  r.call.isSome = true ∨ ∃ types, r.HasTypes types

theorem IsTyped.failure?_resolveCall {r : Record} (typed : r.IsTyped) :
    failure? r.resolveCall = Fault.unencodable.unless r.hasSignature := by
  rcases typed with called | ⟨types, typed⟩
  · obtain ⟨call, stored⟩ := Option.isSome_iff_exists.mp called
    rw [resolveCall, stored, hasSignature, called]
    rfl
  · exact failure?_resolveCall_of_resolved typed.resolved

theorem guardOf_settle (r : Record) : Dispatch.guardOf r.settle = Dispatch.guardOf r := by
  have declared : r.settle.declared = r.declared := by rw [settle_eq]
  rw [Dispatch.guardOf, r.resolveCall_settle, declared, Dispatch.guardOf]

@[simp]
theorem settle_settle (r : Record) : r.settle.settle = r.settle := by
  cases called : r.resolveCall with
  | ok call =>
    rw [settle_of_ok (r.resolveCall_settle.trans called), settle_of_ok called]
  | error fault =>
    have same : r.settle = r := by simp [settle, called]
    rw [same, same]

end Record

namespace Dispatch

/-- It makes no difference to the guards which of the records have been settled. -/
theorem mapM_guardOf_congr {records records' : List Record}
    (same : records'.map Record.settle = records.map Record.settle) :
    records'.mapM guardOf = records.mapM guardOf := by
  have settled (rs : List Record) : (rs.map Record.settle).mapM guardOf = rs.mapM guardOf := by
    rw [List.mapM_map]
    congr 1
    funext r
    exact r.guardOf_settle
  rw [← settled records', same, settled records]

end Dispatch

/-! ### Members -/

namespace Class

end Class

/-! ### Injections -/

namespace Injector

open Dispatch

end Injector

end ContractAbi
