import ContractAbi.Proofs.Resolution
import Mathlib.Data.List.Nodup

/-!
# Names by number

A parameter whose name is missing or empty is named by its number. Two numbers never make the same
name, but nothing keeps a name that was given from being one that is made: `nodup_names_iff` says
when the names of a list are distinct.
-/

namespace ContractAbi

theorem toString_nat_injective : Function.Injective fun n : Nat => (toString n : Text) := by
  intro m n same
  have digits : Nat.toDigits 10 m = Nat.toDigits 10 n := by
    have strings := Text.ofString_inj.mp same
    rw [Nat.toString_eq_ofList_toDigits, Nat.toString_eq_ofList_toDigits] at strings
    exact String.ofList_injective strings
  have value := congrArg (Nat.ofDigitChars 10 · 0) digits
  simpa only [Nat.ofDigitChars_ten_toDigits] using value

namespace Param

/-- The name in the annotation. An empty one counts as none. -/
def given? (p : Param) : Option Text :=
  p.name?.filter (· ≠ "")

def numbered (stem : Text) (number : Nat) : Text :=
  stem ++ toString number

theorem numbered_injective (stem : Text) : Function.Injective (numbered stem) := by
  intro m n same
  exact toString_nat_injective ((Text.append_right_inj stem).mp same)

theorem nameOr_eq (stem : Text) (number : Nat) (p : Param) :
    p.nameOr stem number = p.given?.getD (numbered stem number) := by
  unfold nameOr given? numbered
  cases p.name? with
  | none => rfl
  | some name => by_cases empty : name = "" <;> simp [empty, Option.filter]

/-- The names of parameters that are numbered from `number` on. -/
def names (stem : Text) (number : Nat) (ps : List Param) : List Text :=
  (ps.zipIdx number).map fun place => place.1.nameOr stem place.2

/-- The given names differ from each other and from those made for the places without one. -/
structure NamesApart (stem : Text) (number : Nat) (ps : List Param) : Prop where
  given : (ps.filterMap given?).Nodup
  numbered : ∀ place ∈ ps.zipIdx number, place.1.given? = none →
    numbered stem place.2 ∉ ps.filterMap given?

section

variable {stem : Text} {number : Nat} {p : Param} {ps : List Param}

theorem names_cons :
    names stem number (p :: ps) = p.nameOr stem number :: names stem (number + 1) ps :=
  rfl

theorem mem_names {name : Text} :
    name ∈ names stem number ps ↔ name ∈ ps.filterMap given? ∨
      ∃ place ∈ ps.zipIdx number, place.1.given? = none ∧ name = Param.numbered stem place.2 := by
  induction ps generalizing number with
  | nil => simp [names]
  | cons p ps ih =>
    rw [names_cons, List.mem_cons, ih, nameOr_eq, List.zipIdx_cons, List.exists_mem_cons_iff]
    cases given : p.given? with
    | none => simp [given, or_left_comm]
    | some own => simp [given, or_assoc]

/-- A place with a name of its own. -/
theorem namesApart_cons_given {own : Text} (given : p.given? = some own) :
    NamesApart stem number (p :: ps) ↔
      own ∉ names stem (number + 1) ps ∧ NamesApart stem (number + 1) ps := by
  have listed : (p :: ps).filterMap given? = own :: ps.filterMap given? :=
    List.filterMap_cons_some given
  constructor
  · rintro ⟨nodup, apart⟩
    rw [listed] at nodup apart
    rw [List.zipIdx_cons] at apart
    obtain ⟨absent, nodup⟩ := List.nodup_cons.mp nodup
    refine ⟨fun listed => ?_, nodup, fun place member unnamed clash => ?_⟩
    · rcases mem_names.mp listed with other | ⟨place, member, unnamed, rfl⟩
      · exact absent other
      · exact apart place (List.mem_cons_of_mem _ member) unnamed List.mem_cons_self
    · exact apart place (List.mem_cons_of_mem _ member) unnamed (List.mem_cons_of_mem _ clash)
  · rintro ⟨absent, nodup, apart⟩
    rw [mem_names, not_or] at absent
    refine ⟨?_, ?_⟩
    · rw [listed]
      exact List.nodup_cons.mpr ⟨absent.1, nodup⟩
    · rw [listed, List.zipIdx_cons]
      intro place member unnamed clash
      rcases List.mem_cons.mp member with rfl | later
      · rw [given] at unnamed
        cases unnamed
      · rcases List.mem_cons.mp clash with same | other
        · exact absent.2 ⟨place, later, unnamed, same.symm⟩
        · exact apart place later unnamed other

/-- A place that is named by its number, which no other place has. -/
theorem namesApart_cons_numbered (unnamed : p.given? = none) :
    NamesApart stem number (p :: ps) ↔
      Param.numbered stem number ∉ names stem (number + 1) ps ∧ NamesApart stem (number + 1) ps := by
  have listed : (p :: ps).filterMap given? = ps.filterMap given? :=
    List.filterMap_cons_none unnamed
  constructor
  · rintro ⟨nodup, apart⟩
    rw [listed] at nodup apart
    rw [List.zipIdx_cons, List.forall_mem_cons] at apart
    refine ⟨fun listed => ?_, nodup, apart.2⟩
    rcases mem_names.mp listed with clash | ⟨place, member, -, same⟩
    · exact apart.1 unnamed clash
    · have equal := numbered_injective stem same
      have later := List.le_snd_of_mem_zipIdx member
      omega
  · rintro ⟨absent, nodup, apart⟩
    rw [mem_names, not_or] at absent
    refine ⟨listed ▸ nodup, ?_⟩
    rw [listed, List.zipIdx_cons, List.forall_mem_cons]
    exact ⟨fun _ => absent.1, apart⟩

theorem nodup_names_iff : (names stem number ps).Nodup ↔ NamesApart stem number ps := by
  induction ps generalizing number with
  | nil => exact ⟨fun _ => ⟨List.nodup_nil, nofun⟩, fun _ => List.nodup_nil⟩
  | cons p ps ih =>
    rw [names_cons, List.nodup_cons, ih, nameOr_eq]
    cases given : p.given? with
    | none => exact (namesApart_cons_numbered given).symm
    | some own => exact (namesApart_cons_given given).symm

end

end Param

namespace Record

theorem resolveParams_names {r : Record} {stem : Text} {number : Nat} {ps : List Param}
    {resolved : List AbiParam} (h : r.resolveParams stem number ps = .ok resolved) :
    resolved.map (·.name) = (Param.names stem number ps).map Json.str := by
  induction ps generalizing number resolved with
  | nil =>
    cases h
    rfl
  | cons p ps ih =>
    obtain ⟨type, -, h⟩ := bind_ok h
    obtain ⟨rest, others, h⟩ := bind_ok h
    cases h
    rw [List.map_cons, ih others, Param.names_cons, List.map_cons]

theorem nodup_resolved_iff {r : Record} {stem : Text} {number : Nat} {ps : List Param}
    {resolved : List AbiParam} (h : r.resolveParams stem number ps = .ok resolved) :
    (resolved.map (·.name)).Nodup ↔ Param.NamesApart stem number ps := by
  rw [resolveParams_names h, List.nodup_map_iff fun _ _ => Json.str.inj, Param.nodup_names_iff]

theorem firstFault?_of_typed (r : Record) {ps : List Param}
    (typed : ∀ p ∈ ps, (AbiType.resolve? p.type).isSome = true) :
    Spelling.firstFault? (ps.map r.spelling) = none := by
  rw [Spelling.firstFault?_eq_none]
  intro s member
  obtain ⟨p, listed, rfl⟩ := List.mem_map.mp member
  simpa [Spelling.isUnresolved, spelling] using typed p listed

theorem resolveParams_of_typed (r : Record) (stem : Text) (number : Nat) {ps : List Param}
    (typed : ∀ p ∈ ps, (AbiType.resolve? p.type).isSome = true) :
    ∃ resolved, r.resolveParams stem number ps = .ok resolved := by
  rw [← failure?_eq_none, failure?_resolveParams]
  exact r.firstFault?_of_typed typed

/-- A record whose types resolve has a function, unless there is no signature for it. The function's
inputs have distinct names if and only if the given ones are distinct and none of them is the name
made for a parameter without, and so have its outputs. -/
theorem function_names_distinct_iff (r : Record)
    (typed : ∀ p ∈ r.params ++ r.returns, (AbiType.resolve? p.type).isSome = true) :
    failure? r.function = Fault.unencodable.unless r.hasSignature ∧
    ∀ f, r.function = .ok f →
      ((f.inputs.map (·.name)).Nodup ↔ Param.NamesApart "param" 1 r.params) ∧
      ((f.outputs.map (·.name)).Nodup ↔ Param.NamesApart "returnVal" 1 r.returns) := by
  rw [List.forall_mem_append] at typed
  obtain ⟨inputs, given⟩ := r.resolveParams_of_typed "param" 1 typed.1
  obtain ⟨outputs, returned⟩ := r.resolveParams_of_typed "returnVal" 1 typed.2
  have made : r.function = r.resolveCall.map fun call => r.entry call inputs outputs := by
    rw [function_eq, given, returned]
    cases r.resolveCall <;> rfl
  rw [made, failure?_map]
  refine ⟨failure?_resolveCall_of_resolved (r.firstFault?_of_typed typed.1), fun f called => ?_⟩
  obtain ⟨call, -, rfl⟩ := map_ok called
  exact ⟨nodup_resolved_iff given, nodup_resolved_iff returned⟩

/-- The names of the inputs stay apart, an empty one among them. Of the outputs, the first has the
name that is made for the second. -/
def transfer : Record where
  handle := 0
  declared := .str "transfer"
  owner := .str "Token"
  name := .str "transfer"
  params := [.named "param2" "address", .named "to" "address", .named "" "uint256", .bare "bool"]
  returns := [.named "returnVal2" "bool", .bare "uint256"]

theorem names_of_transfer : ∃ f, transfer.function = .ok f ∧ (f.inputs.map (·.name)).Nodup ∧
    ¬(f.outputs.map (·.name)).Nodup := by
  obtain ⟨outcome, names⟩ := function_names_distinct_iff transfer (by decide +kernel)
  obtain ⟨f, made⟩ := failure?_eq_none.mp (outcome.trans (by decide +kernel))
  obtain ⟨inputs, outputs⟩ := names f made
  refine ⟨f, made, inputs.mpr ⟨by decide +kernel, by decide +kernel⟩, fun nodup => ?_⟩
  exact (outputs.mp nodup).numbered (.bare "uint256", 2) (by decide) rfl (by decide +kernel)

/-- The second of two inputs has no name, and the first is called as if it were the second. -/
def swap : Record where
  handle := 0
  declared := .str "swap"
  owner := .str "Pool"
  name := .str "swap"
  params := [.named "param2" "u8", .bare "u16"]

theorem inputs_of_swap_share_name :
    (swap.params.filterMap Param.given?).Nodup ∧ (swap.returns.filterMap Param.given?).Nodup ∧
      ∃ f, swap.function = .ok f ∧ f.inputs.map (·.name) = [.str "param2", .str "param2"] :=
  ⟨by decide +kernel, by decide, _, rfl, by decide +kernel⟩

end Record

end ContractAbi
