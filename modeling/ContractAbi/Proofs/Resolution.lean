import ContractAbi.Manifest.Build
import ContractAbi.Proofs.Failure
import ContractAbi.Proofs.Signature

/-!
# Resolving records and events

What resolving a record or an event gives, and where it fails: at the first of its spellings that
names no type, and for a record also at a name that cannot be encoded.
-/

namespace ContractAbi

theorem resolveType_eq_ok {kind : SpellingKind} {owner member : Name} {spelling : Text}
    {type : AbiType} :
    resolveType kind owner member spelling = .ok type ↔ AbiType.resolve? spelling = some type := by
  unfold resolveType
  cases AbiType.resolve? spelling <;> simp

/-- A type as spelled in an annotation, with the class and the member that it was found at. -/
structure Spelling where
  kind : SpellingKind
  owner : Name
  member : Name
  text : Text
deriving DecidableEq, Repr

namespace Spelling

def isUnresolved (s : Spelling) : Bool :=
  (AbiType.resolve? s.text).isNone

def fault (s : Spelling) : Fault :=
  .unresolvedType s.kind s.owner.label s.member.label s.text

/-- The fault of the first spelling that names no type. -/
def firstFault? (spellings : List Spelling) : Option Fault :=
  (spellings.find? isUnresolved).map fault

theorem firstFault?_cons (s : Spelling) (rest : List Spelling) :
    firstFault? (s :: rest) =
      (failure? (resolveType s.kind s.owner s.member s.text)).or (firstFault? rest) := by
  unfold firstFault? resolveType
  cases resolved : AbiType.resolve? s.text <;> simp [isUnresolved, resolved, fault]

theorem firstFault?_eq_none {spellings : List Spelling} :
    firstFault? spellings = none ↔ ∀ s ∈ spellings, s.isUnresolved = false := by
  simp [firstFault?]

theorem exists_of_firstFault? {spellings : List Spelling} {fault : Fault}
    (found : firstFault? spellings = some fault) :
    ∃ s ∈ spellings, s.isUnresolved = true ∧ s.fault = fault := by
  obtain ⟨s, first, same⟩ := Option.map_eq_some_iff.mp found
  exact ⟨s, List.mem_of_find?_eq_some first, List.find?_some first, same⟩

theorem firstFault?_append (xs ys : List Spelling) :
    firstFault? (xs ++ ys) = (firstFault? xs).or (firstFault? ys) := by
  simp [firstFault?, List.find?_append, Option.map_or]

theorem firstFault?_flatMap {α : Type} (f : α → List Spelling) (xs : List α) :
    firstFault? (xs.flatMap f) = xs.findSome? fun x => firstFault? (f x) := by
  induction xs with
  | nil => rfl
  | cons x xs ih =>
    rw [List.flatMap_cons, firstFault?_append, ih, List.findSome?_cons]
    cases firstFault? (f x) <;> rfl

theorem firstFault?_map {α : Type} (f : α → Spelling) (xs : List α) :
    firstFault? (xs.map f) = xs.findSome? fun x =>
      failure? (resolveType (f x).kind (f x).owner (f x).member (f x).text) := by
  induction xs with
  | nil => rfl
  | cons x xs ih =>
    rw [List.map_cons, firstFault?_cons, ih, List.findSome?_cons]
    cases failure? (resolveType (f x).kind (f x).owner (f x).member (f x).text) <;> rfl

end Spelling

/-! ### Records -/

namespace Record

def spelling (r : Record) (p : Param) : Spelling :=
  ⟨.method, r.owner, r.name, p.type⟩

def paramSpellings (r : Record) : List Spelling :=
  r.params.map r.spelling

def returnSpellings (r : Record) : List Spelling :=
  r.returns.map r.spelling

theorem failure?_resolveParams (r : Record) (stem : Text) (number : Nat) (ps : List Param) :
    failure? (r.resolveParams stem number ps) = Spelling.firstFault? (ps.map r.spelling) := by
  induction ps generalizing number with
  | nil => rfl
  | cons p ps ih =>
    rw [List.map_cons, Spelling.firstFault?_cons, ← ih (number + 1), resolveParams]
    refine failure?_bind fun type _ => ?_
    cases r.resolveParams stem (number + 1) ps <;> rfl

theorem failure?_mapM_resolveParam (r : Record) :
    failure? (r.params.mapM r.resolveParam) = Spelling.firstFault? r.paramSpellings :=
  (failure?_mapM _ _).trans (Spelling.firstFault?_map r.spelling r.params).symm

/-- The fault that keeps the record from being called. -/
def callFault? (r : Record) : Option Fault :=
  (Spelling.firstFault? r.paramSpellings).or (Fault.unencodable.unless r.name.label.isEncodable)

theorem callFault?_eq_none {r : Record} :
    r.callFault? = none ↔
      Spelling.firstFault? r.paramSpellings = none ∧ r.name.label.isEncodable = true := by
  rw [callFault?, Option.or_eq_none_iff, Fault.unless_eq_none]

theorem failure?_resolveCall {r : Record} (unsettled : r.call = none) :
    failure? r.resolveCall = r.callFault? := by
  rw [callFault?, ← failure?_mapM_resolveParam, resolveCall, unsettled]
  refine failure?_bind fun types _ => ?_
  rw [← Signature.isEncodable_signatureOf r.name.label types, ← Call.isSome_of]
  cases Call.of r.name.label (types.map AbiType.canonical) <;> rfl

/-- Whether the record has a signature, or a name that one can be made of. -/
def hasSignature (r : Record) : Bool :=
  r.call.isSome || r.name.label.isEncodable

/-- A record whose parameters resolve is called under the signature that it has, or else under one
that its name makes. -/
theorem failure?_resolveCall_of_resolved {r : Record}
    (params : Spelling.firstFault? r.paramSpellings = none) :
    failure? r.resolveCall = Fault.unencodable.unless r.hasSignature := by
  unfold hasSignature
  cases stored : r.call with
  | some call =>
    rw [resolveCall, stored]
    rfl
  | none =>
    rw [failure?_resolveCall stored, callFault?, params]
    rfl

/-- A record that has a call fails only for its return values, provided that its parameters
resolve. -/
theorem failure?_function {r : Record} (called : failure? r.resolveCall = none)
    (params : Spelling.firstFault? r.paramSpellings = none) :
    failure? r.function = Spelling.firstFault? r.returnSpellings := by
  have inputs := failure?_resolveParams r "param" 1 r.params
  have outputs := failure?_resolveParams r "returnVal" 1 r.returns
  unfold function
  obtain ⟨call, hcall⟩ := failure?_eq_none.mp called
  obtain ⟨ins, hins⟩ := failure?_eq_none.mp (inputs.trans params)
  rw [hcall, hins, returnSpellings, ← outputs]
  change failure? (r.resolveParams "returnVal" 1 r.returns >>= _) = _
  exact failure?_bind_of_none fun _ _ => rfl

/-- The record's parameters resolve to these types. -/
def HasTypes (r : Record) (types : List AbiType) : Prop :=
  r.params.map (fun p => AbiType.resolve? p.type) = types.map some

theorem HasTypes.unique {r : Record} {types others : List AbiType} (h : r.HasTypes types)
    (h' : r.HasTypes others) : types = others :=
  (List.map_inj_right fun _ _ => Option.some.inj).mp (h.symm.trans h')

theorem resolveParams_types {r : Record} {stem : Text} {number : Nat} {ps : List Param}
    {resolved : List AbiParam} (h : r.resolveParams stem number ps = .ok resolved) :
    ps.map (fun p => AbiType.resolve? p.type) = (resolved.map (·.type)).map some := by
  induction ps generalizing number resolved with
  | nil => cases h; rfl
  | cons p ps ih =>
    rw [resolveParams] at h
    obtain ⟨type, first, h⟩ := bind_ok h
    obtain ⟨rest, remaining, h⟩ := bind_ok h
    cases h
    unfold resolveParam resolveType at first
    split at first
    · rename_i found
      cases first
      simp [found, ih remaining]
    · cases first

theorem resolveParam_eq_ok {r : Record} {p : Param} {type : AbiType} :
    r.resolveParam p = .ok type ↔ AbiType.resolve? p.type = some type :=
  resolveType_eq_ok

theorem hasTypes_iff {r : Record} {types : List AbiType} :
    r.HasTypes types ↔ r.params.mapM r.resolveParam = .ok types := by
  rw [mapM_eq_ok, HasTypes, ← List.forall₂_eq_eq_eq, List.forall₂_map_left_iff,
    List.forall₂_map_right_iff]
  simp only [resolveParam_eq_ok]

theorem HasTypes.resolved {r : Record} {types : List AbiType} (typed : r.HasTypes types) :
    Spelling.firstFault? r.paramSpellings = none := by
  rw [← failure?_mapM_resolveParam, failure?_eq_none]
  exact ⟨types, hasTypes_iff.mp typed⟩

/-- The call of a record is made of its name and the canonical spellings of its types. -/
theorem resolveCall_ok {r : Record} {call : Call} (unsettled : r.call = none)
    (h : r.resolveCall = .ok call) :
    ∃ types, r.HasTypes types ∧ Call.of r.name.label (types.map AbiType.canonical) = some call := by
  rw [resolveCall, unsettled] at h
  obtain ⟨types, each, h⟩ := bind_ok h
  refine ⟨types, hasTypes_iff.mpr each, ?_⟩
  split at h
  · rename_i made
    cases h
    exact made
  · cases h

/-- What a function entry takes over from its record. -/
theorem function_ok {r : Record} {f : FunctionEntry} (h : r.function = .ok f) :
    f.name = r.name ∧ f.declared = r.declared ∧ r.resolveCall = .ok f.call ∧
      r.HasTypes (f.inputs.map (·.type)) := by
  obtain ⟨call, called, h⟩ := bind_ok h
  obtain ⟨inputs, resolved, h⟩ := bind_ok h
  obtain ⟨outputs, _, h⟩ := bind_ok h
  cases h
  exact ⟨rfl, rfl, called, resolveParams_types resolved⟩

/-- Parameters that resolve alike and have the same names are listed alike. -/
theorem resolveParams_congr {r s : Record} {ps qs : List Param}
    (alike : List.Forall₂ (fun q p =>
      s.resolveParam q = r.resolveParam p ∧ q.name? = p.name?) qs ps)
    (stem : Text) (number : Nat) :
    s.resolveParams stem number qs = r.resolveParams stem number ps := by
  induction alike generalizing number with
  | nil => rfl
  | cons first rest ih =>
    rw [resolveParams, resolveParams, first.1, ih]
    simp only [Param.nameOr, first.2]

/-- The entry of a record with this call, these inputs and these outputs. -/
def entry (r : Record) (call : Call) (inputs outputs : List AbiParam) : FunctionEntry where
  name := r.name
  isView := r.isView
  isPayable := r.isPayable
  isOwnerOnly := r.isOwnerOnly
  inputs := inputs
  outputs := outputs
  call := call
  declared := r.declared
  emits := r.emits

theorem function_eq (r : Record) :
    r.function = (do
      let call ← r.resolveCall
      let inputs ← r.resolveParams "param" 1 r.params
      let outputs ← r.resolveParams "returnVal" 1 r.returns
      return r.entry call inputs outputs) :=
  rfl

/-- Records that resolve alike and say the same otherwise have the same function. -/
theorem function_congr {r s : Record} (entry : s.entry = r.entry)
    (call : s.resolveCall = r.resolveCall)
    (inputs : s.resolveParams "param" 1 s.params = r.resolveParams "param" 1 r.params)
    (outputs : s.resolveParams "returnVal" 1 s.returns = r.resolveParams "returnVal" 1 r.returns) :
    s.function = r.function := by
  rw [function_eq, function_eq, entry, call, inputs, outputs]

/-- The function of a record does not depend on its handle, on its internal name or on where its call
comes from. -/
theorem function_of_call {r s : Record}
    (same : s = { r with handle := s.handle, call := s.call, internalName := s.internalName })
    (call : s.resolveCall = r.resolveCall) : s.function = r.function := by
  have types (p : Param) : s.resolveParam p = r.resolveParam p := by
    rw [same]
    rfl
  have listed (stem : Text) (ps : List Param) :
      s.resolveParams stem 1 ps = r.resolveParams stem 1 ps :=
    resolveParams_congr (List.forall₂_same.mpr fun p _ => ⟨types p, rfl⟩) stem 1
  refine function_congr ?_ call ?_ ?_
  · rw [same]
    rfl
  · rw [listed, same]
  · rw [listed, same]

end Record

/-! ### Events -/

namespace Event

def spellings (e : Event) : List Spelling :=
  e.fields.map fun (field, text) => ⟨.event, e.owner, field, text⟩

theorem failure?_entry (e : Event) : failure? e.entry = Spelling.firstFault? e.spellings := by
  unfold entry
  rw [failure?_bind_of_none fun _ _ => rfl, failure?_mapM, spellings, Spelling.firstFault?_map]
  exact findSome?_congr fun field _ => failure?_bind_of_none fun _ _ => rfl

end Event

end ContractAbi
