import ContractAbi.Proofs.Failure
import ContractAbi.Transform

/-!
# Rendered texts

`routine_run` gives the text of a routine in closed form, and `injectAll_run` the texts of all of
them. Constants and definitions start over (`Render.StartsOver`) and no rendering changes the unit of
indentation, so all of them look the same whatever was rendered before.
-/

namespace ContractAbi

/-! ### Running a rendering step by step -/

section Steps

variable {α β : Type} {x : Render α} {f : α → Render β} {l l' : Layout}

theorem run_bind_ok {a : α} (h : x.run.run l = (.ok a, l')) :
    (x >>= f).run.run l = (f a).run.run l' := by
  change (x.run.run l >>= fun (outcome, l) => (ExceptT.bindCont f outcome).run l) = _
  rw [h]
  rfl

theorem run_bind_error {fault : Fault} (h : x.run.run l = (.error fault, l')) :
    (x >>= f).run.run l = (.error fault, l') := by
  change (x.run.run l >>= fun (outcome, l) => (ExceptT.bindCont f outcome).run l) = _
  rw [h]
  rfl

end Steps

theorem run_startClass (l : Layout) : Render.startClass.run.run l = (.ok (), l.reset) :=
  rfl

theorem run_line (text : Text) (l : Layout) :
    (Render.line text).run.run l = (.ok (l.line text), l) :=
  rfl

theorem run_modify (f : Layout → Layout) (l : Layout) :
    (modify f : Render PUnit).run.run l = (.ok ⟨⟩, f l) :=
  rfl

theorem append_ne_empty {s t : Text} (solid : t ≠ "") : s ++ t ≠ "" :=
  fun empty => solid (Text.append_eq_empty_iff.mp empty).2

theorem Layout.line_of_ne (l : Layout) {text : Text} (h : text ≠ "") :
    l.line text = l.indent ++ text :=
  if_neg h

theorem Layout.line_reset (l : Layout) (text : Text) : l.reset.line text = text := by
  unfold Layout.line
  split
  · rename_i empty
    exact empty.symm
  · simp [Layout.indent, Layout.reset]

theorem Layout.indent_reset_shift (l : Layout) : (l.reset.shift 1).indent = l.indentUnit := by
  simp [Layout.indent, Layout.reset, Layout.shift]

theorem Layout.reset_shift_shift (l : Layout) : (l.reset.shift 1).shift (-1) = l.reset := by
  simp [Layout.reset, Layout.shift]

theorem Layout.reset_eq {l l' : Layout} (unit : l'.indentUnit = l.indentUnit) :
    l'.reset = l.reset := by
  simp [Layout.reset, unit]

namespace Render

variable {α β : Type}

theorem run_nested_ok {body : Render α} {l l' : Layout} {a : α}
    (h : body.run.run (l.shift 1) = (.ok a, l')) :
    (nested body).run.run l = (.ok a, l'.shift (-1)) := by
  unfold nested
  rw [run_bind_ok (run_modify ..), run_bind_ok h]
  rfl

theorem run_nested_error {body : Render α} {l l' : Layout} {fault : Fault}
    (h : body.run.run (l.shift 1) = (.error fault, l')) :
    (nested body).run.run l = (.error fault, l') := by
  unfold nested
  rw [run_bind_ok (run_modify ..), run_bind_error h]

/-! ### Level and unit of indentation -/

/-- Rendering leaves the unit of indentation as it was. -/
def KeepsUnit (x : Render α) : Prop :=
  ∀ l, (x.run.run l).2.indentUnit = l.indentUnit

theorem keepsUnit_pure (a : α) : KeepsUnit (pure a) :=
  fun _ => rfl

theorem keepsUnit_bind {x : Render α} {f : α → Render β} (first : KeepsUnit x)
    (second : ∀ a, KeepsUnit (f a)) : KeepsUnit (x >>= f) := by
  intro l
  have kept := first l
  rcases ran : x.run.run l with ⟨outcome, l'⟩
  rw [ran] at kept
  cases outcome with
  | error fault => rw [run_bind_error ran, kept]
  | ok a => rw [run_bind_ok ran, second a l', kept]

/-- Rendering leaves the unit of indentation as it was, and the level too if it comes to its end. -/
structure Steady (x : Render α) : Prop where
  unit : KeepsUnit x
  level : ∀ l a l', x.run.run l = (.ok a, l') → l'.level = l.level

/-- It is enough that the rendering comes to its end with such a layout. -/
theorem steady_of_run {x : Render α} {result : Layout → α} {after : Layout → Layout}
    (ran : ∀ l, x.run.run l = (.ok (result l), after l))
    (keeps : ∀ l, (after l).level = l.level ∧ (after l).indentUnit = l.indentUnit) : Steady x where
  unit l := by
    rw [ran]
    exact (keeps l).2
  level l a l' ended := by
    rw [ran] at ended
    cases ended
    exact (keeps l).1

theorem steady_pure (a : α) : Steady (pure a) :=
  steady_of_run (fun _ => rfl) fun _ => ⟨rfl, rfl⟩

theorem steady_get : Steady (get : Render Layout) :=
  steady_of_run (fun _ => rfl) fun _ => ⟨rfl, rfl⟩

theorem steady_throw (fault : Fault) : Steady (throw fault : Render α) where
  unit _ := rfl
  level _ _ _ := nofun

theorem steady_line (text : Text) : Steady (line text) :=
  steady_of_run (run_line text) fun _ => ⟨rfl, rfl⟩

theorem steady_modify {f : Layout → Layout}
    (keeps : ∀ l, (f l).level = l.level ∧ (f l).indentUnit = l.indentUnit) :
    Steady (modify f : Render PUnit) :=
  steady_of_run (run_modify f) keeps

theorem steady_bind {x : Render α} {f : α → Render β} (first : Steady x)
    (second : ∀ a, Steady (f a)) : Steady (x >>= f) where
  unit := keepsUnit_bind first.unit fun a => (second a).unit
  level l b l'' ended := by
    rcases ran : x.run.run l with ⟨outcome, l'⟩
    cases outcome with
    | error fault =>
      rw [run_bind_error ran] at ended
      cases ended
    | ok a =>
      rw [run_bind_ok ran] at ended
      exact ((second a).level l' b l'' ended).trans (first.level l a l' ran)

theorem steady_hint (t : AbiType) : Steady (hint t) :=
  steady_bind (steady_modify fun _ => ⟨rfl, rfl⟩) fun _ => steady_pure _

theorem steady_importFromContracts (names : List Text) : Steady (importFromContracts names) :=
  steady_modify fun _ => ⟨rfl, rfl⟩

theorem steady_nested {body : Render α} (steady : Steady body) : Steady (nested body) where
  unit l := by
    have kept := steady.unit (l.shift 1)
    rcases ran : body.run.run (l.shift 1) with ⟨outcome, l'⟩
    rw [ran] at kept
    cases outcome with
    | error fault =>
      rw [run_nested_error ran]
      exact kept
    | ok a =>
      rw [run_nested_ok ran]
      exact kept
  level l a l'' ended := by
    rcases ran : body.run.run (l.shift 1) with ⟨outcome, l'⟩
    cases outcome with
    | error fault =>
      rw [run_nested_error ran] at ended
      cases ended
    | ok b =>
      rw [run_nested_ok ran] at ended
      cases ended
      change l'.level + -1 = l.level
      rw [steady.level _ _ _ ran]
      exact Int.add_neg_cancel_right l.level 1

theorem steady_mapM {f : α → Render β} (steady : ∀ a, Steady (f a)) (xs : List α) :
    Steady (xs.mapM f) := by
  induction xs with
  | nil => exact steady_pure []
  | cons x xs ih =>
    rw [List.mapM_cons]
    exact steady_bind (steady x) fun y => steady_bind ih fun ys => steady_pure (y :: ys)

/-- Rendering takes nothing from the layout but its unit, and if it comes to its end, that is at
level zero. -/
structure StartsOver (x : Render α) : Prop where
  reset : ∀ l, x.run.run l = x.run.run l.reset
  level : ∀ l a l', x.run.run l = (.ok a, l') → l'.level = 0
  unit : KeepsUnit x

theorem StartsOver.run_eq {x : Render α} (startsOver : StartsOver x) {l l' : Layout}
    (unit : l'.indentUnit = l.indentUnit) : x.run.run l' = x.run.run l := by
  rw [startsOver.reset l', Layout.reset_eq unit, ← startsOver.reset l]

theorem startsOver_startClass {f : Unit → Render α} (steady : Steady (f ())) :
    StartsOver (startClass >>= f) where
  reset _ := rfl
  level l a l' ended := by
    rw [run_bind_ok (run_startClass l)] at ended
    exact steady.level l.reset a l' ended
  unit l := by
    rw [run_bind_ok (run_startClass l)]
    exact steady.unit l.reset

end Render

namespace Fragment

open Render

theorem steady_quoted (name : Name) : Steady (quoted name) := by
  unfold quoted
  split
  · exact steady_pure _
  · exact steady_throw _

theorem steady_constantParam (p : AbiParam) : Steady (constantParam p) :=
  steady_bind (steady_quoted p.name) fun _ => steady_line _

theorem steady_constantParams (key : Text) (params : List AbiParam) :
    Steady (constantParams key params) := by
  unfold constantParams
  split
  · exact steady_bind (steady_line _) fun _ => steady_pure _
  · apply steady_bind (steady_line _)
    intro first
    apply steady_bind (steady_nested (steady_mapM steady_constantParam params))
    intro body
    exact steady_bind (steady_line _) fun _ => steady_pure _

theorem steady_constantName (name : Name) : Steady (constantName name) :=
  steady_bind (steady_quoted name) fun _ => steady_line _

theorem steady_constantFlag (name : Text) (isSet : Bool) : Steady (constantFlag name isSet) := by
  unfold constantFlag
  split
  · exact steady_bind (steady_line _) fun _ => steady_pure _
  · exact steady_pure _

theorem steady_constantEntry {body : Render (List Text)} (steady : Steady body) :
    Steady (constantEntry body) :=
  steady_bind (steady_line _) fun _ => steady_bind (steady_nested steady) fun _ =>
    steady_bind (steady_line _) fun _ => steady_pure _

theorem steady_constantFunction (f : FunctionEntry) : Steady (constantFunction f) := by
  apply steady_constantEntry
  apply steady_bind (steady_constantName _)
  intro name
  apply steady_bind (steady_constantFlag _ _)
  intro view
  apply steady_bind (steady_constantFlag _ _)
  intro payable
  apply steady_bind (steady_constantParams _ _)
  intro inputs
  apply steady_bind (steady_constantParams _ _)
  intro outputs
  exact steady_bind (steady_line _) fun _ => steady_pure _

theorem steady_constantEvent (e : EventEntry) : Steady (constantEvent e) := by
  apply steady_constantEntry
  apply steady_bind (steady_constantName _)
  intro name
  apply steady_bind (steady_constantParams _ _)
  intro values
  exact steady_bind (steady_line _) fun _ => steady_pure _

theorem startsOver_constants (owner : Text) (abi : Abi) : StartsOver (constants owner abi) := by
  apply startsOver_startClass
  apply steady_bind (steady_nested (steady_mapM steady_constantEvent abi.events))
  intro events
  apply steady_bind
  · apply steady_nested
    apply steady_bind (steady_mapM steady_constantFunction abi.functions)
    intro entries
    apply steady_bind (steady_line _)
    intro ownEvents
    exact steady_bind (steady_line _) fun _ => steady_pure _
  · exact fun functions => steady_pure _

theorem steady_typed (p : AbiParam) : Steady (typed p) :=
  steady_bind (steady_hint p.type) fun _ => steady_pure _

theorem steady_eventType (e : EventEntry) : Steady (eventType e) := by
  refine steady_bind (steady_nested (steady_mapM ?_ e.values)) fun _ => steady_pure _
  exact fun v => steady_bind (steady_typed v) fun _ => steady_line _

theorem steady_resultFields (outputs : List AbiParam) : Steady (resultFields outputs) := by
  unfold resultFields
  split
  · exact steady_bind (steady_line _) fun _ => steady_pure _
  · apply steady_bind (steady_line _)
    intro first
    apply steady_bind
    · apply steady_nested
      exact steady_mapM (fun o => steady_bind (steady_typed o) fun _ => steady_line _) _
    · exact fun fields => steady_bind (steady_line _) fun _ => steady_pure _

theorem steady_capitalized (name : Name) : Steady (capitalized name) := by
  unfold capitalized
  split
  · exact steady_pure _
  · exact steady_throw _

theorem steady_callResult (declared : List Name) (f : FunctionEntry) :
    Steady (callResult declared f) := by
  apply steady_bind (steady_capitalized f.name)
  intro name
  refine steady_bind (steady_nested ?_) fun _ => steady_pure _
  apply steady_bind (steady_resultFields f.outputs)
  exact fun fields => steady_bind (steady_line _) fun _ => steady_pure _

theorem steady_interfaceMethod (f : FunctionEntry) : Steady (interfaceMethod f) := by
  apply steady_bind (steady_mapM steady_typed f.inputs)
  exact fun params => steady_bind (steady_capitalized f.name) fun _ => steady_line _

theorem steady_interface (owner : Text) (functions : List FunctionEntry) :
    Steady (interface owner functions) :=
  steady_bind (steady_nested (steady_mapM steady_interfaceMethod functions)) fun _ => steady_pure _

theorem startsOver_definitions (owner : Text) (abi : Abi) :
    StartsOver (definitions owner abi) := by
  apply startsOver_startClass
  apply steady_bind (steady_importFromContracts _)
  intro _
  apply steady_bind (steady_mapM steady_eventType abi.events)
  intro events
  apply steady_bind (steady_mapM (steady_callResult _) abi.functions)
  intro results
  apply steady_bind (steady_interface owner abi.functions)
  intro face
  exact steady_bind steady_get fun _ => steady_pure _

theorem keepsUnit_both (owner : Text) (abi : Abi) : KeepsUnit (both owner abi) := by
  apply keepsUnit_bind (startsOver_constants owner abi).unit
  intro constants
  apply keepsUnit_bind (startsOver_definitions owner abi).unit
  exact fun definitions => keepsUnit_pure _

end Fragment

namespace Settings

open Render

theorem keepsUnit_fragments (s : Settings) (classAbis : List (Name × Abi)) :
    KeepsUnit (s.fragments classAbis) := by
  induction classAbis with
  | nil => exact keepsUnit_pure _
  | cons entry rest ih =>
    unfold fragments
    split
    · exact ih
    · apply keepsUnit_bind (Fragment.keepsUnit_both _ _)
      exact fun texts => keepsUnit_bind ih fun _ => keepsUnit_pure _

theorem keepsUnit_files (s : Settings) (unitAbi : Abi) (classAbis : List (Name × Abi)) :
    KeepsUnit (s.files unitAbi classAbis) := by
  unfold files
  dsimp only
  split
  · exact keepsUnit_bind (s.keepsUnit_fragments classAbis) fun fragments => keepsUnit_pure _
  · exact keepsUnit_bind (keepsUnit_pure _) fun fragments => keepsUnit_pure _

end Settings

/-! ### What stops a rendering -/

namespace Render

variable {α β : Type} {stop next : Option Fault}

/-- What there is at the end if this fault, or none, stops a rendering. -/
def StoppedBy : Option Fault → Except Fault α → Prop
  | none, outcome => ∃ a, outcome = .ok a
  | some fault, outcome => outcome = .error fault

/-- Whatever the layout, the rendering is stopped by this fault and, if there is none, comes to its
end. -/
def Ends (stop : Option Fault) (x : Render α) : Prop :=
  ∀ l, StoppedBy stop (x.run.run l).1

theorem ends_pure (a : α) : Ends none (pure a) :=
  fun _ => ⟨a, rfl⟩

theorem ends_line (text : Text) : Ends none (line text) :=
  fun l => ⟨l.line text, rfl⟩

theorem ends_modify (f : Layout → Layout) : Ends none (modify f : Render PUnit) :=
  fun _ => ⟨⟨⟩, rfl⟩

theorem ends_get : Ends none (get : Render Layout) :=
  fun l => ⟨l, rfl⟩

theorem ends_throw (fault : Fault) : Ends (some fault) (throw fault : Render α) :=
  fun _ => rfl

theorem ends_bind {x : Render α} {f : α → Render β} (first : Ends stop x)
    (second : ∀ a, Ends next (f a)) : Ends (stop.or next) (x >>= f) := by
  intro l
  have ended := first l
  cases stop with
  | some fault => exact congrArg Prod.fst (run_bind_error (Prod.ext ended rfl))
  | none =>
    obtain ⟨a, ended⟩ := ended
    have ran : (x >>= f).run.run l = _ := run_bind_ok (Prod.ext ended rfl)
    rw [ran]
    exact second a _

/-- Only the first part can be stopped. -/
theorem ends_then {x : Render α} {f : α → Render β} (first : Ends stop x)
    (second : ∀ a, Ends none (f a)) : Ends stop (x >>= f) := by
  have ends := ends_bind first second
  rwa [Option.or_none] at ends

/-- Only the second part can be stopped. -/
theorem ends_after {x : Render α} {f : α → Render β} (first : Ends none x)
    (second : ∀ a, Ends next (f a)) : Ends next (x >>= f) :=
  ends_bind first second

theorem ends_nested {body : Render α} (inside : Ends stop body) : Ends stop (nested body) :=
  ends_after (ends_modify _) fun _ => ends_then inside fun _ =>
    ends_after (ends_modify _) fun _ => ends_pure _

theorem ends_mapM {f : α → Render β} {stops : α → Option Fault}
    (each : ∀ a, Ends (stops a) (f a)) (as : List α) :
    Ends (as.findSome? stops) (as.mapM f) := by
  induction as with
  | nil => exact ends_pure []
  | cons a as ih =>
    have first : (a :: as).findSome? stops = (stops a).or (as.findSome? stops) := by
      rw [List.findSome?_cons]
      cases stops a <;> rfl
    rw [List.mapM_cons, first]
    exact ends_bind (each a) fun b => ends_then ih fun bs => ends_pure (b :: bs)

theorem ends_hint (t : AbiType) : Ends none (hint t) :=
  ends_after (ends_modify _) fun _ => ends_pure _

end Render

namespace Fragment

open Render

/-! ### Constants of names that are no texts -/

theorem ends_quoted (name : Name) : Ends (Fault.notText.unless name.text?.isSome) (quoted name) := by
  cases name with
  | str s => exact ends_pure _
  | _ => exact ends_throw _

theorem ends_constantParam (p : AbiParam) :
    Ends (Fault.notText.unless p.isTextual) (constantParam p) :=
  ends_then (ends_quoted p.name) fun _ => ends_line _

theorem ends_constantParams (key : Text) (params : List AbiParam) :
    Ends (Fault.notText.unless (params.all AbiParam.isTextual)) (constantParams key params) := by
  unfold constantParams
  split
  · rename_i empty
    rw [empty]
    exact ends_after (ends_line _) fun _ => ends_pure _
  · apply ends_after (ends_line _)
    intro first
    rw [← Fault.findSome?_unless]
    apply ends_then (ends_nested (ends_mapM ends_constantParam params))
    intro body
    exact ends_after (ends_line _) fun _ => ends_pure _

theorem ends_constantName (name : Name) :
    Ends (Fault.notText.unless name.text?.isSome) (constantName name) :=
  ends_then (ends_quoted name) fun _ => ends_line _

theorem ends_constantFlag (name : Text) (isSet : Bool) : Ends none (constantFlag name isSet) := by
  unfold constantFlag
  split
  · exact ends_after (ends_line _) fun _ => ends_pure _
  · exact ends_pure _

theorem ends_constantEntry {stop : Option Fault} {body : Render (List Text)}
    (inside : Ends stop body) : Ends stop (constantEntry body) :=
  ends_after (ends_line _) fun _ => ends_then (ends_nested inside) fun _ =>
    ends_after (ends_line _) fun _ => ends_pure _

theorem ends_constantFunction (f : FunctionEntry) :
    Ends (Fault.notText.unless f.isTextual) (constantFunction f) := by
  unfold FunctionEntry.isTextual
  rw [Bool.and_assoc, ← Fault.or_unless, ← Fault.or_unless]
  apply ends_constantEntry
  apply ends_bind (ends_constantName f.name)
  intro name
  apply ends_after (ends_constantFlag _ _)
  intro view
  apply ends_after (ends_constantFlag _ _)
  intro payable
  apply ends_bind (ends_constantParams _ _)
  intro inputs
  apply ends_then (ends_constantParams _ _)
  exact fun outputs => ends_after (ends_line _) fun _ => ends_pure _

theorem ends_constantEvent (e : EventEntry) :
    Ends (Fault.notText.unless e.isTextual) (constantEvent e) := by
  unfold EventEntry.isTextual
  rw [← Fault.or_unless]
  apply ends_constantEntry
  apply ends_bind (ends_constantName e.name)
  intro name
  apply ends_then (ends_constantParams _ _)
  exact fun values => ends_after (ends_line _) fun _ => ends_pure _

/-- Any name that is no text stops the constants of a class, and nothing else does. -/
theorem ends_constants (owner : Text) (abi : Abi) :
    Ends (Fault.notText.unless abi.isTextual) (constants owner abi) := by
  unfold Abi.isTextual
  rw [Bool.and_comm, ← Fault.or_unless, ← Fault.findSome?_unless, ← Fault.findSome?_unless]
  apply ends_after (ends_modify _)
  intro _
  apply ends_bind (ends_nested (ends_mapM ends_constantEvent abi.events))
  intro events
  refine ends_then (ends_nested ?_) fun functions => ends_pure _
  apply ends_then (ends_mapM ends_constantFunction abi.functions)
  intro entries
  exact ends_after (ends_line _) fun _ => ends_after (ends_line _) fun _ => ends_pure _

/-! ### Definitions of functions that have no capital -/

/-- What stops the definitions of a class: the first function with a name that cannot be
capitalised. -/
def capitalFault? (abi : Abi) : Option Fault :=
  abi.functions.findSome? fun f => (Fault.noCapital f.name).unless (hasCapital f.name)

theorem capitalFault?_eq_none {abi : Abi} :
    capitalFault? abi = none ↔ ∀ f ∈ abi.functions, hasCapital f.name = true := by
  simp [capitalFault?, Fault.unless]

theorem capitalFault?_of_isTextual {abi : Abi} (textual : abi.isTextual = true) :
    capitalFault? abi = none := by
  rw [capitalFault?_eq_none]
  intro f own
  have functions := (Bool.and_eq_true_iff.mp textual).1
  have names := (Bool.and_eq_true_iff.mp (List.all_eq_true.mp functions f own)).1
  simp [hasCapital, (Bool.and_eq_true_iff.mp names).1]

theorem ends_capitalized (name : Name) :
    Ends ((Fault.noCapital name).unless (hasCapital name)) (capitalized name) := by
  unfold capitalized
  cases hasCapital name with
  | true => exact ends_pure _
  | false => exact ends_throw _

theorem ends_typed (p : AbiParam) : Ends none (typed p) :=
  ends_after (ends_hint p.type) fun _ => ends_pure _

/-- What stops at no item does not stop at all. -/
theorem ends_mapM_none {α β : Type} {f : α → Render β} (each : ∀ a, Ends none (f a))
    (as : List α) : Ends none (as.mapM f) := by
  have ends := ends_mapM each as
  rwa [List.findSome?_eq_none_iff.mpr fun _ _ => rfl] at ends

theorem ends_eventType (e : EventEntry) : Ends none (eventType e) := by
  refine ends_after (ends_nested (ends_mapM_none ?_ e.values)) fun _ => ends_pure _
  exact fun v => ends_after (ends_typed v) fun _ => ends_line _

theorem ends_resultFields (outputs : List AbiParam) : Ends none (resultFields outputs) := by
  unfold resultFields
  split
  · exact ends_after (ends_line _) fun _ => ends_pure _
  · apply ends_after (ends_line _)
    intro first
    apply ends_after
    · apply ends_nested
      exact ends_mapM_none (fun o => ends_after (ends_typed o) fun _ => ends_line _) _
    · exact fun fields => ends_after (ends_line _) fun _ => ends_pure _

theorem ends_callResult (declared : List Name) (f : FunctionEntry) :
    Ends ((Fault.noCapital f.name).unless (hasCapital f.name)) (callResult declared f) := by
  apply ends_then (ends_capitalized f.name)
  intro name
  refine ends_after (ends_nested ?_) fun _ => ends_pure _
  apply ends_after (ends_resultFields f.outputs)
  exact fun fields => ends_after (ends_line _) fun _ => ends_pure _

theorem ends_interfaceMethod (f : FunctionEntry) :
    Ends ((Fault.noCapital f.name).unless (hasCapital f.name)) (interfaceMethod f) := by
  apply ends_after (ends_mapM_none ends_typed f.inputs)
  exact fun params => ends_then (ends_capitalized f.name) fun _ => ends_line _

theorem ends_definitions (owner : Text) (abi : Abi) :
    Ends (capitalFault? abi) (definitions owner abi) := by
  have face : Ends (capitalFault? abi) (interface owner abi.functions) :=
    ends_then (ends_nested (ends_mapM ends_interfaceMethod abi.functions)) fun _ => ends_pure _
  -- The interface is stopped by what has stopped the results before.
  rw [← Option.or_self (o := capitalFault? abi)]
  apply ends_after (ends_modify _)
  intro _
  apply ends_after (ends_modify _)
  intro _
  apply ends_after (ends_mapM_none ends_eventType abi.events)
  intro events
  apply ends_bind (ends_mapM (ends_callResult _) abi.functions)
  intro results
  exact ends_then face fun _ => ends_after ends_get fun _ => ends_pure _

theorem ends_both (owner : Text) (abi : Abi) :
    Ends (Fault.notText.unless abi.isTextual) (both owner abi) := by
  have constants := ends_constants owner abi
  have definitions := ends_definitions owner abi
  cases textual : abi.isTextual with
  | true =>
    rw [textual] at constants
    rw [capitalFault?_of_isTextual textual] at definitions
    exact ends_after constants fun _ => ends_after definitions fun _ => ends_pure _
  | false =>
    rw [textual] at constants
    exact ends_bind constants fun _ => ends_bind definitions fun _ => ends_pure _

end Fragment

namespace Settings

open Render

/-- Fragments are rendered for classes with functions, and a name there that is no text stops
them. -/
def fragmentFault? (s : Settings) (classAbis : List (Name × Abi)) : Option Fault :=
  Fault.notText.unless
    (!s.typescript || (classAbis.filter (·.2.functions ≠ [])).all (·.2.isTextual))

theorem ends_fragments (s : Settings) (classAbis : List (Name × Abi)) :
    Ends (Fault.notText.unless ((classAbis.filter (·.2.functions ≠ [])).all (·.2.isTextual)))
      (s.fragments classAbis) := by
  induction classAbis with
  | nil => exact ends_pure _
  | cons entry rest ih =>
    unfold fragments
    by_cases empty : entry.2.functions = []
    · rw [if_pos empty, List.filter_cons_of_neg (by simp [empty])]
      exact ih
    · rw [if_neg empty, List.filter_cons_of_pos (by simp [empty]), List.all_cons, ← Fault.or_unless]
      apply ends_bind (Fragment.ends_both _ _)
      exact fun texts => ends_then ih fun _ => ends_pure _

theorem ends_files (s : Settings) (unitAbi : Abi) (classAbis : List (Name × Abi)) :
    Ends (s.fragmentFault? classAbis) (s.files unitAbi classAbis) := by
  unfold fragmentFault? files
  cases s.typescript with
  | true => exact ends_then (s.ends_fragments classAbis) fun fragments => ends_pure _
  | false => exact ends_after (ends_pure _) fun fragments => ends_pure _

theorem completes_files (s : Settings) (unitAbi : Abi) {classAbis : List (Name × Abi)}
    (textual : ∀ entry ∈ classAbis, entry.2.isTextual = true) (l : Layout) :
    ∃ files, ((s.files unitAbi classAbis).run.run l).1 = .ok files := by
  have ends := s.ends_files unitAbi classAbis l
  have none : s.fragmentFault? classAbis = none := by
    have all : (classAbis.filter (·.2.functions ≠ [])).all (·.2.isTextual) = true :=
      List.all_eq_true.mpr fun entry listed => textual entry (List.mem_filter.mp listed).1
    rw [fragmentFault?, all, Bool.or_true]
    rfl
  rwa [none] at ends

/-- A name that is no text is all that stops files from being written out. -/
theorem notText_of_files (s : Settings) (unitAbi : Abi) (classAbis : List (Name × Abi)) {l : Layout}
    {fault : Fault} (stopped : ((s.files unitAbi classAbis).run.run l).1 = .error fault) :
    fault = .notText := by
  have ends := s.ends_files unitAbi classAbis l
  unfold fragmentFault? Fault.unless at ends
  split at ends
  · obtain ⟨files, ended⟩ := ends
    rw [ended] at stopped
    cases stopped
  · rw [ends] at stopped
    exact (Except.error.inj stopped).symm

end Settings

namespace Dispatch

/-! ### Routines -/

/-- The selector and the method that a record's guard is about. -/
def guardOf (r : Record) : Except Fault (Text × Text) :=
  r.resolveCall.map fun call => (call.selector, r.declared.label)

def headLine : Text :=
  "public override " ++ routineName ++ "(selector: u32, calldata: Calldata): BytesWriter \x7b"

def parentLine : Text :=
  "return super." ++ routineName ++ "(selector, calldata);"

def routineLines (indent : Text) (guards : List (Text × Text)) : List Text :=
  marker :: headLine ::
    (guards.map (fun (selector, declared) => indent ++ guardText selector declared) ++
      [indent ++ parentLine, "\x7d"])

def routineText (indent : Text) (guards : List (Text × Text)) : Text :=
  Text.intercalate "\n" (routineLines indent guards)

theorem guardText_ne_empty (selector declared : Text) : guardText selector declared ≠ "" :=
  append_ne_empty (by decide)

theorem guardLine_run (r : Record) (l : Layout) :
    (guardLine r).run.run l =
      ((guardOf r).map fun (selector, declared) => l.indent ++ guardText selector declared, l) := by
  unfold guardLine guardOf
  cases r.resolveCall with
  | error fault => rfl
  | ok call =>
    have text := l.line_of_ne (guardText_ne_empty call.selector r.declared.label)
    exact Prod.ext (congrArg Except.ok text) rfl

theorem mapM_guardLine_run (records : List Record) (l : Layout) :
    (records.mapM guardLine).run.run l =
      ((records.mapM guardOf).map
        (List.map fun (selector, declared) => l.indent ++ guardText selector declared), l) := by
  induction records with
  | nil => rfl
  | cons r records ih =>
    have first := guardLine_run r l
    rw [List.mapM_cons, List.mapM_cons]
    cases guarded : guardOf r with
    | error fault =>
      rw [guarded] at first
      rw [run_bind_error first]
      rfl
    | ok guard =>
      rw [guarded] at first
      rw [run_bind_ok first]
      cases rest : records.mapM guardOf with
      | error fault =>
        rw [rest] at ih
        rw [run_bind_error ih]
        rfl
      | ok guards =>
        rw [rest] at ih
        rw [run_bind_ok ih]
        rfl

/-- A routine has a guard for each record. Whatever was rendered before, only the unit of
indentation matters. -/
theorem routine_run (records : List Record) (l : Layout) :
    (routine records).run.run l =
      match records.mapM guardOf with
      | .error fault => (.error fault, l.reset.shift 1)
      | .ok guards => (.ok (routineText l.indentUnit guards), l.reset) := by
  have guards := mapM_guardLine_run records (l.reset.shift 1)
  unfold routine
  rw [run_bind_ok (run_startClass l), run_bind_ok (run_line ..), run_bind_ok (run_line ..),
    run_bind_ok (run_modify ..)]
  cases found : records.mapM guardOf with
  | error fault =>
    rw [found] at guards
    rw [run_bind_error guards]
  | ok gs =>
    rw [found] at guards
    have parent : "return super." ++ routineName ++ "(selector, calldata);" ≠ "" := by decide
    rw [run_bind_ok guards, run_bind_ok (run_line ..), run_bind_ok (run_modify ..),
      run_bind_ok (run_line ..), l.reset_shift_shift, l.indent_reset_shift, l.line_reset,
      l.line_reset, l.line_reset, Layout.line_of_ne _ parent, l.indent_reset_shift]
    rfl

theorem routine_keepsUnit (records : List Record) : Render.KeepsUnit (routine records) := by
  intro l
  rw [routine_run]
  split <;> rfl

/-- The guards of records that have a call. -/
def guards (records : List Record) : List (Text × Text) :=
  records.filterMap fun r => r.call.map fun call => (call.selector, r.declared.label)

theorem mapM_guardOf {records : List Record} (called : ∀ r ∈ records, r.call.isSome = true) :
    records.mapM guardOf = .ok (guards records) := by
  induction records with
  | nil => rfl
  | cons r records ih =>
    obtain ⟨call, own⟩ := Option.isSome_iff_exists.mp (called r List.mem_cons_self)
    have rest := ih fun r member => called r (List.mem_cons_of_mem _ member)
    have guard : guardOf r = .ok (call.selector, r.declared.label) := by
      rw [guardOf, Record.resolveCall, own]
      rfl
    have both : guards (r :: records) = (call.selector, r.declared.label) :: guards records := by
      simp [guards, own]
    rw [List.mapM_cons, guard, rest, both]
    rfl

end Dispatch

namespace Injector

/-! ### Injecting -/

open Dispatch

theorem inject_keepsUnit (s : Injector) (site : Site) (records : List Record) :
    (s.inject site records).1.layout.indentUnit = s.layout.indentUnit := by
  have kept := routine_keepsUnit records s.layout
  unfold inject
  split
  all_goals
    rename_i ran
    rw [ran] at kept
    exact kept

theorem injectAll_keepsUnit (classes : Table Json Visit) (s : Injector)
    (groups : List (Name × List Record)) :
    (injectAll classes s groups).1.layout.indentUnit = s.layout.indentUnit := by
  fun_induction injectAll classes s groups with
  | case1 => rfl
  | case2 => assumption
  | case3 => assumption
  | case4 s owner records rest nonempty visit found next fault stopped =>
    have kept := s.inject_keepsUnit visit.site records
    rwa [stopped] at kept
  | case5 s owner records rest nonempty visit found next m injected last result ran ih =>
    have kept := s.inject_keepsUnit visit.site records
    rw [injected] at kept
    rw [ran] at ih
    exact ih.trans kept

/-- The method that injecting the routine of these records puts into a class. -/
def routineOf (s : Injector) (records : List Record) : Method where
  key := s.code.nextKey
  name := .str routineName
  body := some (routineText s.layout.indentUnit (guards records))

theorem inject_eq (s : Injector) (site : Site) {records : List Record}
    (called : ∀ r ∈ records, r.call.isSome = true) :
    ∃ findings, s.inject site records =
      ({ code := { s.code.modifyClass site (fun c => (c.splice (s.routineOf records)).1) with
            nextKey := s.code.nextKey + 1 }
         layout := s.layout.reset
         findings },
        .ok (s.routineOf records)) := by
  unfold inject
  rw [routine_run, mapM_guardOf called]
  exact ⟨_, rfl⟩

/-- What injection needs: classes that were met, with records that have their calls. -/
def IsReady (classes : Table Json Visit) (group : Name × List Record) : Prop :=
  group.2 ≠ [] ∧ classes.contains group.1.key = true ∧ ∀ r ∈ group.2, r.call.isSome = true

/-- Injecting routines into classes that are ready comes down to injecting them one by one. -/
theorem injectAll_cons {classes : Table Json Visit} (s : Injector) {owner : Name}
    {records : List Record} (rest : List (Name × List Record))
    (ready : IsReady classes (owner, records)) :
    ∃ visit next, classes.get? owner.key = some visit ∧
      s.inject visit.site records = (next, .ok (s.routineOf records)) ∧
      injectAll classes s ((owner, records) :: rest) =
        ((injectAll classes next rest).1, (injectAll classes next rest).2.map
          ((owner, routineText s.layout.indentUnit (guards records)) :: ·)) := by
  obtain ⟨nonempty, met, called⟩ := ready
  obtain ⟨visit, found⟩ := Option.isSome_iff_exists.mp met
  obtain ⟨findings, injected⟩ := s.inject_eq visit.site called
  refine ⟨visit, _, found, injected, ?_⟩
  cases records with
  | nil => exact absurd rfl nonempty
  | cons r records =>
    rw [injectAll, found]
    · dsimp only
      rw [injected]
      rfl
    · nofun

/-- Every class gets the routine of its records, and the layout is that of a new class. -/
theorem injectAll_run {classes : Table Json Visit} {s : Injector}
    {groups : List (Name × List Record)} (ready : ∀ group ∈ groups, IsReady classes group) :
    (injectAll classes s groups).2 = .ok (groups.map fun (owner, records) =>
        (owner, routineText s.layout.indentUnit (guards records))) ∧
      (injectAll classes s groups).1.layout = if groups = [] then s.layout else s.layout.reset := by
  induction groups generalizing s with
  | nil => exact ⟨rfl, rfl⟩
  | cons group rest ih =>
    obtain ⟨owner, records⟩ := group
    have first := ready _ List.mem_cons_self
    obtain ⟨visit, next, -, injected, step⟩ := s.injectAll_cons rest first
    obtain ⟨findings, same⟩ := s.inject_eq visit.site first.2.2
    rw [injected] at same
    obtain ⟨rfl, -⟩ := Prod.mk.inj same
    obtain ⟨texts, layout⟩ := ih fun group member => ready group (List.mem_cons_of_mem _ member)
    rw [step]
    refine ⟨by rw [texts]; rfl, ?_⟩
    dsimp only at layout ⊢
    rw [layout, if_neg (List.cons_ne_nil _ _)]
    split <;> rfl

end Injector

end ContractAbi
