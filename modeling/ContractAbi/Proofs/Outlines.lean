import ContractAbi.Proofs.Rendering

/-!
# Definitions part by part

An outline says what a module of type definitions imports, exports and refers to. While the module
is rendered, the names to import are noted in the layout and printed before all else;
`fst_definitions_run` gives the text of the module from its outline alone.
-/

namespace ContractAbi

/-! ### Renderings that note names -/

/-- The layout with more names to import. -/
def Layout.noting (l : Layout) (names : List Text) : Layout :=
  { l with transactionImports := appendAllNew l.transactionImports names }

theorem Layout.noting_noting (l : Layout) (names more : List Text) :
    (l.noting names).noting more = l.noting (names ++ more) := by
  unfold noting
  rw [appendAllNew_append]

/-- A line that stands so many levels further in. -/
def indented (unit : Text) (level : Nat) (text : Text) : Text :=
  Text.join (List.replicate level unit) ++ text

namespace Render

variable {α β : Type} {unit : Text} {level : Nat} {names more : List Text}

/-- At this level, the rendering gives `a` and notes `names`. -/
def Yields (unit : Text) (level : Nat) (x : Render α) (names : List Text) (a : α) : Prop :=
  ∀ l : Layout, l.indentUnit = unit → l.level = level → x.run.run l = (.ok a, l.noting names)

theorem yields_pure (a : α) : Yields unit level (pure a) [] a :=
  fun _ _ _ => rfl

theorem yields_bind {x : Render α} {f : α → Render β} {a : α} {b : β}
    (first : Yields unit level x names a) (second : Yields unit level (f a) more b) :
    Yields unit level (x >>= f) (names ++ more) b := by
  intro l here deep
  rw [run_bind_ok (first l here deep)]
  exact (second (l.noting names) here deep).trans (by rw [l.noting_noting])

theorem yields_then {x : Render α} {f : α → Render β} {a : α} {b : β}
    (first : Yields unit level x names a) (second : Yields unit level (f a) [] b) :
    Yields unit level (x >>= f) names b := by
  have both := yields_bind first second
  rwa [List.append_nil] at both

theorem yields_line {text : Text} (solid : text ≠ "") :
    Yields unit level (line text) [] (indented unit level text) := by
  intro l here deep
  have margin : l.indent = Text.join (List.replicate level unit) := by
    rw [Layout.indent, here, deep, Int.toNat_natCast]
  rw [run_line, l.line_of_ne solid, margin]
  rfl

theorem yields_nested {body : Render α} {a : α} (inside : Yields unit (level + 1) body names a) :
    Yields unit level (nested body) names a := by
  intro l here deep
  have ran := inside (l.shift 1) here (by simp [Layout.shift, deep])
  rw [run_nested_ok ran]
  simp only [Layout.shift, Layout.noting, Int.add_neg_cancel_right]

theorem yields_mapM {f : α → Render β} {noted : α → List Text} {g : α → β} {as : List α}
    (each : ∀ a ∈ as, Yields unit level (f a) (noted a) (g a)) :
    Yields unit level (as.mapM f) (as.flatMap noted) (as.map g) := by
  induction as with
  | nil => exact yields_pure []
  | cons a as ih =>
    have rest := ih fun a inside => each a (List.mem_cons_of_mem _ inside)
    rw [List.mapM_cons]
    exact yields_bind (each a List.mem_cons_self) (yields_then rest (yields_pure _))

theorem yields_hint (t : AbiType) :
    Yields unit level (hint t) (AbiType.hintImports t.hint) t.hint :=
  fun _ _ _ => rfl

end Render

/-! ### Outlines -/

namespace Fragment

/-- The type of an event, with a field for each value. -/
structure EventType where
  name : Text
  fields : List Text
deriving DecidableEq, Repr

/-- The type of a call's result, with a field for each output and the types of the events. -/
structure ResultType where
  name : Text
  function : Text
  fields : List Text
  events : List Text
deriving DecidableEq, Repr

/-- A method of an interface. -/
structure Signature where
  name : Text
  params : List Text
  result : Text
deriving DecidableEq, Repr

structure Outline where
  /-- What is imported from the transaction library. -/
  imports : List Text
  events : List EventType
  results : List ResultType
  face : Text
  methods : List Signature
deriving DecidableEq, Repr

def EventType.lines (unit : Text) (e : EventType) : List Text :=
  ("export type " ++ e.name ++ " = \x7b") ::
    e.fields.map (fun field => indented unit 1 ("readonly " ++ field ++ ";")) ++ [("\x7d;" : Text)]

def ResultType.union (r : ResultType) : Text :=
  if r.events = [] then "never" else Text.intercalate " | " r.events

def ResultType.fieldLines (unit : Text) (r : ResultType) : List Text :=
  if r.fields = [] then [indented unit 1 "\x7b\x7d,"]
  else indented unit 1 "\x7b" :: r.fields.map (fun field => indented unit 2 (field ++ ";")) ++
    [indented unit 1 "\x7d,"]

def ResultType.lines (unit : Text) (r : ResultType) : List Text :=
  [("/**" : Text),
    " * @description Represents the result of the " ++ r.function ++ " function call.",
    " */",
    "export type " ++ r.name ++ " = CallResult<"] ++
  (r.fieldLines unit ++ [indented unit 1 ("OPNetEvent<" ++ r.union ++ ">[]")]) ++ [(">;" : Text)]

def Signature.text (s : Signature) : Text :=
  s.name ++ "(" ++ Text.intercalate ", " s.params ++ "): Promise<" ++ s.result ++ ">;"

namespace Outline

/-- The line that imports from the transaction library, if there is one. -/
def importLine? (o : Outline) : Option Text :=
  if o.imports = [] then none
  else some
    ("import \x7b " ++ Text.intercalate ", " o.imports ++ " \x7d from '@btc-vision/transaction';")

def faceLines (unit : Text) (o : Outline) : List Text :=
  ("export interface " ++ o.face ++ " extends IOP_NETContract \x7b") ::
    o.methods.map (fun m => indented unit 1 m.text) ++ [("\x7d" : Text)]

def lines (unit : Text) (o : Outline) : List Text :=
  o.importLine?.toList ++
  [importLine ["CallResult", "OPNetEvent", "IOP_NETContract"] contractModule, ""] ++
  (sectionHead "Event Definitions" ++ o.events.flatMap (fun e => e.lines unit ++ [("" : Text)]) ++
  sectionHead "Call Results" ++ o.results.flatMap (fun r => r.lines unit ++ [("" : Text)]) ++
  sectionHead o.face ++ o.faceLines unit)

def text (unit : Text) (o : Outline) : Text :=
  joinLines (o.lines unit)

/-- The names of the types and of the interface, in the order in which they are exported. -/
def exported (o : Outline) : List Text :=
  o.events.map (·.name) ++ o.results.map (·.name) ++ [o.face]

end Outline

/-! ### The outline of a manifest -/

def typedText (p : AbiParam) : Text :=
  p.name.label ++ ": " ++ p.type.hint

/-- The parameters that have their types printed, section by section. -/
def printed (abi : Abi) : List AbiParam :=
  abi.events.flatMap (·.values) ++ abi.functions.flatMap (·.outputs) ++
    abi.functions.flatMap (·.inputs)

def noted (p : AbiParam) : List Text :=
  AbiType.hintImports p.type.hint

def EventType.of (e : EventEntry) : EventType :=
  ⟨e.name.label ++ "Event", e.values.map typedText⟩

def ResultType.of (declared : List Name) (f : FunctionEntry) : ResultType :=
  ⟨Text.capitalize f.name.label, f.name.label, f.outputs.map typedText,
    (f.emits.filter fun e => declared.any (·.isText e)).map (· ++ "Event")⟩

def Signature.of (f : FunctionEntry) : Signature :=
  ⟨f.name.label, f.inputs.map typedText, Text.capitalize f.name.label⟩

def Outline.of (title : Text) (abi : Abi) : Outline where
  imports := sortNames (distinct ((printed abi).flatMap noted))
  events := abi.events.map .of
  results := abi.functions.map (.of (abi.events.map (·.name)))
  face := "I" ++ title
  methods := abi.functions.map .of

/-! ### The text of an outline -/

section

open Render

variable {unit : Text} {level : Nat}

theorem yields_typed (p : AbiParam) : Yields unit level (typed p) (noted p) (typedText p) :=
  yields_then (yields_hint p.type) (yields_pure _)

theorem yields_eventType (e : EventEntry) :
    Yields unit 0 (eventType e) (e.values.flatMap noted) ((EventType.of e).lines unit) := by
  have lines : (EventType.of e).lines unit = ("export type " ++ e.name.label ++ "Event = \x7b") ::
      e.values.map (fun v => indented unit 1 ("readonly " ++ typedText v ++ ";")) ++
        [("\x7d;" : Text)] := by
    simp [EventType.lines, EventType.of, Text.append_assoc, ← Text.ofString_append]
  rw [lines]
  refine yields_then (yields_nested (yields_mapM fun v own => ?_)) (yields_pure _)
  exact yields_then (yields_typed v) (yields_line (append_ne_empty (by decide)))

theorem yields_resultFields (declared : List Name) (f : FunctionEntry) :
    Yields unit 1 (resultFields f.outputs) (f.outputs.flatMap noted)
      ((ResultType.of declared f).fieldLines unit) := by
  unfold resultFields ResultType.fieldLines
  by_cases none : f.outputs = []
  · have empty : (ResultType.of declared f).fields = [] := by simp [ResultType.of, none]
    rw [if_pos none, if_pos empty, none]
    exact yields_bind (yields_line (by decide)) (yields_pure _)
  · have some : (ResultType.of declared f).fields ≠ [] := by simpa [ResultType.of] using none
    rw [if_neg none, if_neg some]
    have fields : Yields unit 2 (f.outputs.mapM fun o => do Render.line ((← typed o) ++ ";"))
        (f.outputs.flatMap noted)
        (f.outputs.map fun o => indented unit 2 (typedText o ++ ";")) := by
      refine yields_mapM fun o own => ?_
      exact yields_then (yields_typed o) (yields_line (append_ne_empty (t := ";") (by decide)))
    have same :
        (ResultType.of declared f).fields.map (fun field => indented unit 2 (field ++ ";")) =
          f.outputs.map fun o => indented unit 2 (typedText o ++ ";") := by
      simp [ResultType.of]
    rw [same]
    exact yields_bind (yields_line (by decide)) (yields_then (yields_nested fields)
      (yields_bind (yields_line (by decide)) (yields_pure _)))

theorem eventUnion_eq (declared : List Name) (f : FunctionEntry) :
    eventUnion declared f.emits = "OPNetEvent<" ++ (ResultType.of declared f).union ++ ">[]" := by
  unfold eventUnion ResultType.union ResultType.of
  dsimp only
  generalize f.emits.filter (fun e => declared.any (·.isText e)) = events
  cases events with
  | nil => rfl
  | cons e events => rw [if_neg (by simp)]

theorem yields_capitalized {name : Name} (named : hasCapital name = true) :
    Yields unit level (capitalized name) [] (Text.capitalize name.label) := by
  rw [capitalized, if_pos named]
  exact yields_pure _

theorem yields_callResult (declared : List Name) {f : FunctionEntry}
    (named : hasCapital f.name = true) :
    Yields unit 0 (callResult declared f) (f.outputs.flatMap noted)
      ((ResultType.of declared f).lines unit) := by
  have union : Yields unit 1 (Render.line (eventUnion declared f.emits)) []
      (indented unit 1 ("OPNetEvent<" ++ (ResultType.of declared f).union ++ ">[]")) := by
    rw [eventUnion_eq]
    exact yields_line (append_ne_empty (by decide))
  have body : Yields unit 1 (do
      let fields ← resultFields f.outputs
      return fields ++ [← Render.line (eventUnion declared f.emits)]) (f.outputs.flatMap noted)
      ((ResultType.of declared f).fieldLines unit ++
        [indented unit 1 ("OPNetEvent<" ++ (ResultType.of declared f).union ++ ">[]")]) :=
    yields_then (yields_resultFields declared f) (yields_bind union (yields_pure _))
  exact yields_bind (yields_capitalized named) (yields_then (yields_nested body) (yields_pure _))

theorem yields_interfaceMethod {f : FunctionEntry} (named : hasCapital f.name = true) :
    Yields unit level (interfaceMethod f) (f.inputs.flatMap noted)
      (indented unit level (Signature.of f).text) :=
  yields_then (yields_mapM fun p _ => yields_typed p)
    (yields_bind (yields_capitalized named) (yields_line (append_ne_empty (by decide))))

theorem yields_interface (title : Text) {abi : Abi}
    (named : ∀ f ∈ abi.functions, hasCapital f.name = true) :
    Yields unit 0 (interface title abi.functions)
      (abi.functions.flatMap fun f => f.inputs.flatMap noted)
      ((Outline.of title abi).faceLines unit) := by
  have lines : (Outline.of title abi).faceLines unit =
      ("export interface I" ++ title ++ " extends IOP_NETContract \x7b") ::
        abi.functions.map (fun f => indented unit 1 (Signature.of f).text) ++ [("\x7d" : Text)] := by
    have head : "export interface " ++ ("I" ++ title) = "export interface I" ++ title := by
      rw [← Text.append_assoc]
      rfl
    simp [Outline.faceLines, Outline.of, head]
  rw [lines]
  refine yields_then (yields_nested ?_) (yields_pure _)
  exact yields_mapM fun f own => yields_interfaceMethod (named f own)

theorem flatMap_noted (abi : Abi) :
    (printed abi).flatMap noted = (abi.events.flatMap fun e => e.values.flatMap noted) ++
      (abi.functions.flatMap fun f => f.outputs.flatMap noted) ++
      (abi.functions.flatMap fun f => f.inputs.flatMap noted) := by
  simp [printed, List.flatMap_assoc]

theorem sortNames_eq_nil {names : List Text} : sortNames names = [] ↔ names = [] := by
  rw [← List.length_eq_zero_iff, sortNames, List.length_mergeSort, List.length_eq_zero_iff]

theorem imports_noting {l : Layout} (title : Text) (abi : Abi)
    (contracts : l.contractImports = [("CallResult" : Text), "OPNetEvent", "IOP_NETContract"])
    (empty : l.transactionImports = []) :
    imports (l.noting ((printed abi).flatMap noted)) = (Outline.of title abi).importLine?.toList ++
      [importLine ["CallResult", "OPNetEvent", "IOP_NETContract"] contractModule] := by
  have names : (l.noting ((printed abi).flatMap noted)).transactionImports =
      distinct ((printed abi).flatMap noted) := by
    simp [Layout.noting, empty, distinct]
  have kept : (l.noting ((printed abi).flatMap noted)).contractImports =
      [("CallResult" : Text), "OPNetEvent", "IOP_NETContract"] := contracts
  have sorted :
      (Outline.of title abi).imports = sortNames (distinct ((printed abi).flatMap noted)) := rfl
  unfold imports Outline.importLine?
  rw [names, kept, sorted]
  congr 1
  by_cases none : distinct ((printed abi).flatMap noted) = []
  · rw [if_pos none, if_pos (sortNames_eq_nil.mpr none)]
    rfl
  · rw [if_neg none, if_neg (mt sortNames_eq_nil.mp none)]
    simp [importLine, transactionModule, Text.append_assoc, ← Text.ofString_append]

/-- The lines of the three sections. -/
def sections (title : Text) (abi : Abi) :
    Render (List (List Text) × List (List Text) × List Text) := do
  let events ← abi.events.mapM eventType
  let results ← abi.functions.mapM (callResult (abi.events.map (·.name)))
  let face ← interface title abi.functions
  return (events, results, face)

theorem yields_sections (title : Text) {abi : Abi}
    (named : ∀ f ∈ abi.functions, hasCapital f.name = true) :
    Yields unit 0 (sections title abi) ((printed abi).flatMap noted)
      (abi.events.map fun e => (EventType.of e).lines unit,
        abi.functions.map fun f => (ResultType.of (abi.events.map (·.name)) f).lines unit,
        (Outline.of title abi).faceLines unit) := by
  rw [flatMap_noted, List.append_assoc]
  exact yields_bind (yields_mapM fun e _ => yields_eventType e)
    (yields_bind (yields_mapM fun f own => yields_callResult _ (named f own))
      (yields_then (yields_interface title named) (yields_pure _)))

/-- The module made of its sections and of the names that were noted for them. -/
def assembled (title : Text)
    (parts : List (List Text) × List (List Text) × List Text) : Render Text := do
  return joinLines (imports (← get) ++ [("" : Text)] ++
    (sectionHead "Event Definitions" ++ parts.1.flatMap (· ++ [("" : Text)]) ++
    sectionHead "Call Results" ++ parts.2.1.flatMap (· ++ [("" : Text)]) ++
    sectionHead ("I" ++ title) ++ parts.2.2))

/-- The text of a class's definitions is that of their outline, unless a name that cannot be
capitalised stops them. -/
theorem fst_definitions_run (title : Text) (abi : Abi) (l : Layout) :
    ((definitions title abi).run.run l).1 =
      (capitalFault? abi).elim (.ok ((Outline.of title abi).text l.indentUnit)) .error := by
  cases stop : capitalFault? abi with
  | some fault =>
    have ends := ends_definitions title abi l
    rwa [stop] at ends
  | none =>
    let start : Layout := { l.reset with
      contractImports := appendAllNew [] ["CallResult", "OPNetEvent", "IOP_NETContract"] }
    have split : definitions title abi = (do
        Render.startClass
        Render.importFromContracts ["CallResult", "OPNetEvent", "IOP_NETContract"]
        assembled title (← sections title abi)) := by
      simp [definitions, sections, assembled]
    have opened : (Render.importFromContracts
        ["CallResult", "OPNetEvent", "IOP_NETContract"]).run.run l.reset = (.ok (), start) := rfl
    have contracts :
        start.contractImports = [("CallResult" : Text), "OPNetEvent", "IOP_NETContract"] :=
      appendAllNew_of_nodup (by decide)
    have ran := yields_sections title (capitalFault?_eq_none.mp stop) start
      (show start.indentUnit = l.indentUnit from rfl) rfl
    rw [split, run_bind_ok (run_startClass l), run_bind_ok opened, run_bind_ok ran]
    change Except.ok _ = Except.ok _
    rw [imports_noting title abi contracts rfl]
    simp [Outline.text, Outline.lines, Outline.of, List.flatMap_map]

end

end Fragment

end ContractAbi
