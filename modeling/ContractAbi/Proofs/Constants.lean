import ContractAbi.Proofs.Rendering
import ContractAbi.Proofs.Telling

/-!
# Constants that tell their ABI

Names are written into the constants of a class as they are, line breaks and pieces of code
included. `toList_constants` gives the text in closed form and `constants_tell` shows that it can be
read in one way only.
-/

namespace ContractAbi

/-! ### Lines -/

def lineEnd (line : Text) : List CodePoint :=
  line.toList ++ [.char '\n']

theorem toList_joinLines {lines : List Text} (some : lines ≠ []) :
    (joinLines lines).toList = lines.flatMap lineEnd := by
  have feed : Text.toList "\n" = [.char '\n'] := rfl
  rw [joinLines, Text.toList_append, Text.toList_intercalate, feed]
  clear feed
  induction lines with
  | nil => exact absurd rfl some
  | cons line lines ih =>
    cases lines with
    | nil => simp [lineEnd]
    | cons next lines =>
      have later := ih (by simp)
      simp only [List.map_cons, List.flatMap_cons] at later ⊢
      rw [List.intercalate_cons_cons, List.append_assoc, later]
      simp [lineEnd]

/-- How a line at this level begins if its text begins so. -/
def lineHead (level : Nat) (text : Text) : List CodePoint :=
  List.replicate (4 * level) (.char ' ') ++ text.toList

def lineText (level : Nat) (text : Text) : List CodePoint :=
  lineHead level text ++ [.char '\n']

theorem lineText_append (level : Nat) (s t : Text) :
    lineText level (s ++ t) = lineHead level s ++ (t.toList ++ [.char '\n']) := by
  simp [lineText, lineHead]

theorem begins_lineText (level : Nat) (s t : Text) :
    lineHead level s <+: lineText level (s ++ t) :=
  lineText_append level s t ▸ List.prefix_append _ _

theorem lineText_quote (level : Nat) (before name behind : Text) :
    lineText level (before ++ Text.quote name ++ behind) =
      (lineHead level before ++ [.char '\'']) ++
        ((Text.escapeQuoted name.toList ++ [.char '\'']) ++ (behind.toList ++ [.char '\n'])) := by
  rw [Text.append_assoc, lineText_append]
  simp [Text.quote]

namespace Layout

/-- At this level, with four blanks a level. -/
structure IsAt (l : Layout) (level : Nat) : Prop where
  level : l.level = level
  unit : l.indentUnit = "    "

variable {l : Layout} {level : Nat}

theorem IsAt.shift (isAt : l.IsAt level) : (l.shift 1).IsAt (level + 1) :=
  ⟨by simp [Layout.shift, isAt.level], isAt.unit⟩

theorem IsAt.lineEnd_line (isAt : l.IsAt level) {text : Text} (solid : text ≠ "") :
    lineEnd (l.line text) = lineText level text := by
  have margin : l.indent.toList = List.replicate (4 * level) (.char ' ') := by
    rw [indent, isAt.level, isAt.unit, Text.toList_join, Int.toNat_natCast]
    clear isAt
    induction level with
    | zero => rfl
    | succ level ih =>
      rw [List.replicate_succ, List.flatMap_cons, ih, Nat.mul_succ, Nat.add_comm,
        List.replicate_add]
      rfl
  rw [line_of_ne l solid, lineEnd, Text.toList_append, margin, lineText, lineHead]

end Layout

namespace Render

variable {α β : Type} {level : Nat}

/-- At this level, the rendering comes to its end, leaves the layout as it is and its result
satisfies `post`. -/
def Gives (level : Nat) (x : Render α) (post : α → Prop) : Prop :=
  ∀ l : Layout, l.IsAt level → ∃ a, x.run.run l = (.ok a, l) ∧ post a

theorem gives_pure {post : α → Prop} {a : α} (holds : post a) : Gives level (pure a) post :=
  fun _ _ => ⟨a, rfl, holds⟩

theorem gives_bind {x : Render α} {f : α → Render β} {mid : α → Prop} {post : β → Prop}
    (first : Gives level x mid) (second : ∀ a, mid a → Gives level (f a) post) :
    Gives level (x >>= f) post := by
  intro l isAt
  obtain ⟨a, ran, holds⟩ := first l isAt
  rw [run_bind_ok ran]
  exact second a holds l isAt

theorem gives_line {text : Text} (solid : text ≠ "") :
    Gives level (line text) (fun written => lineEnd written = lineText level text) :=
  fun l isAt => ⟨l.line text, rfl, isAt.lineEnd_line solid⟩

theorem gives_nested {body : Render α} {post : α → Prop} (inside : Gives (level + 1) body post) :
    Gives level (nested body) post := by
  intro l isAt
  obtain ⟨a, ran, holds⟩ := inside (l.shift 1) isAt.shift
  refine ⟨a, ?_, holds⟩
  rw [run_nested_ok ran]
  simp only [Layout.shift, Int.add_neg_cancel_right]

theorem gives_mapM {f : α → Render β} {post : α → β → Prop} {as : List α}
    (each : ∀ a ∈ as, Gives level (f a) (post a)) :
    Gives level (as.mapM f) (List.Forall₂ post as) := by
  induction as with
  | nil => exact gives_pure .nil
  | cons a as ih =>
    rw [List.mapM_cons]
    refine gives_bind (each a List.mem_cons_self) fun b first => ?_
    refine gives_bind (ih fun a inside => each a (List.mem_cons_of_mem _ inside)) fun bs rest => ?_
    exact gives_pure (.cons first rest)

def Writes (level : Nat) (x : Render (List Text)) (text : List CodePoint) : Prop :=
  Gives level x (fun lines => lines.flatMap lineEnd = text)

theorem flatMap_of_forall₂ {f : α → List CodePoint} {g : β → List CodePoint} {as : List α}
    {bs : List β} (each : List.Forall₂ (fun a b => g b = f a) as bs) : bs.flatMap g = as.flatMap f := by
  induction each with
  | nil => rfl
  | cons first _ ih => rw [List.flatMap_cons, List.flatMap_cons, first, ih]

theorem gives_entries {f : α → Render (List Text)} {text : α → List CodePoint} {as : List α}
    (each : ∀ a ∈ as, Writes level (f a) (text a)) :
    Gives level (as.mapM f) (fun entries => entries.flatten.flatMap lineEnd = as.flatMap text) := by
  intro l isAt
  obtain ⟨entries, ran, written⟩ := gives_mapM each l isAt
  have joined : entries.flatten.flatMap lineEnd = entries.flatMap (·.flatMap lineEnd) := by
    rw [← List.flatMap_id, List.flatMap_assoc]
    rfl
  exact ⟨entries, ran, joined.trans (flatMap_of_forall₂ written)⟩

end Render

namespace Fragment

open Render

/-! ### The text in closed form -/

def paramText (p : AbiParam) : List CodePoint :=
  lineText 3 ("\x7b name: " ++ Text.quote p.name.label ++ ", type: ABIDataTypes." ++ p.type.tag ++
    " \x7d,")

def paramsText (key : Text) (params : List AbiParam) : List CodePoint :=
  if params = [] then lineText 2 (key ++ ": [],")
  else lineText 2 (key ++ ": [") ++ (params.flatMap paramText ++ lineText 2 "],")

def flagText (name : Text) (isSet : Bool) : List CodePoint :=
  if isSet then lineText 2 (name ++ ": true,") else []

def nameText (name : Name) : List CodePoint :=
  lineText 2 ("name: " ++ Text.quote name.label ++ ",")

def entryText (body : List CodePoint) : List CodePoint :=
  lineText 1 "\x7b" ++ body ++ lineText 1 "\x7d,"

/-- From the inputs of a function on. -/
def signatureText (f : FunctionEntry) : List CodePoint :=
  paramsText "inputs" f.inputs ++
    (paramsText "outputs" f.outputs ++ lineText 2 "type: BitcoinAbiTypes.Function,")

def functionText (f : FunctionEntry) : List CodePoint :=
  entryText (nameText f.name ++ (flagText "constant" f.isView ++ (flagText "payable" f.isPayable ++
    signatureText f)))

def eventText (e : EventEntry) : List CodePoint :=
  entryText (nameText e.name ++ (paramsText "values" e.values ++
    lineText 2 "type: BitcoinAbiTypes.Event,"))

def headText (owner : Text) : List CodePoint :=
  lineText 0 ("import \x7b ABIDataTypes, BitcoinAbiTypes, " ++ baseAbi ++ " \x7d from '" ++
    contractModule ++ "';") ++ lineText 0 "" ++
    lineText 0 ("export const " ++ (owner ++ "Events") ++ " = [")

/-- Between events and functions. -/
def middleText (owner : Text) : List CodePoint :=
  lineText 0 "];" ++ (lineText 0 "" ++ lineText 0 ("export const " ++ (owner ++ "Abi") ++ " = ["))

def endText (owner : Text) : List CodePoint :=
  lineText 1 ("..." ++ (owner ++ "Events" ++ ",")) ++ (lineText 1 ("..." ++ baseAbi ++ ",") ++
    lineText 0 "];" ++ lineText 0 "" ++ lineText 0 ("export default " ++ (owner ++ "Abi") ++ ";"))

def constantsText (owner : Text) (abi : Abi) : List CodePoint :=
  headText owner ++ ((abi.events.flatMap eventText ++ middleText owner) ++
    (abi.functions.flatMap functionText ++ endText owner))

theorem gives_quoted {level : Nat} {name : Name} (textual : name.text?.isSome = true) :
    Gives level (quoted name) (· = Text.quote name.label) := by
  cases name with
  | str s => exact gives_pure rfl
  | _ => cases textual

theorem gives_constantParam {p : AbiParam} (textual : p.isTextual = true) :
    Gives 3 (constantParam p) (fun written => lineEnd written = paramText p) := by
  refine gives_bind (gives_quoted textual) fun name quoted => ?_
  subst quoted
  exact gives_line (append_ne_empty (by decide))

theorem gives_constantName {name : Name} (textual : name.text?.isSome = true) :
    Gives 2 (constantName name) (fun written => lineEnd written = nameText name) := by
  refine gives_bind (gives_quoted textual) fun text quoted => ?_
  subst quoted
  exact gives_line (append_ne_empty (by decide))

theorem writes_constantParams (key : Text) {params : List AbiParam}
    (textual : params.all AbiParam.isTextual = true) :
    Writes 2 (constantParams key params) (paramsText key params) := by
  unfold constantParams paramsText
  split
  · refine gives_bind (gives_line (append_ne_empty (by decide))) fun line written => ?_
    exact gives_pure (by simp [written])
  · refine gives_bind (gives_line (append_ne_empty (by decide))) fun first opened => ?_
    have each := List.all_eq_true.mp textual
    refine gives_bind (gives_nested (gives_mapM fun p own => gives_constantParam (each p own)))
      fun body written => ?_
    refine gives_bind (gives_line (by decide)) fun last closed => ?_
    have listed : body.flatMap lineEnd = params.flatMap paramText := flatMap_of_forall₂ written
    exact gives_pure (by simp [opened, closed, listed])

theorem writes_constantFlag (name : Text) (isSet : Bool) :
    Writes 2 (constantFlag name isSet) (flagText name isSet) := by
  unfold constantFlag flagText
  split
  · refine gives_bind (gives_line (append_ne_empty (by decide))) fun line written => ?_
    exact gives_pure (by simp [written])
  · exact gives_pure rfl

theorem writes_constantEntry {body : Render (List Text)} {text : List CodePoint}
    (inside : Writes 2 body text) : Writes 1 (constantEntry body) (entryText text) := by
  refine gives_bind (gives_line (by decide)) fun first opened => ?_
  refine gives_bind (gives_nested inside) fun lines written => ?_
  refine gives_bind (gives_line (by decide)) fun last closed => ?_
  exact gives_pure (by simp [opened, closed, written, entryText])

theorem writes_constantFunction {f : FunctionEntry} (textual : f.isTextual = true) :
    Writes 1 (constantFunction f) (functionText f) := by
  obtain ⟨names, outputsTextual⟩ := Bool.and_eq_true_iff.mp textual
  obtain ⟨nameTextual, inputsTextual⟩ := Bool.and_eq_true_iff.mp names
  apply writes_constantEntry
  refine gives_bind (gives_constantName nameTextual) fun name named => ?_
  refine gives_bind (writes_constantFlag _ _) fun view viewed => ?_
  refine gives_bind (writes_constantFlag _ _) fun payable paid => ?_
  refine gives_bind (writes_constantParams _ inputsTextual) fun inputs given => ?_
  refine gives_bind (writes_constantParams _ outputsTextual) fun outputs returned => ?_
  refine gives_bind (gives_line (by decide)) fun type typed => ?_
  exact gives_pure (by simp [signatureText, named, viewed, paid, given, returned, typed])

theorem writes_constantEvent {e : EventEntry} (textual : e.isTextual = true) :
    Writes 1 (constantEvent e) (eventText e) := by
  obtain ⟨nameTextual, valuesTextual⟩ := Bool.and_eq_true_iff.mp textual
  apply writes_constantEntry
  refine gives_bind (gives_constantName nameTextual) fun name named => ?_
  refine gives_bind (writes_constantParams _ valuesTextual) fun values given => ?_
  refine gives_bind (gives_line (by decide)) fun type typed => ?_
  exact gives_pure (by simp [named, given, typed])

theorem toList_constants (owner : Text) {abi : Abi} (textual : abi.isTextual = true) {l : Layout}
    (unit : l.indentUnit = "    ") :
    ((constants owner abi).run.run l).1.map Text.toList = .ok (constantsText owner abi) := by
  obtain ⟨functionsTextual, eventsTextual⟩ := Bool.and_eq_true_iff.mp textual
  have eachFunction := List.all_eq_true.mp functionsTextual
  have eachEvent := List.all_eq_true.mp eventsTextual
  suffices given : ∃ text, (constants owner abi).run.run l = (.ok text, l.reset) ∧
      text.toList = constantsText owner abi by
    obtain ⟨text, ran, same⟩ := given
    rw [ran, ← same]
    rfl
  unfold constants
  rw [run_bind_ok (run_startClass l)]
  refine (?_ : Gives 0 _ (fun text : Text => text.toList = _)) l.reset ⟨rfl, unit⟩
  refine gives_bind (gives_nested (gives_entries fun e own => writes_constantEvent (eachEvent e own)))
    fun events listed => ?_
  have exports : Writes 1 (do
      let entries ← abi.functions.mapM constantFunction
      let ownEvents ← line ("..." ++ (owner ++ "Events") ++ ",")
      let base ← line ("..." ++ baseAbi ++ ",")
      return entries.flatten ++ [ownEvents, base])
      (abi.functions.flatMap functionText ++ lineText 1 ("..." ++ (owner ++ "Events") ++ ",") ++
        lineText 1 ("..." ++ baseAbi ++ ",")) := by
    refine gives_bind (gives_entries fun f own => writes_constantFunction (eachFunction f own))
      fun entries written => ?_
    refine gives_bind (gives_line (append_ne_empty (by decide))) fun own first => ?_
    refine gives_bind (gives_line (by decide)) fun base second => ?_
    exact gives_pure (by simp [written, first, second])
  refine gives_bind (gives_nested exports) fun functions exported => gives_pure ?_
  rw [toList_joinLines (by simp)]
  simp [listed, exported, constantsText, headText, middleText, endText, lineEnd, lineText, lineHead,
    Text.append_assoc]

/-! ### What the text tells -/

def paramFact (p : AbiParam) : Text × AbiType :=
  (p.name.label, p.type)

def functionFact (f : FunctionEntry) :
    Text × Bool × Bool × List (Text × AbiType) × List (Text × AbiType) :=
  (f.name.label, f.isView, f.isPayable, f.inputs.map paramFact, f.outputs.map paramFact)

def eventFact (e : EventEntry) : Text × List (Text × AbiType) :=
  (e.name.label, e.values.map paramFact)

theorem tells_nameText : Tells nameText Json.label := by
  have tells := ((Text.tells_quoted Json.label).behind (Text.toList "," ++ [.char '\n'])).before
    (lineHead 2 "name: " ++ [.char '\''])
  exact tells.of_eq fun name => lineText_quote 2 "name: " name.label ","

theorem paramText_eq (p : AbiParam) :
    paramText p = (lineHead 3 "\x7b name: " ++ [.char '\'']) ++
      ((Text.escapeQuoted p.name.label.toList ++ [.char '\'']) ++
        (Text.toList ", type: ABIDataTypes." ++ (p.type.tag.toList ++
          (Text.toList " \x7d," ++ [.char '\n'])))) := by
  -- The literals are generalised, or rewriting would evaluate them.
  have tail (b t c : Text) : (b ++ (t ++ c)).toList ++ [.char '\n'] =
      b.toList ++ (t.toList ++ (c.toList ++ [.char '\n'])) := by simp
  rw [paramText, Text.append_assoc, Text.append_assoc, lineText_quote, tail]

theorem tells_paramText : Tells paramText paramFact := by
  have tag : Tells (fun t : AbiType => t.tag.toList ++ (Text.toList " \x7d," ++ [.char '\n'])) id :=
    AbiType.tells_tag (by decide)
  have tells := ((Text.tells_quoted fun p : AbiParam => p.name.label).append
    ((tag.comp AbiParam.type).before (Text.toList ", type: ABIDataTypes."))).before
      (lineHead 3 "\x7b name: " ++ [.char '\''])
  exact tells.of_eq paramText_eq

theorem begins_paramsText (key : Text) (params : List AbiParam) :
    lineHead 2 key <+: paramsText key params := by
  unfold paramsText
  split
  · exact begins_lineText 2 key ": [],"
  · exact (begins_lineText 2 key ": [").trans (List.prefix_append _ _)

theorem tells_paramsText (key : Text) : Tells (paramsText key) (List.map paramFact) := by
  have listed : Tells (fun ps => ps.flatMap paramText ++ lineText 2 "],") (List.map paramFact) := by
    apply tells_paramText.list
    intro p
    have begins : lineHead 3 "\x7b name: " ++ [.char '\''] <+: paramText p :=
      paramText_eq p ▸ List.prefix_append _ _
    exact Apart.append_ne (by decide) begins List.prefix_rfl
  -- An empty list goes on with a bracket where any other one goes on with a line feed.
  have apart : Apart (lineText 2 (key ++ ": [],")) (lineText 2 (key ++ ": [")) := by
    unfold Apart
    simp only [lineText_append, List.prefix_append_right_inj]
    decide
  intro ps qs x y same
  unfold paramsText at same
  by_cases none : ps = [] <;> by_cases none' : qs = []
  · subst none none'
    exact ⟨rfl, List.append_cancel_left same⟩
  · rw [if_pos none, if_neg none'] at same
    exact absurd same (apart.append_ne List.prefix_rfl (List.prefix_append _ _) x y)
  · rw [if_neg none, if_pos none'] at same
    exact absurd same.symm (apart.append_ne List.prefix_rfl (List.prefix_append _ _) y x)
  · rw [if_neg none, if_neg none'] at same
    exact listed.before _ ps qs x y same

theorem tells_entryText {α β : Type} {f : α → List CodePoint} {u : α → β} (tells : Tells f u) :
    Tells (fun a => entryText (f a)) u :=
  (tells.before _).behind _

theorem begins_entryText (body : List CodePoint) : lineText 1 "\x7b" <+: entryText body :=
  (List.prefix_append _ _).trans (List.prefix_append _ _)

theorem tells_signatureText :
    Tells signatureText (fun f => (f.inputs.map paramFact, f.outputs.map paramFact)) :=
  ((tells_paramsText "inputs").comp FunctionEntry.inputs).append
    (((tells_paramsText "outputs").comp FunctionEntry.outputs).behind _)

theorem begins_signatureText (f : FunctionEntry) : lineHead 2 "inputs" <+: signatureText f :=
  (begins_paramsText "inputs" f.inputs).trans (List.prefix_append _ _)

theorem tells_functionText : Tells functionText functionFact := by
  have paid : Tells (fun f : FunctionEntry => flagText "payable" f.isPayable ++ signatureText f)
      (fun f => (f.isPayable, f.inputs.map paramFact, f.outputs.map paramFact)) := by
    apply tells_signatureText.option
    exact fun f => Apart.append_ne (by decide) List.prefix_rfl (begins_signatureText f)
  have viewed : Tells (fun f : FunctionEntry => flagText "constant" f.isView ++
      (flagText "payable" f.isPayable ++ signatureText f))
      (fun f => (f.isView, f.isPayable, f.inputs.map paramFact, f.outputs.map paramFact)) := by
    apply paid.option
    intro f
    cases f.isPayable with
    | true => exact Apart.append_ne (by decide) List.prefix_rfl (List.prefix_append _ _)
    | false => exact Apart.append_ne (by decide) List.prefix_rfl (begins_signatureText f)
  exact tells_entryText ((tells_nameText.comp FunctionEntry.name).append viewed)

theorem tells_eventText : Tells eventText eventFact :=
  tells_entryText ((tells_nameText.comp EventEntry.name).append
    (((tells_paramsText "values").comp EventEntry.values).behind _))

theorem constants_tell (owner : Text) :
    Tells (constantsText owner)
      (fun abi => (abi.events.map eventFact, abi.functions.map functionFact)) := by
  have events : Tells (fun es => es.flatMap eventText ++ middleText owner) (List.map eventFact) := by
    apply tells_eventText.list
    intro e
    have closed : lineText 0 "];" <+: middleText owner := List.prefix_append _ _
    exact Apart.append_ne (by decide) (begins_entryText _) closed
  have functions :
      Tells (fun fs => fs.flatMap functionText ++ endText owner) (List.map functionFact) := by
    apply tells_functionText.list
    intro f
    have spread : lineHead 1 "..." <+: endText owner :=
      (begins_lineText 1 "..." _).trans (List.prefix_append _ _)
    exact Apart.append_ne (by decide) (begins_entryText _) spread
  exact ((events.comp Abi.events).append (functions.comp Abi.functions)).before (headText owner)

/-! ### From labels to names -/

theorem str_label {name : Name} (textual : name.text?.isSome = true) : .str name.label = name := by
  cases name with
  | str s => rfl
  | _ => cases textual

def ofParamFact (fact : Text × AbiType) : AbiParam :=
  ⟨.str fact.1, fact.2⟩

def ofEventFact (fact : Text × List (Text × AbiType)) : EventEntry :=
  ⟨.str fact.1, fact.2.map ofParamFact⟩

/-- Name, view, payable, inputs and outputs. -/
def described (f : FunctionEntry) : Name × Bool × Bool × List AbiParam × List AbiParam :=
  (f.name, f.isView, f.isPayable, f.inputs, f.outputs)

def ofFunctionFact
    (fact : Text × Bool × Bool × List (Text × AbiType) × List (Text × AbiType)) :
    Name × Bool × Bool × List AbiParam × List AbiParam :=
  (.str fact.1, fact.2.1, fact.2.2.1, fact.2.2.2.1.map ofParamFact, fact.2.2.2.2.map ofParamFact)

theorem map_ofParamFact {ps : List AbiParam} (textual : ps.all AbiParam.isTextual = true) :
    (ps.map paramFact).map ofParamFact = ps := by
  rw [List.map_map, List.map_congr_left, List.map_id]
  intro p member
  have name : .str p.name.label = p.name := str_label (List.all_eq_true.mp textual p member)
  rw [Function.comp_apply, paramFact, ofParamFact, name, id]

theorem map_ofEventFact {es : List EventEntry} (textual : es.all EventEntry.isTextual = true) :
    (es.map eventFact).map ofEventFact = es := by
  rw [List.map_map, List.map_congr_left, List.map_id]
  intro e member
  obtain ⟨name, values⟩ := Bool.and_eq_true_iff.mp (List.all_eq_true.mp textual e member)
  rw [Function.comp_apply, eventFact, ofEventFact, str_label name, map_ofParamFact values, id]

theorem map_ofFunctionFact {fs : List FunctionEntry}
    (textual : fs.all FunctionEntry.isTextual = true) :
    (fs.map functionFact).map ofFunctionFact = fs.map described := by
  rw [List.map_map]
  refine List.map_congr_left fun f member => ?_
  obtain ⟨names, outputs⟩ := Bool.and_eq_true_iff.mp (List.all_eq_true.mp textual f member)
  obtain ⟨name, inputs⟩ := Bool.and_eq_true_iff.mp names
  rw [Function.comp_apply, functionFact, ofFunctionFact, str_label name, map_ofParamFact inputs,
    map_ofParamFact outputs, described]

/-- ABIs with the same constants have the same events and functions, whatever their names are made
of. -/
theorem constants_are_lossless (owner : Text) {a b : Abi} {l l' : Layout}
    (unit : l.indentUnit = "    ") (unit' : l'.indentUnit = "    ") (ha : a.isTextual = true)
    (hb : b.isTextual = true)
    (same : ((constants owner a).run.run l).1 = ((constants owner b).run.run l').1) :
    a.events = b.events ∧ a.functions.map described = b.functions.map described := by
  have texts : constantsText owner a = constantsText owner b := by
    apply Except.ok.inj
    rw [← toList_constants owner ha unit, same, toList_constants owner hb unit']
  obtain ⟨facts, -⟩ := constants_tell owner a b [] [] (by rw [texts])
  obtain ⟨events, functions⟩ := Prod.mk.inj facts
  obtain ⟨functionsA, eventsA⟩ := Bool.and_eq_true_iff.mp ha
  obtain ⟨functionsB, eventsB⟩ := Bool.and_eq_true_iff.mp hb
  constructor
  · rw [← map_ofEventFact eventsA, events, map_ofEventFact eventsB]
  · rw [← map_ofFunctionFact functionsA, functions, map_ofFunctionFact functionsB]

/-- A function that is called like the code around it, and an event without values. -/
def jester (isOwnerOnly : Bool) : Abi where
  functions := [{
    name := .str "x',\n        payable: true,\n        inputs: [],", isView := false
    isPayable := true, isOwnerOnly := isOwnerOnly, inputs := [⟨.str "\\'", .uint256Array⟩]
    outputs := [], call := ⟨"x(uint256[])", "6e8f1304"⟩, declared := .str "x", emits := [] }]
  events := [⟨.str "],\n", []⟩]

/-- Who may call a function is not shown. -/
theorem constants_of_jester :
    ((constants "Jester" (jester true)).run.run {}).1 =
        ((constants "Jester" (jester false)).run.run {}).1 ∧
      (jester true).events = (jester false).events ∧
        (jester true).functions.map described = (jester false).functions.map described := by
  have same : ((constants "Jester" (jester true)).run.run {}).1 =
      ((constants "Jester" (jester false)).run.run {}).1 := rfl
  exact ⟨same, constants_are_lossless "Jester" rfl rfl (by decide) (by decide) same⟩

end Fragment

end ContractAbi
