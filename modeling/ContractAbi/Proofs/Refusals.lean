import ContractAbi.CommandLine.Run
import ContractAbi.Proofs.Format

/-!
# Refused dumps

A dump that is refused is reported under the name of its file, unless the first thing wrong with it
is a number, a truth value or null in the place of a list: `load_eq_notIterable`.
-/

namespace ContractAbi

namespace Dump

/-! ### Scalars in the place of lists -/

/-- A number, a truth value or null. -/
def IsScalar : Json → Prop
  | .null | .bool _ | .int _ | .real _ => True
  | _ => False

/-- A scalar is given as a list, or the first element that is not as required has one inside. -/
def ListStrays (Good Strays : Json → Prop) (v : Json) : Prop :=
  IsScalar v ∨ ∃ before u after, v = .arr (before ++ u :: after) ∧ (∀ w ∈ before, Good w) ∧ Strays u

/-- A scalar that says something is given as a list of decorators. -/
def DecoratorsStray (v : Json) : Prop :=
  v.isTruthy = true ∧ IsScalar v

structure MemberStrays (v : Json) : Prop where
  kind : HasKey v "kind"
  name : HasKey v "name"
  decorators : DecoratorsStray (optional v "decorators" (.arr []))

/-- The members come before the decorators. -/
structure ClassStrays (v : Json) : Prop where
  name : HasKey v "name"
  parts : ListStrays IsMember MemberStrays (optional v "members" (.arr [])) ∨
    IsListOf IsMember (optional v "members" (.arr [])) ∧
      DecoratorsStray (optional v "decorators" (.arr []))

structure SourceStrays (v : Json) : Prop where
  path : HasKey v "path"
  classes : ListStrays IsClass ClassStrays (optional v "classes" (.arr []))

/-- Everything before the first scalar that is given as a list is as it should be. -/
def DumpStrays (v : Json) : Prop :=
  ∃ sources, v.member? "sources" = some sources ∧ ListStrays IsSource SourceStrays sources

/-! ### What stops at a scalar -/

theorem require_ne_notIterable {v : Json} {key place : Text} :
    require v key place ≠ .error .notIterable := by
  unfold require
  cases v.member? key <;> simp

theorem items_eq_notIterable {v : Json} : items v = .error .notIterable ↔ IsScalar v := by
  cases v <;> simp [items, IsScalar]

theorem items_mapM_strays {β : Type} {f : Json → Except Fault β} {Good Strays : Json → Prop}
    (completes : ∀ v, (∃ y, f v = .ok y) ↔ Good v)
    (stops : ∀ v, f v = .error .notIterable ↔ Strays v) (noText : ∀ s, ¬ Strays (.str s))
    (v : Json) :
    (items v = .error .notIterable ∨ ∃ vs, items v = .ok vs ∧ vs.mapM f = .error .notIterable) ↔
      ListStrays Good Strays v := by
  simp only [mapM_eq_error, completes, stops, items_eq_notIterable]
  refine or_congr_right ⟨?_, ?_⟩
  · rintro ⟨vs, given, before, u, after, rfl, good, strays⟩
    refine ⟨before, u, after, ?_, good, strays⟩
    rcases items_cases v with ⟨elements, rfl⟩ | ⟨texts, same, -⟩ | ⟨refused, -⟩
    · cases given
      rfl
    · -- Nothing strays inside a text.
      rw [same, Except.ok.injEq] at given
      have member : u ∈ texts.map Json.str := by simp [given]
      obtain ⟨s, -, rfl⟩ := List.mem_map.mp member
      exact absurd strays (noText s)
    · rw [refused] at given
      cases given
  · rintro ⟨before, u, after, rfl, good, strays⟩
    exact ⟨_, rfl, before, u, after, rfl, good, strays⟩

theorem loadDecorators_eq_notIterable (place : Text) (v : Json) :
    loadDecorators place v = .error .notIterable ↔ DecoratorsStray v := by
  have never (v : Json) : loadDecorator place v = .error .notIterable ↔ False := by
    unfold loadDecorator
    simp only [bind_eq_error, require_ne_notIterable, false_or, iff_false]
    rintro ⟨name, -, made⟩
    split at made <;> cases made
  have each := items_mapM_strays (loadDecorator_completes place) never (fun _ => id) v
  unfold loadDecorators DecoratorsStray
  cases v.isTruthy with
  | false => simp [pure, Except.pure]
  | true => simpa [bind_eq_error, ListStrays] using each

theorem loadMember_eq_notIterable (place : Text) (v : Json) :
    loadMember place v = .error .notIterable ↔ MemberStrays v := by
  unfold loadMember
  simp only [bind_eq_error, require_ne_notIterable, false_or, require_eq_ok,
    loadDecorators_eq_notIterable]
  constructor
  · rintro ⟨kind, kinded, name, named, strays | ⟨ds, -, made⟩⟩
    · exact ⟨⟨kind, kinded⟩, ⟨name, named⟩, strays⟩
    · split_ifs at made <;> cases made
  · rintro ⟨⟨kind, kinded⟩, ⟨name, named⟩, strays⟩
    exact ⟨kind, kinded, name, named, Or.inl strays⟩

theorem loadClass_eq_notIterable (place : Text) (v : Json) :
    loadClass place v = .error .notIterable ↔ ClassStrays v := by
  have each (place : Text) := items_mapM_strays (loadMember_completes place)
    (loadMember_eq_notIterable place) (fun s strays => not_hasKey_str _ s strays.name)
    (optional v "members" (.arr []))
  have all (place : Text) := items_mapM_completes (loadMember_completes place)
    (fun s member => not_hasKey_str _ s member.name) (optional v "members" (.arr []))
  unfold loadClass
  simp only [bind_eq_error, require_ne_notIterable, false_or, require_eq_ok,
    loadDecorators_eq_notIterable]
  constructor
  · rintro ⟨name, named, refused | ⟨vs, given, stopped | ⟨members, loaded, strays | ⟨ds, -, made⟩⟩⟩⟩
    · exact ⟨⟨name, named⟩, Or.inl (Or.inl (items_eq_notIterable.mp refused))⟩
    · exact ⟨⟨name, named⟩, Or.inl ((each _).mp (Or.inr ⟨vs, given, stopped⟩))⟩
    · exact ⟨⟨name, named⟩, Or.inr ⟨(all _).mp ⟨vs, given, members, loaded⟩, strays⟩⟩
    · cases made
  · rintro ⟨⟨name, named⟩, strays | ⟨members, strays⟩⟩
    · refine ⟨name, named, ?_⟩
      rcases (each _).mpr strays with refused | ⟨vs, given, stopped⟩
      · exact Or.inl refused
      · exact Or.inr ⟨vs, given, Or.inl stopped⟩
    · obtain ⟨vs, given, members, loaded⟩ := (all _).mpr members
      exact ⟨name, named, Or.inr ⟨vs, given, Or.inr ⟨members, loaded, Or.inl strays⟩⟩⟩

theorem loadSource_eq_notIterable (v : Json) :
    loadSource v = .error .notIterable ↔ SourceStrays v := by
  have each (place : Text) := items_mapM_strays (loadClass_completes place)
    (loadClass_eq_notIterable place) (fun s strays => not_hasKey_str _ s strays.name)
    (optional v "classes" (.arr []))
  unfold loadSource
  simp only [bind_eq_error, require_ne_notIterable, false_or, require_eq_ok]
  constructor
  · rintro ⟨path, found, refused | ⟨vs, given, stopped | ⟨classes, -, made⟩⟩⟩
    · exact ⟨⟨path, found⟩, Or.inl (items_eq_notIterable.mp refused)⟩
    · exact ⟨⟨path, found⟩, (each _).mp (Or.inr ⟨vs, given, stopped⟩)⟩
    · cases made
  · rintro ⟨⟨path, found⟩, strays⟩
    refine ⟨path, found, ?_⟩
    rcases (each _).mpr strays with refused | ⟨vs, given, stopped⟩
    · exact Or.inl refused
    · exact Or.inr ⟨vs, given, Or.inl stopped⟩

theorem load_eq_notIterable (v : Json) : load v = .error .notIterable ↔ DumpStrays v := by
  have each := items_mapM_strays loadSource_completes loadSource_eq_notIterable
    (fun s strays => not_hasKey_str _ s strays.path)
  unfold load DumpStrays
  simp only [bind_eq_error, require_ne_notIterable, false_or, require_eq_ok, ← each]

end Dump

namespace CommandLine

/-! ### Reports -/

/-- The value that the text of a file stands for. -/
def readText (text : Text) : Except Json.ParseError Json :=
  Json.parse (Text.ofList (normalizeNewlines text.toList))

/-- The reader gives up on the text, or a scalar stands in it where a list is due. -/
def Unreported (text : Text) : Prop :=
  (∃ e, readText text = .error e ∧ (e.cause = .tooDeep ∨ e.cause = .longNumber)) ∨
    ∃ v, readText text = .ok v ∧ Dump.DumpStrays v

theorem parseDump_eq (text : Text) :
    parseDump text = match readText text with
      | .error e => .error (.notJson e)
      | .ok (.obj members) => (Dump.load (.obj members)).mapError .malformed
      | .ok _ => .error .notObject :=
  rfl

/-- Either the text cannot be read, or it stands for something other than an object, or what it
stands for is loaded. -/
theorem parseDump_cases (text : Text) :
    (∃ e, readText text = .error e ∧ parseDump text = .error (.notJson e)) ∨
      (∃ v, readText text = .ok v ∧ (∀ key, v.member? key = none) ∧
        parseDump text = .error .notObject) ∨
      ∃ v, readText text = .ok v ∧ parseDump text = (Dump.load v).mapError .malformed := by
  rw [parseDump_eq]
  cases readText text with
  | error e => exact Or.inl ⟨e, rfl, rfl⟩
  | ok v =>
    cases v with
    | obj members => exact Or.inr (Or.inr ⟨_, rfl, rfl⟩)
    | _ => exact Or.inr (Or.inl ⟨_, rfl, fun _ => rfl, rfl⟩)

theorem loadFile_eq_parseDump {d : Directory} {path text : Text} (read : d.read path = .ok text) :
    loadFile d path = parseDump text := by
  unfold loadFile
  rw [read]

theorem parseDump_completes (text : Text) :
    (∃ sources, parseDump text = .ok sources) ↔ ∃ v, readText text = .ok v ∧ Dump.IsDump v := by
  rcases parseDump_cases text with
    ⟨e, read, parsed⟩ | ⟨v, read, keyless, parsed⟩ | ⟨v, read, parsed⟩
  · simp [read, parsed]
  · simp [read, parsed, Dump.IsDump, keyless]
  · simp [read, parsed, mapError_eq_ok, Dump.load_completes]

theorem ne_empty_of_read {d : Directory} {path text : Text} (read : d.read path = .ok text) :
    path ≠ "" := by
  rintro rfl
  have missing : d.read "" = .error .missing := rfl
  rw [missing] at read
  cases read

theorem not_unreported_of_ok {text : Text} {sources : List Dump.Source}
    (parsed : parseDump text = .ok sources) : ¬ Unreported text := by
  obtain ⟨v, read, accepted⟩ := (parseDump_completes text).mp ⟨sources, parsed⟩
  obtain ⟨dump, loaded⟩ := (Dump.load_completes v).mpr accepted
  rintro (⟨e, refused, -⟩ | ⟨u, same, strays⟩)
  · rw [read] at refused
    cases refused
  · rw [read] at same
    cases same
    rw [(Dump.load_eq_notIterable v).mpr strays] at loaded
    cases loaded

/-- The command ends with a message that starts with the name of the file. -/
def IsReported (path : Text) (fault : DumpFault) : Prop :=
  dumpFailure path fault = failure (path ++ ": " ++ fault.message path)

/-- The command ends without a message. -/
def Escapes (path : Text) (fault : DumpFault) : Prop :=
  ∃ crash, dumpFailure path fault = { exit := .error crash }

theorem IsReported.not_escapes {path : Text} {fault : DumpFault}
    (reported : IsReported path fault) : ¬ Escapes path fault := by
  rintro ⟨crash, escaped⟩
  cases congrArg Report.exit (reported.symm.trans escaped)

section Named

variable {path : Text} (named : path ≠ "")

include named

theorem isReported_notObject : IsReported path .notObject :=
  by simp only [IsReported, dumpFailure, if_neg named]

theorem malformed_cases (fault : Dump.Fault) :
    fault = .notIterable ∧ Escapes path (.malformed fault) ∨
      fault ≠ .notIterable ∧ IsReported path (.malformed fault) := by
  cases fault with
  | notIterable => exact Or.inl ⟨rfl, _, rfl⟩
  | _ => exact Or.inr ⟨nofun, by simp only [IsReported, dumpFailure, if_neg named]⟩

theorem notJson_cases (e : Json.ParseError) :
    (e.cause = .tooDeep ∨ e.cause = .longNumber) ∧ Escapes path (.notJson e) ∨
      ¬ (e.cause = .tooDeep ∨ e.cause = .longNumber) ∧ IsReported path (.notJson e) := by
  obtain ⟨cause, position, line, column⟩ := e
  cases cause with
  | tooDeep => exact Or.inl ⟨Or.inl rfl, _, rfl⟩
  | longNumber => exact Or.inl ⟨Or.inr rfl, _, rfl⟩
  | _ => exact Or.inr ⟨by simp, by simp only [IsReported, dumpFailure, if_neg named]⟩

/-- A fault in a text escapes if and only if the text is unreported. -/
theorem parseDump_fault {text : Text} {fault : DumpFault}
    (parsed : parseDump text = .error fault) :
    Unreported text ∧ Escapes path fault ∨ ¬ Unreported text ∧ IsReported path fault := by
  unfold Unreported
  rcases parseDump_cases text with ⟨e, read, same⟩ | ⟨v, read, keyless, same⟩ | ⟨v, read, same⟩
  · rw [same] at parsed
    cases parsed
    simpa [read] using notJson_cases named e
  · rw [same] at parsed
    cases parsed
    simpa [read, Dump.DumpStrays, keyless] using isReported_notObject named
  · rw [same, mapError_eq_error] at parsed
    obtain ⟨refusal, refused, rfl⟩ := parsed
    have strays : Dump.DumpStrays v ↔ refusal = .notIterable := by
      rw [← Dump.load_eq_notIterable, refused, Except.error.injEq]
    simpa [read, strays] using malformed_cases named refusal

end Named

/-- A file that can be read holds a dump, or it is refused. A refusal is reported under the name of
the file, except where a scalar stands in the place of a list and all that comes before it is as it
should be, and where the reader gives up. -/
theorem refusal_escapes_iff_unreported {d : Directory} {path text : Text}
    (read : d.read path = .ok text) :
    ((∃ sources, loadFile d path = .ok sources) ↔ ∃ v, readText text = .ok v ∧ Dump.IsDump v) ∧
      ((∃ fault, loadFile d path = .error fault ∧ Escapes path fault) ↔ Unreported text) ∧
      ∀ fault, loadFile d path = .error fault → ¬ Unreported text → IsReported path fault := by
  have named := ne_empty_of_read read
  rw [loadFile_eq_parseDump read]
  refine ⟨parseDump_completes text, ⟨?_, ?_⟩, ?_⟩
  · rintro ⟨fault, parsed, escapes⟩
    rcases parseDump_fault named parsed with ⟨unreported, -⟩ | ⟨-, reported⟩
    · exact unreported
    · exact absurd escapes reported.not_escapes
  · intro unreported
    cases parsed : parseDump text with
    | error fault =>
      rcases parseDump_fault named parsed with ⟨-, escapes⟩ | ⟨reported, -⟩
      · exact ⟨fault, rfl, escapes⟩
      · exact absurd unreported reported
    | ok sources => exact absurd unreported (not_unreported_of_ok parsed)
  · intro fault parsed reported
    rcases parseDump_fault named parsed with ⟨unreported, -⟩ | ⟨-, reported⟩
    · exact absurd unreported reported
    · exact reported

/-- The second class has a number for its members. -/
def numbered : Json :=
  .obj [("sources", .arr [.obj [("path", .str "yard.ts"), ("classes", .arr [
    .obj [("name", .str "Gate")],
    .obj [("name", .str "Yard"), ("members", .int 7)]])]])]

def numberedText : Text :=
  "\x7b\"sources\":[\x7b\"path\":\"yard.ts\",\"classes\":[" ++
    "\x7b\"name\":\"Gate\"\x7d," ++
    "\x7b\"name\":\"Yard\",\"members\":7\x7d]\x7d]\x7d"

/-- The class has no name, and the number in it is not met. -/
def nameless : Json :=
  .obj [("sources", .arr [.obj [("path", .str "yard.ts"), ("classes", .arr [
    .obj [("members", .int 7)]])]])]

def namelessText : Text :=
  "\x7b\"sources\":[\x7b\"path\":\"yard.ts\",\"classes\":[\x7b\"members\":7\x7d]\x7d]\x7d"

def yard : Directory where
  files := .ofPairs [(["numbered.json"], numberedText), (["nameless.json"], namelessText)]

theorem numbered_strays : Dump.DumpStrays numbered := by
  have gate : Dump.IsClass (.obj [("name", .str "Gate")]) := ⟨⟨_, rfl⟩, nofun, nofun⟩
  have parts : Dump.ClassStrays (.obj [("name", .str "Yard"), ("members", .int 7)]) :=
    ⟨⟨_, rfl⟩, Or.inl (Or.inl trivial)⟩
  refine ⟨_, rfl, Or.inr ⟨[], _, [], rfl, nofun, ⟨_, rfl⟩, ?_⟩⟩
  exact Or.inr ⟨[_], _, [], rfl, by simpa using gate, parts⟩

theorem readText_namelessText : readText namelessText = .ok nameless := by decide +kernel

theorem nameless_reported : ¬ Unreported namelessText := by
  have refused : Dump.load nameless = .error (.missingKey "name" "yard.ts") := rfl
  rintro (⟨e, failed, -⟩ | ⟨v, same, strays⟩)
  · rw [readText_namelessText] at failed
    cases failed
  · rw [readText_namelessText] at same
    cases same
    rw [(Dump.load_eq_notIterable nameless).mpr strays] at refused
    cases refused

/-- The number in the place of a list escapes, and the missing name is reported. -/
theorem refusals_of_yard :
    yard.read "numbered.json" = .ok numberedText ∧
    (∃ fault, loadFile yard "numbered.json" = .error fault ∧ Escapes "numbered.json" fault) ∧
    yard.read "nameless.json" = .ok namelessText ∧
    ∃ fault, loadFile yard "nameless.json" = .error fault ∧ IsReported "nameless.json" fault := by
  have first : yard.read "numbered.json" = .ok numberedText := by decide +kernel
  have second : yard.read "nameless.json" = .ok namelessText := by decide +kernel
  have parsed : parseDump namelessText = .error (.malformed (.missingKey "name" "yard.ts")) := by
    rw [parseDump_eq, readText_namelessText]
    rfl
  have refused := (loadFile_eq_parseDump second).trans parsed
  obtain ⟨-, escapes, -⟩ := refusal_escapes_iff_unreported first
  obtain ⟨-, -, reported⟩ := refusal_escapes_iff_unreported second
  exact ⟨first, escapes.mpr (Or.inr ⟨numbered, by decide +kernel, numbered_strays⟩), second,
    _, refused, reported _ refused nameless_reported⟩

/-- A number in the place of the sources. -/
def strayText : Text :=
  "\x7b\"sources\": 5\x7d"

/-- The text is valid JSON, but the command ends without a message. -/
theorem number_for_sources_escapes :
    readText strayText = .ok (.obj [("sources", .int 5)]) ∧
    ∃ fault, loadFile { files := .ofPairs [(["dump.json"], strayText)] } "dump.json" =
        .error fault ∧
      ¬ IsReported "dump.json" fault ∧
      dumpFailure "dump.json" fault = { exit := .error .notIterable } := by
  have read : readText strayText = .ok (.obj [("sources", .int 5)]) := by decide +kernel
  have parsed : parseDump strayText = .error (.malformed .notIterable) := by
    rw [parseDump_eq, read]
    rfl
  have found : ({ files := .ofPairs [(["dump.json"], strayText)] } : Directory).read "dump.json" =
      .ok strayText := by
    decide +kernel
  have escapes : Escapes "dump.json" (.malformed .notIterable) := ⟨_, rfl⟩
  exact ⟨read, _, (loadFile_eq_parseDump found).trans parsed,
    fun reported => reported.not_escapes escapes, rfl⟩

end CommandLine

end ContractAbi
