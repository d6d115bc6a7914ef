import ContractAbi.CommandLine.Directory
import ContractAbi.CommandLine.Options
import ContractAbi.Declaration.Enroll
import ContractAbi.Json.Reader

/-!
# Running a command

Reads a dump, transforms it, and writes files or prints. A refused command line exits with 2, a
fault in the dump or in the transform with 1.
-/

namespace ContractAbi.CommandLine

/-- What ends a command before its time, with no message of its own. -/
inductive Crash where
  | notIterable
  | notText
  | compositeName
  | noCapital (name : Name)
  | unencodable
  | tooDeep
  | longNumber
  /-- An output option was given without a directory. -/
  | noDirectory
  | path (fault : PathFault)
deriving DecidableEq, Repr

structure Report where
  /-- The exit status. -/
  exit : Except Crash Nat
  stdout : Text := ""
  stderr : Text := ""

/-! ### Reading the dump -/

/-- Every line ends with a line feed alone. -/
def normalizeNewlines : List CodePoint → List CodePoint
  | '\r' :: '\n' :: cs => '\n' :: normalizeNewlines cs
  | '\r' :: cs => '\n' :: normalizeNewlines cs
  | c :: cs => c :: normalizeNewlines cs
  | [] => []

/-- Why there is no dump in a file. -/
inductive DumpFault where
  | unreadable (fault : PathFault)
  | notJson (error : Json.ParseError)
  | notObject
  | malformed (fault : Dump.Fault)
deriving Repr

def DumpFault.message (path : Text) : DumpFault → Text
  | unreadable fault => fault.message path
  | notJson error => "invalid JSON: " ++ error.message
  | notObject => "top level must be an object"
  | malformed fault => fault.message

/-- Sources from the text of a dump. -/
def parseDump (text : Text) : Except DumpFault (List Dump.Source) :=
  match Json.parse (Text.ofList (normalizeNewlines text.toList)) with
  | .error e => .error (.notJson e)
  | .ok (.obj members) => (Dump.load (.obj members)).mapError .malformed
  | .ok _ => .error .notObject

def loadFile (d : Directory) (path : Text) : Except DumpFault (List Dump.Source) :=
  match d.read path with
  | .error fault => .error (.unreadable fault)
  | .ok text => parseDump text

/-! ### Reports -/

def failure (message : Text) : Report :=
  { exit := .ok 1, stderr := "Error: " ++ message ++ "\n" }

/-- A fault in a file, which has the file's name in front unless that is empty. -/
def dumpFailure (path : Text) : DumpFault → Report
  | .malformed .notIterable => { exit := .error .notIterable }
  | .unreadable .embeddedNull => { exit := .error (.path .embeddedNull) }
  | .unreadable .unencodable => { exit := .error (.path .unencodable) }
  | .notJson ⟨.tooDeep, _, _, _⟩ => { exit := .error .tooDeep }
  | .notJson ⟨.longNumber, _, _, _⟩ => { exit := .error .longNumber }
  | fault =>
    failure (if path = "" then fault.message path else path ++ ": " ++ fault.message path)

def transformFailure : Fault → Report
  | .notText => { exit := .error .notText }
  | .compositeName => { exit := .error .compositeName }
  | .noCapital name => { exit := .error (.noCapital name) }
  | .unencodable => { exit := .error .unencodable }
  | fault => failure fault.message

/-- The manifest, and after it the routine of every class. -/
def listing (output : Output) : Text :=
  output.unitAbi.manifest ++ Text.join (output.routines.map fun (owner, text) =>
    "\n// " ++ owner.label ++ "\n" ++ text ++ "\n")

/-- Transforms sources as the options say, in the directory `d`. -/
def process (o : Options) (sources : List Dump.Source) (d : Directory) : Report × Directory :=
  match ({ settings := o.settings } : Transformer).run (.ofDump sources) none with
  | (_, _, .error fault) => (transformFailure fault, d)
  | (t, _, .ok (output, files)) =>
    let summary := Finding.report o.settings.verbose t.findings
    if o.toStdout then ({ exit := .ok 0, stdout := listing output, stderr := summary }, d)
    else
      let (d, written, fault) := d.writeAll files.entries
      let stdout := Text.join (written.map fun path => "Written: " ++ path ++ "\n")
      match fault with
      | some fault => ({ exit := .error (.path fault), stdout }, d)
      | none => ({ exit := .ok 0, stdout, stderr := summary }, d)

/-- Runs a command line in the directory `d`. -/
def run (words : List Text) (d : Directory) : Report × Directory :=
  match parse words with
  | .error fault =>
    ({ exit := .ok 2, stderr := usage ++ "abigen: error: " ++ fault.message ++ "\n" }, d)
  | .ok o =>
    if o.wantsHelp then ({ exit := .ok 0, stdout := help }, d)
    else if !o.hasDirectory then ({ exit := .error .noDirectory }, d)
    else
      let path := o.input.getD ""
      match loadFile d path with
      | .error fault => (dumpFailure path fault, d)
      | .ok sources => process o sources d

end ContractAbi.CommandLine
