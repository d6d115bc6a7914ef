import ContractAbi.Text.Digit
import ContractAbi.Text.Quoted
import ContractAbi.Transform

/-!
# Command-line options

Options and the input file may come in any order. A long option may be shortened as long as it is
clear which one is meant, and `--` ends the options.
-/

namespace ContractAbi.CommandLine

inductive Switch where
  | help
  | output
  | stdout
  | noTypescript
  | verbose
deriving DecidableEq, Repr

namespace Switch

def names : Switch → List Text
  | help => ["-h", "--help"]
  | output => ["-o", "--output"]
  | stdout => ["--stdout"]
  | noTypescript => ["--no-typescript"]
  | verbose => ["--verbose"]

/-- The switch as messages name it. -/
def title (s : Switch) : Text :=
  Text.intercalate "/" s.names

def takesValue (s : Switch) : Bool :=
  s = output

def all : List Switch :=
  [help, output, stdout, noTypescript, verbose]

/-- Every name with its switch. -/
def table : List (Text × Switch) :=
  all.flatMap fun s => s.names.map fun name => (name, s)

def ofName? (name : Text) : Option Switch :=
  table.lookup name

end Switch

/-- Why a command line is refused. -/
inductive UsageFault where
  | missingInput
  | unrecognized (words : List Text)
  | missingValue (switch : Switch)
  | unwantedValue (switch : Switch) (value : Text)
  | ambiguous (word : Text) (names : List Text)
deriving DecidableEq, Repr

def UsageFault.message : UsageFault → Text
  | missingInput => "the following arguments are required: input"
  | unrecognized words => "unrecognized arguments: " ++ Text.intercalate " " words
  | missingValue switch => "argument " ++ switch.title ++ ": expected one argument"
  | unwantedValue switch value =>
    "argument " ++ switch.title ++ ": ignored explicit argument " ++ Text.shown value
  | ambiguous word names =>
    "ambiguous option: " ++ word ++ " could match " ++ Text.intercalate ", " names

/-! ### Kinds of words -/

inductive Kind where
  | argument
  /-- The word that ends the options. -/
  | dashes
  /-- An option under a long or a short name, with the text given for it in the same word. -/
  | option (switch : Switch) (isLong : Bool) (given : Option (List CodePoint))
  /-- A word in the form of an option that is none. -/
  | unknown
deriving DecidableEq, Repr

/-- The word up to its first equals sign. -/
def nameOf (word : List CodePoint) : List CodePoint :=
  word.takeWhile (· ≠ CodePoint.char '=')

/-- What follows the first equals sign, if there is one. -/
def givenIn (word : List CodePoint) : Option (List CodePoint) :=
  match word.dropWhile (· ≠ CodePoint.char '=') with
  | [] => none
  | _ :: given => some given

/-- The options that the word may be short for, by name. -/
def candidates (word : List CodePoint) : List (Text × Kind) :=
  match word with
  | '-' :: '-' :: _ =>
    (Switch.table.filter fun (full, _) => (nameOf word).isPrefixOf full.toList).map
      fun (full, switch) => (full, .option switch true (givenIn word))
  | '-' :: c :: rest =>
    (Switch.table.filter fun (full, _) => full = .ofList ['-', c]).map
      fun (full, switch) => (full, .option switch false (some rest))
  | _ => []

/-- Digits up to the end of the text or a line feed that ends it. -/
def isDigitsOnly (cs : List CodePoint) : Bool :=
  cs.head?.any Text.isDecimalDigit &&
    (cs.dropWhile Text.isDecimalDigit = [] || cs.dropWhile Text.isDecimalDigit = [.char '\n'])

/-- `-7` and `-.5` are numbers, not options. -/
def isNegativeNumber (cs : List CodePoint) : Bool :=
  match cs with
  | '-' :: body =>
    isDigitsOnly body ||
      match body.dropWhile Text.isDecimalDigit with
      | '.' :: fraction => isDigitsOnly fraction
      | _ => false
  | _ => false

def classify (word : Text) : Except UsageFault Kind :=
  let cs := word.toList
  if cs.head? ≠ some (.char '-') ∨ word = "-" then .ok .argument
  else match Switch.ofName? (Text.ofList (nameOf cs)) with
    | some switch => .ok (.option switch (cs[1]? = some (.char '-')) (givenIn cs))
    | none =>
      match candidates cs with
      | [(_, kind)] => .ok kind
      | [] => .ok (if isNegativeNumber cs || .char ' ' ∈ cs then .argument else .unknown)
      | several => .error (.ambiguous word (several.map (·.1)))

/-- Every word with its kind. After `--` all words are arguments. -/
def classifyAll : List Text → Except UsageFault (List (Text × Kind))
  | [] => .ok []
  | word :: rest =>
    if word = "--" then .ok (("--", .dashes) :: rest.map fun word => (word, .argument))
    else do return (word, ← classify word) :: (← classifyAll rest)

/-! ### Reading the words -/

structure Options where
  input : Option Text := none
  settings : Settings := {}
  /-- Whether to print the manifest and the routines instead of writing files. -/
  toStdout : Bool := false
  /-- Words that mean nothing here. -/
  extras : List Text := []
  wantsHelp : Bool := false
deriving DecidableEq, Repr

namespace Options

def set (o : Options) (switch : Switch) (value : Text) : Options :=
  match switch with
  | .help => { o with wantsHelp := true }
  | .output => { o with settings.outputDir := value }
  | .stdout => { o with toStdout := true }
  | .noTypescript => { o with settings.typescript := false }
  | .verbose => { o with settings.verbose := true }

/-- Sets several switches. One that has no value yet takes `next`. -/
def setAll (o : Options) (switches : List (Switch × Option Text)) (next : Text) : Options :=
  switches.foldl (fun o (switch, value) => o.set switch (value.getD next)) o

/-- Whether an output option, if there is one, names a directory. The mark that ends the options is
no value, even where it is written as one. -/
def hasDirectory (o : Options) : Bool :=
  o.settings.outputDir ≠ "--"

def addExtra (o : Options) (word : Text) : Options :=
  { o with extras := o.extras ++ [word] }

end Options

/-- The switches that letters after a short name set. They are the value of a switch that takes one,
and otherwise short names of further switches. -/
def expand (switch : Switch) : List CodePoint → Except UsageFault (List (Switch × Option Text))
  | [] => .ok [(switch, none)]
  | c :: rest =>
    if switch.takesValue then .ok [(switch, some (Text.ofList (c :: rest)))]
    else match Switch.ofName? (Text.ofList ['-', c]) with
      | some next => do return (switch, none) :: (← expand next rest)
      | none => .error (.unwantedValue switch (Text.ofList (c :: rest)))

/-- The switches that one word sets. -/
def switches (switch : Switch) (isLong : Bool) :
    Option (List CodePoint) → Except UsageFault (List (Switch × Option Text))
  | none => .ok [(switch, none)]
  | some given =>
    if switch.takesValue then .ok [(switch, some (Text.ofList given))]
    else if isLong ∨ given = [] then .error (.unwantedValue switch (Text.ofList given))
    else expand switch given

/-- The first of these switches whose value is still to come. -/
def pending? (set : List (Switch × Option Text)) : Option Switch :=
  (set.find? fun (switch, value) => switch.takesValue && value.isNone).map (·.1)

/-- Reads the words in order. A request for help ends the reading. -/
def consume (o : Options) : List (Text × Kind) → Except UsageFault Options
  | [] =>
    if o.input.isNone then .error .missingInput
    else if o.extras = [] then .ok o
    else .error (.unrecognized o.extras)
  | (word, .argument) :: rest =>
    if o.input.isSome then consume (o.addExtra word) rest
    else match rest with
      | (_, .dashes) :: rest => consume { o with input := some word } rest
      | rest => consume { o with input := some word } rest
  | (word, .dashes) :: rest =>
    if o.input.isSome then consume (o.addExtra word) rest
    else match rest with
      | (next, _) :: rest => consume { o with input := some next } rest
      | [] => consume (o.addExtra word) []
  | (word, .unknown) :: rest => consume (o.addExtra word) rest
  | (_, .option switch isLong given) :: rest => do
    let set ← switches switch isLong given
    match pending? set, rest with
    | none, rest =>
      let o := o.setAll set ""
      if o.wantsHelp then return o else consume o rest
    | some _, (next, .argument) :: rest =>
      let o := o.setAll set next
      if o.wantsHelp then return o else consume o rest
    | some switch, _ => throw (.missingValue switch)

/-- What a command line asks for. -/
def parse (words : List Text) : Except UsageFault Options := do
  consume {} (← classifyAll words)

def usage : Text :=
  "usage: abigen [-h] [-o OUTPUT] [--stdout] [--no-typescript] [--verbose] input\n"

def help : Text :=
  usage ++ "\nContract ABI extraction and dispatch synthesis\n" ++
  "\npositional arguments:\n" ++
  "  input                 JSON declaration dump\n" ++
  "\noptions:\n" ++
  "  -h, --help            show this help message and exit\n" ++
  "  -o OUTPUT, --output OUTPUT\n" ++
  "                        Output directory\n" ++
  "  --stdout              Print the manifest and routing methods instead of\n" ++
  "                        writing files\n" ++
  "  --no-typescript       Skip the TypeScript ABI fragments\n" ++
  "  --verbose             Print every diagnostic\n"

end ContractAbi.CommandLine
