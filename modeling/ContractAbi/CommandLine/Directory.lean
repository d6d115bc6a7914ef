import ContractAbi.OutputPath
import ContractAbi.Table
import ContractAbi.Text.Quoted

/-!
# The working directory

The files that a command reads and writes, by their components from the working directory down.
Components outside it start with `/` or `..`.
-/

namespace ContractAbi.CommandLine

structure Directory where
  files : Table (List Text) Text := {}
  /-- Folders besides those that hold a file. -/
  folders : List (List Text) := []
deriving Repr

/-- Why a file cannot be read or written, or a folder not be made. -/
inductive PathFault where
  | missing
  /-- A file is in the place of a folder that is to be made. -/
  | isFile
  /-- A folder is in the place of a file. -/
  | isFolder
  /-- The path goes on below a file. -/
  | throughFile
  | nameTooLong
  /-- The path has a character that ends a path. -/
  | embeddedNull
  /-- The path or the text has a surrogate that cannot be encoded. -/
  | unencodable
deriving DecidableEq, Repr

/-- The operating system's words for a fault at `name`. -/
def PathFault.message (name : Text) : PathFault → Text
  | missing => "[Errno 2] No such file or directory: " ++ Text.shown name
  | isFile => "[Errno 17] File exists: " ++ Text.shown name
  | isFolder => "[Errno 21] Is a directory: " ++ Text.shown name
  | throughFile => "[Errno 20] Not a directory: " ++ Text.shown name
  | nameTooLong => "[Errno 36] File name too long: " ++ Text.shown name
  | embeddedNull => "embedded null byte"
  | unencodable => "surrogates not allowed"

namespace Directory

/-! ### Names of files -/

/-- The number of bytes for a code point in a path. A surrogate stands for a single byte there. -/
def byteCount : CodePoint → Nat
  | .char c => c.utf8Size
  | .surrogate _ => 1

def byteSize (s : Text) : Nat :=
  s.toList.foldl (fun size c => size + byteCount c) 0

/-- Whether a code point may be in a path. Of the surrogates only those from U+DC80 to U+DCFF stand
for a byte. -/
def isPathPoint : CodePoint → Bool
  | .char _ => true
  | .surrogate n => 0x480 ≤ n.val && n.val < 0x500

/-! ### Places -/

def rootPlace : List Text := ["/"]

/-- Follows one component. An empty one and `.` lead nowhere else. -/
def descend (place : List Text) (component : Text) : List Text :=
  if component = "" ∨ component = "." then place
  else if component = ".." ∧ place ≠ [] ∧ place.getLast? ≠ some (".." : Text) then
    if place = rootPlace then place else place.dropLast
  else place ++ [component]

/-- Where a path starts. -/
def start (p : OutputPath) : List Text :=
  if p.root = "" then [] else rootPlace

/-- The components of a path, without those that `..` takes back. -/
def resolve (path : Text) : List Text :=
  (OutputPath.parse path).parts.foldl descend (start (.parse path))

/-- A path that leads to `place`. -/
def pathTo (place : List Text) : Text :=
  if place.head? = some ("/" : Text) then "/" ++ Text.intercalate "/" place.tail
  else Text.intercalate "/" ("." :: place)

def isFile (d : Directory) (place : List Text) : Bool :=
  d.files.contains place

/-- The working directory and those above it, folders that were made, and whatever holds a file. -/
def isFolder (d : Directory) (place : List Text) : Bool :=
  place.all (· = "..") || place = rootPlace || d.folders.contains place ||
    d.files.keys.any fun file => place.isPrefixOf file && place ≠ file

/-- The greatest number of bytes in one component. -/
def componentLimit : Nat := 255

/-- The number of bytes that no path reaches. -/
def pathLimit : Nat := 4096

/-- Follows components, which only folders have. -/
def walk (d : Directory) (place : List Text) : List Text → Except PathFault (List Text)
  | [] => .ok place
  | component :: rest =>
    if d.isFile place then .error .throughFile
    else if !d.isFolder place then .error .missing
    else if componentLimit < byteSize component then .error .nameTooLong
    else d.walk (descend place component) rest

/-- Whether no path may be written like this. -/
def hasNull (path : Text) : Bool :=
  .char '\x00' ∈ path.toList

def read (d : Directory) (path : Text) : Except PathFault Text := do
  if !path.toList.all isPathPoint then throw .unencodable
  if hasNull path then throw .embeddedNull
  if path = "" then throw .missing
  if pathLimit ≤ byteSize path then throw .nameTooLong
  let components := (path.toList.splitOn (.char '/')).map Text.ofList
  let place ← d.walk (start (.parse path)) components
  match d.files.get? place with
  | some text => return text
  | none => if d.isFolder place then throw .isFolder else throw .missing

/-- The place that an output path leads to. -/
def locate (d : Directory) (p : OutputPath) : Except PathFault (List Text) :=
  if !p.text.toList.all isPathPoint then .error .unencodable
  else if hasNull p.text then .error .embeddedNull
  else if pathLimit ≤ byteSize p.text then .error .nameTooLong
  else d.walk (start p) p.parts

/-- Makes a folder, unless it is there, in a folder that is. -/
def makeFolder (d : Directory) (p : OutputPath) : Except PathFault Directory := do
  let place ← d.locate p
  if d.isFolder place then return d
  else if d.isFile place then throw .isFile
  else return { d with folders := d.folders ++ [place] }

/-- Makes a folder, the components of which are given from the last to the first. Only if something
on the way to it is missing, the folder above it is made first. -/
def makeFolders (d : Directory) (root : Text) : List Text → Except PathFault Directory
  | [] => d.makeFolder ⟨root, []⟩
  | last :: above =>
    let p : OutputPath := ⟨root, (last :: above).reverse⟩
    match d.makeFolder p with
    | .error .missing => do (← d.makeFolders root above).makeFolder p
    | result => result

/-- Writes a file, making its folder if necessary. A text that cannot be encoded leaves it empty. -/
def write (d : Directory) (path text : Text) : Except PathFault Directory := do
  let p := OutputPath.parse path
  let d ← d.makeFolders p.root p.parts.dropLast.reverse
  let place ← d.locate p
  if d.isFolder place then throw .isFolder
  else return { d with files := d.files.insert place (if text.isEncodable then text else "") }

/-- Writes files up to one that cannot be written, and gives the paths of those written. -/
def writeAll (d : Directory) : List (Text × Text) → Directory × List Text × Option PathFault
  | [] => (d, [], none)
  | (path, text) :: rest =>
    match d.write path text with
    | .error fault => (d, [], some fault)
    | .ok d =>
      if text.isEncodable then
        let (d, written, fault) := d.writeAll rest
        (d, path :: written, fault)
      else (d, [], some .unencodable)

/-- The places that a path comes through. -/
def placesAlong (path : Text) : List (List Text) :=
  let p := OutputPath.parse path
  (List.range p.parts.length).map fun n => (p.parts.take n).foldl descend (start p)

/-- A device that is always there and always empty. -/
def nullDevice : List Text := ["/", "dev", "null"]

/-- Folders that are always there. -/
def systemFolders : List (List Text) :=
  (["bin", "dev", "etc", "home", "lib", "proc", "root", "sys", "tmp", "usr", "var"] : List Text).map
    fun name => ["/", name]

/-- The directory with these files and the folders on the way to them. -/
def ofFiles (files : List (Text × Text)) : Directory :=
  { files := .ofPairs ((nullDevice, "") :: files.map fun (path, text) => (resolve path, text))
    folders := systemFolders ++ files.flatMap fun (path, _) => placesAlong path }

/-- The files of `d` inside the working directory that `before` did not have, sorted by path. -/
def newFiles (d before : Directory) : List (Text × Text) :=
  let fresh := d.files.entries.filter fun (place, _) =>
    !before.isFile place && place.head? ≠ some ("/" : Text) && place.head? ≠ some (".." : Text)
  let named := fresh.map fun (place, text) => (Text.intercalate "/" place, text)
  named.mergeSort fun a b => decide (a.1 ≤ b.1)

end Directory

end ContractAbi.CommandLine
