import ContractAbi.CommandLine.Run

/-!
# The command

Looks at the input file, runs the command on that and carries out what it wrote.
-/

namespace ContractAbi.CommandLine

/-- A text as the system takes it, which has no surrogates. -/
def systemText (s : Text) : String :=
  .ofList (s.toList.map fun c => c.char?.getD '\ufffd')

/-- Notes the folder or the file at `place`, if there is one. -/
def look (d : Directory) (place : List Text) : IO Directory := do
  match ← (IO.FS.realPath (systemText (Directory.pathTo place))).toBaseIO with
  | .error _ => return d
  | .ok there =>
    if ← there.isDir then return { d with folders := d.folders ++ [place] }
    match ← (IO.FS.readFile there).toBaseIO with
    | .ok text => return { d with files := d.files.insert place text }
    | .error _ => return d

/-- The working directory as far as a command reads it. -/
def snapshot (words : List Text) : IO Directory := do
  match parse words with
  | .error _ => return {}
  | .ok o =>
    let path := o.input.getD ""
    (Directory.placesAlong path ++ [Directory.resolve path]).foldlM look {}

/-- Writes a file below the folder that holds it. -/
def writeOut (place : List Text) (text : Text) : IO Unit := do
  IO.FS.createDirAll (systemText (Directory.pathTo place.dropLast))
  IO.FS.writeFile (systemText (Directory.pathTo place)) (systemText text)

end ContractAbi.CommandLine

open ContractAbi CommandLine

def main (words : List String) : IO UInt32 := do
  let words := words.map Text.ofString
  let before ← snapshot words
  let (report, after) := run words before
  for (place, text) in after.files.entries do
    if before.files.get? place ≠ some text then writeOut place text
  IO.print (systemText report.stdout)
  IO.eprint (systemText report.stderr)
  match report.exit with
  | .ok status => return status.toUInt32
  | .error _ => return 1
