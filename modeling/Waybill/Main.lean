import Waybill.CommandLine.Report
import Waybill.Layered.Request

/-!
# The program

`plan` plans a flow from manifests, `generate` writes a manifest of layered
topologies. Here files are read and texts are printed, and nothing else is done.
-/

namespace Waybill.Main

open CommandLine

/-- The text of a file, or why there is none. -/
def readFile (path : String) : IO (Except FileFault String) := do
  try
    return Entry.text (.file (← IO.FS.readBinFile path))
  catch
    | .noFileOrDirectory .. => return .error .missing
    | .inappropriateType _ 20 _ => return .error .notFolder
    | .inappropriateType .. => return .error .isFolder
    | e => return .error (.other (toString e))

/-- The texts of some files. -/
def readFiles (paths : List String) : IO Files := do
  let texts ← paths.mapM fun path => return (path, ← readFile path)
  return fun path => (texts.lookup path).getD (.error .missing)

/-- Prints what a command leaves behind, and ends as it does. -/
def finish (o : Outcome) : IO UInt32 := do
  IO.print o.stdout
  IO.eprint o.stderr
  return o.code.toUInt32

/-- Plans a flow. -/
def plan (args : List String) : IO UInt32 := do
  match Request.ofArguments args with
  | .error e => finish (.misused ("waybill plan " ++ Request.usage) e)
  | .ok r => finish (r.run (← readFiles r.files))

/-- Generates topologies. -/
def generate (args : List String) : IO UInt32 := do
  match Layered.Request.ofArguments args with
  | .error e => finish (.misused ("waybill generate " ++ Layered.Request.usage) e)
  | .ok r =>
    let (outcome, manifest) := r.run
    if let some m := manifest then
      IO.FS.writeFile r.output (TopologyManifest.codec.writePretty m)
    finish outcome

end Waybill.Main

/-- The command named by the first word, with the words behind it. -/
def main (args : List String) : IO UInt32 :=
  match args with
  | "plan" :: rest => Waybill.Main.plan rest
  | "generate" :: rest => Waybill.Main.generate rest
  | _ => do
    IO.eprintln "Usage: waybill (plan | generate) ..."
    return 2
