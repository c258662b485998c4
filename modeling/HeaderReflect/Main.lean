import HeaderReflect.CommandLine.Command

/-!
The program itself: it hands its arguments and the configuration file to `report` and prints what
that says.
-/

namespace HeaderReflect.CommandLine

/-- The content of the configuration file, if the arguments name one. -/
def readConfigFile (arguments : List String) : IO (Except IoFault Bytes) := do
  match Options.parse arguments with
  | .ok { config := some path, .. } =>
    try
      return .ok (← IO.FS.readBinFile path).toList
    catch e => return .error (.other (toString e))
  | _ => return .error .notFound

end HeaderReflect.CommandLine

open HeaderReflect

def main (arguments : List String) : IO UInt32 := do
  let content ← CommandLine.readConfigFile arguments
  let report := CommandLine.report (fun _ => content) arguments
  IO.print report.output
  for line in report.log do
    IO.eprintln line
  match report.failure with
  | some (.usage error) => IO.eprintln ("error: " ++ error.message ++ "\n\n" ++ CommandLine.usageText)
  | some failure => IO.eprintln ("Error: " ++ failure.message)
  | none => pure ()
  return UInt32.ofNat report.exitCode
