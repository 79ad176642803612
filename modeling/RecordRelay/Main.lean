import RecordRelay.CommandLine.Run
import RecordRelay.Net.Host

/-! Reads the arguments and the settings file they name, and prints what is asked for. An invocation
that fails ends with status 1, arguments that are refused end with status 2. -/
namespace RecordRelay

def readText? (path : String) : IO (Option String) := do
  try
    return some (← IO.FS.readFile path)
  catch _ => return none

end RecordRelay

open RecordRelay

def main (arguments : List String) : IO UInt32 := do
  match CommandLine.parse arguments with
  | .error .displayHelp =>
    IO.println CommandLine.usage
    return 0
  | .error .nothingAsked =>
    IO.eprintln CommandLine.usage
    return 2
  | .error e =>
    IO.eprintln s!"error: {e.message}\n\n{CommandLine.usage}"
    return 2
  | .ok invocation =>
    let file ← readText? invocation.settingsPath
    match CommandLine.run invocation file (Host.isolated.isLocal? []) with
    | .ok shown =>
      IO.println shown
      return 0
    | .error e =>
      IO.eprintln e.report
      return 1
