import Verdicts.CommandLine.Run

/-!
# The program

Reads the arguments and the manifest that they name, and prints the report.
-/

/-- What is printed when help is asked for. -/
def usageText : String :=
  "Capability and compatibility verdicts for xUnit test analyzers\n\n"
    ++ "Commands:\n"
    ++ "  capabilities                 resolve and print the capabilities of a program\n"
    ++ "  convert SOURCE DESTINATION   check whether data of one type binds to another\n"
    ++ "  classify TYPE...             classify how types serialize\n\n"
    ++ "Options:\n"
    ++ "  -m, --manifest FILE          program manifest\n"
    ++ "  -r, --reference NAME[=VERSION]\n"
    ++ "      --override FAMILY=VERSION\n"
    ++ "      --format text|json\n"
    ++ "      --log-format text|tree|json\n"
    ++ "      --no-color\n"

/-- What is said when arguments are refused. -/
def usageMessage : Verdicts.UsageError → String
  | .unknownArgument => "unexpected argument"
  | .unknownCommand => "unrecognized command"
  | .missingCommand => "a command is required"
  | .missingArgument => "required arguments were not provided"
  | .invalidValue => "invalid or missing value for an option"
  | .refusedValue message => message
  | .repeatedOption => "an option cannot be used multiple times"
  | .attachedValue => "unexpected value for an option"
  | .help | .helpOnNothing => usageText
  | .version => "0.1.0"

/-- Run the command that the arguments name. -/
def main (arguments : List String) : IO UInt32 := do
  match Verdicts.Invocation.ofArguments arguments with
  | .error .help =>
    IO.print usageText
    return 0
  | .error .version =>
    IO.println (usageMessage .version)
    return 0
  | .error e =>
    IO.eprintln (usageMessage e)
    return 2
  | .ok invocation =>
    let contents ← match invocation.source.manifest with
      | some path =>
        try
          let bytes ← IO.FS.readBinFile path
          pure (some bytes)
        catch _ =>
          pure none
      | none => pure none
    let color ← (← IO.getStdout).isTty
    match invocation.run (fun _ => contents) color with
    | .ok output =>
      IO.print output
      return 0
    | .error e =>
      IO.eprintln ("Error: " ++ e.message)
      return 1
