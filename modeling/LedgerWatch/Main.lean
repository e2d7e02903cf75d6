import LedgerWatch.Command.Host

namespace LedgerWatch.Command

def usage : List String :=
  ["Ensemble anomaly detection for transaction records", "",
    "Usage: ledger-watch <COMMAND>", "", "Commands:",
    "  detect  Run all detectors over a record file",
    "  config  Print or write the default configuration",
    "  help    Print this message or the help of the given subcommand(s)", "",
    "Options of detect:",
    "  -d, --data <DATA>      Input records (JSON array, or JSON Lines with a .jsonl extension)",
    "  -c, --config <CONFIG>  Engine configuration (JSON)",
    "  -o, --output <OUTPUT>  Write the full report as JSON",
    "      --seed <SEED>      Seed for the isolation forest",
    "      --sequential       Run detectors one after another",
    "      --top <TOP>        Number of findings to print [default: 10]", "",
    "Options of config:",
    "  -o, --output <OUTPUT>  Output file (stdout when omitted)"]

def Refusal.message : Refusal → String
  | .help => "help was asked for"
  | .version => "the version was asked for"
  | .missingCommand => "a command is missing"
  | .unknownCommand => "unknown command"
  | .unknownArgument => "unexpected argument"
  | .missingArgument => "the argument --data is missing"
  | .missingValue => "an option has no value"
  | .badNumber => "a value is not a whole number in range"
  | .repeated => "an option is given more than once"
  | .unexpectedValue => "an option without a value is given one"

def Trouble.words : Trouble → String
  | .unreadable _ => "no such file, or not a text"
  | .unwritable _ => "the file cannot be written"
  | .notJson _ => "not JSON"
  | .badLine _ _ => "not JSON"
  | .notSettings _ => "not the JSON of settings"

def contentOf? (path : String) : IO (Option String) := do
  try return some (← IO.FS.readFile path)
  catch _ => return none

def writeContent (path text : String) : IO Bool := do
  try
    IO.FS.writeFile path text
    return true
  catch _ => return false

def printText (text : String) : IO Unit := do (← IO.getStdout).putStr text

/-- What was shown before an error stands before it. -/
def printError (text : String) : IO Unit := do
  (← IO.getStdout).flush
  (← IO.getStderr).putStr text

def freshSeed : IO UInt64 := do
  let bytes ← IO.getRandomBytes 8
  return bytes.foldl (fun seed byte => seed * 256 + byte.toUInt64) 0

def tasks {α : Type} (actions : List (IO α)) : IO (List α) := do
  let started ← actions.mapM fun action => IO.asTask action
  started.mapM fun task => IO.ofExcept task.get

instance : Host IO where
  read? := contentOf?
  write := writeContent
  print := printText
  complain := printError
  words := return Trouble.words
  now := IO.monoNanosNow
  freshSeed := freshSeed
  workOut make := IO.lazyPure make
  sideBySide := tasks

end LedgerWatch.Command

open LedgerWatch.Command

def main (args : List String) : IO UInt32 := do
  match Action.ofArguments? args with
  | .error .help =>
    printLines usage
    return 0
  | .error .version =>
    IO.println "ledger-watch 1.0.0"
    return 0
  | .error refusal =>
    IO.eprintln ("error: " ++ refusal.message)
    return 2
  | .ok (.detect options) => options.run
  | .ok (.config output) => runConfig output
