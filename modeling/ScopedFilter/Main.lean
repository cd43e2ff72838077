import ScopedFilter.Console.Directory
import ScopedFilter.Console.Session

/-!
The command line: the console on standard input and output, with the configuration file of the
working directory.
-/

open ScopedFilter

def loadConfig : IO (Except ConfigError Config) := do
  let path := Console.configPath
  match ← (IO.FS.readBinFile path).toBaseIO with
  | .ok content => return Config.ofFile { files := [(path, content)] } path
  | .error (.noFileOrDirectory ..) => return Config.ofFile { files := [] } path
  | .error _ => return .error (.unreadable path)

structure InputLines where
  input : IO.FS.Stream

partial def InputLines.forEach {State : Type} (lines : InputLines) (state : State)
    (hear : String → State → IO (ForInStep State)) : IO State := do
  let line ← lines.input.getLine
  if line.isEmpty then return state
  match ← hear line state with
  | .done after => return after
  | .yield after => lines.forEach after hear

instance : ForIn IO InputLines String := ⟨InputLines.forEach⟩

def main : IO UInt32 := do
  let say (text : String) : IO Unit := do
    IO.print text
    (← IO.getStdout).flush
  let lines : InputLines := { input := ← IO.getStdin }
  return (← Console.converse say IO.eprint (← loadConfig) lines).toUInt32
