import Dcpu.Screen.Ansi
import Dcpu.Session

/-! # The program

Runs a program image in the terminal. Keys are read from standard input a line at a time, beside the
running machine. A line that was asked for is still waited for when all instructions have run.
-/

namespace Dcpu.Main

def usage : String :=
  "Usage: dcpu [OPTIONS] <PROGRAM>

Arguments:
  <PROGRAM>  raw program image: 16-bit words, loaded at 0x0000

Options:
      --steps <STEPS>        stop after this many instructions
      --clock-hz <CLOCK_HZ>  instructions per second
      --little-endian        words in the image are little-endian rather than big-endian
  -h, --help                 Print help
  -V, --version              Print version
"

def version : String := "dcpu 0.1.0\n"

def usageMessage : UsageError → String
  | .missingProgram => "the program is missing"
  | .unknownArgument => "unexpected argument"
  | .notANumber => "a value is no number, or out of range"
  | .missingValue => "a value is missing"
  | .unexpectedValue => "a value was given to an option that takes none"
  | .repeatedOption => "an option is repeated"

def readFile (name : String) : IO (Except DeviceError (List UInt8)) := do
  try
    return .ok (← IO.FS.readBinFile name).toList
  catch
    | .noFileOrDirectory .. => return .error .noSuchFile
    | e => return .error (.other e.toString)

/-- Ask for the next line of standard input. -/
def readLine : IO (Task (Except IO.Error String)) := do
  let input ← IO.getStdin
  IO.asTask input.getLine .dedicated

/-- What a line sends, frame by frame: its keys, and then the enter key that ends it. -/
def keysOfLine (line : String) : List (List UInt8) :=
  let keys := line.toUTF8.toList.filter (· ≠ 0x0a)
  let enter := if line.endsWith "\n" then [[0x0d]] else []
  if keys.isEmpty then enter else keys :: enter

def frameTime : Nat := 1000 / Settings.framesPerSecond

/-- Run a console frame by frame at the pace of its clock, painting what its terminal shows. -/
def play (settings : Settings) (start : TerminalConsole Canvas) : IO (Except Error Nat) := do
  let output ← IO.getStdout
  let mut console := start
  let mut painted : Picture := []
  let mut reader ← readLine
  let mut typed : List (List UInt8) := []
  for _ in [0:settings.frames] do
    let started ← IO.monoMsNow
    if typed.isEmpty && (← IO.hasFinished reader) then
      typed := keysOfLine (reader.get.toOption.getD "")
    let keyboard := console.keyboard.send (typed.headD [])
    console := { console with keyboard }
    match console.frame settings with
    | (_, .error e) => return .error e
    | (after, .ok true) => return .ok after.done
    | (after, .ok false) => console := after
    if typed.length = 1 then
      reader ← readLine
    typed := typed.tail
    let picture := console.machine.display.terminal.picture
    if picture ≠ painted then
      output.putStr (Ansi.picture picture)
      output.flush
      painted := picture
    let spent := (← IO.monoMsNow) - started
    IO.sleep (frameTime - spent).toUInt32
  return .ok console.done

/-- Take over the terminal for a run, and give it back whatever happens. -/
def runProgram (arguments : Arguments) (program : List Word) : IO (Except Error Nat) := do
  let settings := arguments.settings
  let output ← IO.getStdout
  output.putStr Ansi.enter
  output.flush
  try
    play settings (Session.console program settings {} {})
  finally
    output.putStr Ansi.leave
    output.flush

def fail (message : String) : IO UInt32 := do
  IO.eprintln s!"Error: {message}"
  return 1

end Dcpu.Main

open Dcpu Dcpu.Main in
def main (commandLine : List String) : IO UInt32 := do
  match Arguments.parse commandLine with
  | .error e =>
      IO.eprintln s!"error: {usageMessage e}\n\n{usage}"
      return 2
  | .ok .help =>
      IO.print usage
      return 0
  | .ok .version =>
      IO.print version
      return 0
  | .ok (.run arguments) =>
      match Session.program arguments (← readFile arguments.program) with
      | .error cause => fail cause.message
      | .ok program =>
          match ← runProgram arguments program with
          | .error e => fail e.message
          | .ok count =>
              IO.println s!"ran {count} instructions"
              return 0
