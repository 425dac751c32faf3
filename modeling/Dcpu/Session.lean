import Dcpu.Arguments.Parser
import Dcpu.Console
import Dcpu.Keyboard.TypedKeys
import Dcpu.Screen.TerminalDisplay

/-! # Sessions

A session is one run of the program from its command line to its exit code: it reads the image that
the arguments name, runs it on a console at a terminal, and reports how many instructions ran.
-/

namespace Dcpu

universe u

abbrev TerminalConsole (τ : Type u) := Console (TerminalDisplay τ) TypedKeys

inductive Outcome where
  | usage (error : UsageError)
  /-- A text was asked for instead of a run. -/
  | help
  | version
  /-- There is no program to run, and the terminal was left alone. -/
  | noProgram (cause : DeviceError)
  /-- A run ended, with this picture on the terminal. -/
  | ran (result : Except Error Nat) (picture : Picture)

namespace Outcome

def exitCode : Outcome → Nat
  | usage _ => 2
  | noProgram _ | ran (.error _) _ => 1
  | help | version | ran (.ok _) _ => 0

def report? : Outcome → Option String
  | ran (.ok count) _ => some s!"ran {count} instructions\n"
  | _ => none

def picture? : Outcome → Option Picture
  | ran _ picture => some picture
  | _ => none

end Outcome

namespace Session

/-- The words of a program image, if its file can be read. -/
def program (arguments : Arguments) (file : Except DeviceError (List UInt8)) :
    Except DeviceError (List Word) :=
  file >>= Image.toWords arguments.byteOrder

def console {τ : Type u} (program : List Word) (settings : Settings) (terminal : τ)
    (keyboard : TypedKeys) : TerminalConsole τ :=
  .boot program (.blank settings.rows settings.columns terminal) keyboard settings

def runProgram (arguments : Arguments) (program : List Word) (keyboard : TypedKeys) : Outcome :=
  let settings := arguments.settings
  let (console, result) := (console program settings ({} : Canvas) keyboard).run settings
  .ran result console.machine.display.terminal.picture

/-- A whole session. `contents` gives the bytes of a file, and `sent` are the bytes typed before it
    starts. -/
def run (contents : String → Except DeviceError (List UInt8)) (sent : List UInt8)
    (commandLine : List String) : Outcome :=
  match Arguments.parse commandLine with
  | .error error => .usage error
  | .ok .help => .help
  | .ok .version => .version
  | .ok (.run arguments) =>
      match program arguments (contents arguments.program) with
      | .error cause => .noProgram cause
      | .ok program => runProgram arguments program { sent }

end Session
end Dcpu
