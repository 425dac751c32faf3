import Dcpu.Arguments
import Dcpu.Arguments.Parser
import Dcpu.Console
import Dcpu.Error
import Dcpu.Image
import Dcpu.Instruction
import Dcpu.Instruction.Arithmetic
import Dcpu.Keyboard.Key
import Dcpu.Keyboard.KeyPress
import Dcpu.Keyboard.KeyRing
import Dcpu.Keyboard.Reading
import Dcpu.Keyboard.Reading.Sequence
import Dcpu.Keyboard.TerminalEvent
import Dcpu.Keyboard.TypedKeys
import Dcpu.Machine.Difference
import Dcpu.Machine.Execution
import Dcpu.Machine.Memory
import Dcpu.Machine.Wired
import Dcpu.Main
import Dcpu.Numeral
import Dcpu.Proofs.Arithmetic
import Dcpu.Proofs.Calls
import Dcpu.Proofs.Delivery
import Dcpu.Proofs.Effects
import Dcpu.Proofs.Encoding
import Dcpu.Proofs.Footprints
import Dcpu.Proofs.Frames
import Dcpu.Proofs.Images
import Dcpu.Proofs.KeyQueue
import Dcpu.Proofs.Lengths
import Dcpu.Proofs.Mirror
import Dcpu.Proofs.Panics
import Dcpu.Proofs.Redrawing
import Dcpu.Proofs.Repaint
import Dcpu.Proofs.Skipping
import Dcpu.Proofs.Slices
import Dcpu.Proofs.Stack
import Dcpu.Proofs.Stopping
import Dcpu.Proofs.Storage
import Dcpu.Proofs.Undecodable
import Dcpu.Screen.Ansi
import Dcpu.Screen.Cell
import Dcpu.Screen.TextScreen
import Dcpu.Session
import Dcpu.Settings
