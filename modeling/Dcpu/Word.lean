/-! # Words

Everything the processor can see is one sixteen-bit word: instructions, addresses and data.
-/

namespace Dcpu

/-- A value of the processor. Its arithmetic wraps at sixteen bits. -/
abbrev Word := UInt16

/-- The four lower-case hexadecimal digits of a word. -/
def Word.hex (word : Word) : String :=
  String.ofList <| [12, 8, 4, 0].map fun shift => Nat.digitChar (word.toNat >>> shift % 16)

end Dcpu
