import Dcpu.Error

/-! # Program images

An image is a program as bytes, two to a word, in either order.
-/

namespace Dcpu

/-- Which byte of a word comes first. -/
inductive ByteOrder where
  | bigEndian
  | littleEndian
  deriving Repr, DecidableEq

namespace ByteOrder

def word (order : ByteOrder) (first second : UInt8) : Word :=
  match order with
  | bigEndian => UInt16.ofNat (first.toNat * 256 + second.toNat)
  | littleEndian => UInt16.ofNat (second.toNat * 256 + first.toNat)

def bytes (order : ByteOrder) (word : Word) : List UInt8 :=
  let high := UInt8.ofNat (word.toNat / 256)
  let low := UInt8.ofNat word.toNat
  match order with
  | bigEndian => [high, low]
  | littleEndian => [low, high]

/-- The words of successive pairs of bytes. A last byte without a partner is left out. -/
def pairs (order : ByteOrder) : List UInt8 → List Word
  | first :: second :: rest => order.word first second :: order.pairs rest
  | _ => []

end ByteOrder

namespace Image

def toWords (order : ByteOrder) (image : List UInt8) : Except DeviceError (List Word) :=
  if image.length % 2 = 0 then .ok (order.pairs image) else .error .oddImage

def ofWords (order : ByteOrder) (words : List Word) : List UInt8 :=
  words.flatMap order.bytes

end Image
end Dcpu
