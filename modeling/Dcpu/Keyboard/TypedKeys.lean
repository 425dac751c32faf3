import Dcpu.Keyboard.Reading.Sequence

/-! # Typed keys

A keyboard at the other end of a terminal. Its bytes are taken in reads of limited length, and a
poll reads until there is an event. A report of the cursor ends a poll early: what came after it
waits for the next one.
-/

namespace Dcpu

/-- A keyboard at the other end of a terminal. -/
structure TypedKeys where
  /-- Bytes that came since the last read. -/
  sent : List UInt8 := []
  /-- Bytes that came earlier and that no read has taken. -/
  unread : List UInt8 := []
  /-- Bytes of an event that is not complete. -/
  begun : List UInt8 := []
  /-- Events that were read but are for a later poll. -/
  waiting : List TerminalEvent := []
  deriving Repr, DecidableEq

namespace TypedKeys

/-- How many bytes one read from a terminal takes at most. -/
def readLimit : Nat := 1204

def send (keys : TypedKeys) (bytes : List UInt8) : TypedKeys :=
  { keys with sent := keys.sent ++ bytes }

/-- The events in the bytes of a read, and what is left of the last one. A read that is full may have
    left bytes behind. -/
def events (full : Bool) (begun : List UInt8) : List UInt8 → List TerminalEvent × List UInt8
  | [] => ([], begun)
  | byte :: rest =>
      let bytes := begun ++ [byte]
      match Reading.ofBytes (!rest.isEmpty || full) bytes with
      | .event event =>
          let (later, begun) := events full [] rest
          (event :: later, begun)
      | .incomplete => events full bytes rest
      | .dropped => events full [] rest

/-- Read until there is an event, and take all events of that read. -/
def read (begun : List UInt8) : List UInt8 → TypedKeys
  | [] => { begun }
  | first :: rest =>
      let taken := (first :: rest).take readLimit
      let unread := (first :: rest).drop readLimit
      match events (taken.length = readLimit) begun taken with
      | ([], begun) => read begun unread
      | (waiting, begun) => { unread, begun, waiting }
termination_by bytes => bytes.length
decreasing_by
  simp only [List.length_drop, List.length_cons, readLimit]
  omega

/-- The keyboard with everything a poll takes or leaves among its events. A terminal tells once that
    bytes have come: what a read leaves behind is noticed only when more of them come. Nothing is
    read in front of a report of the cursor. -/
def receive (keys : TypedKeys) : TypedKeys :=
  if keys.sent.isEmpty || keys.waiting.contains .cursor then keys
  else
    let received := read keys.begun (keys.unread ++ keys.sent)
    { received with waiting := keys.waiting ++ received.waiting }

/-- The keys of a poll, which ends with the first report of the cursor. -/
def poll (keys : TypedKeys) : List Key × TypedKeys :=
  let received := keys.receive
  let now := received.waiting.takeWhile (· ≠ .cursor)
  (now.filterMap TerminalEvent.key?,
    { received with waiting := received.waiting.drop (now.length + 1) })

end TypedKeys

instance : Keyboard TypedKeys where
  poll keys :=
    let (found, keys) := keys.poll
    (keys, .ok found)

end Dcpu
