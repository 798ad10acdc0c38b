import IonLang.Directory
import IonLang.Machine
import IonLang.Text.Style

/-!
# Serial output

The bytes that a program writes are printed as the characters of their numbers, and copied to a
file if one is given. The copy goes through a buffer of fixed capacity: bytes reach the file when
the buffer has no room for more, and at the end.
-/

namespace IonLang.Monitor

/-- A file that is being written, with the bytes that have not reached it. -/
structure Sink where
  place : Directory.Place
  buffer : ByteArray := ByteArray.empty

namespace Sink

def capacity : Nat := 8192

def flush (sink : Sink) (dir : Directory) : Except Directory.Fault (Sink × Directory) := do
  let dir ← dir.append sink.buffer sink.place
  .ok ({ sink with buffer := ByteArray.empty }, dir)

/-- Writes a chunk. If it does not fit behind what is buffered, the buffer is sent first; a chunk
that is no smaller than the whole buffer goes to the file at once. -/
def write (sink : Sink) (dir : Directory) (chunk : ByteArray) :
    Except Directory.Fault (Sink × Directory) := do
  let (sink, dir) ←
    if capacity < sink.buffer.size + chunk.size then sink.flush dir else .ok (sink, dir)
  if chunk.size < capacity then .ok ({ sink with buffer := sink.buffer ++ chunk }, dir)
  else .ok (sink, ← dir.append chunk sink.place)

end Sink

structure Serial where
  /-- Whether each character is shown on a line of its own. -/
  styled : Bool := false
  sink : Option Sink := none

namespace Serial

def announcement : String := " * Serial: fd=1\n"

def character (byte : UInt8) : String := String.singleton (Char.ofNat byte.toNat)

def byteText (styled : Bool) (byte : UInt8) : String :=
  if styled then " > " ++ Text.alarm (character byte) ++ "\n" else character byte

def text (serial : Serial) (bytes : Array UInt8) : String :=
  String.join (bytes.toList.map (byteText serial.styled))

def failure (fault : Directory.Fault) : String :=
  "Failed to write serial output: " ++ fault.message ++ "\n"

end Serial

end IonLang.Monitor
