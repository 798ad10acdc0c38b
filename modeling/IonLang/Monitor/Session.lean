import IonLang.Monitor.Serial
import IonLang.Monitor.Watch

/-!
# Monitored runs

A session runs a machine under a watch and with serial output. After every instruction the watch
reports first, then the pending bytes are collected.
-/

namespace IonLang.Monitor

/-- A run in progress, with all it has printed. -/
structure Session where
  machine : Machine
  watch : Watch := {}
  serial : Serial := {}
  dir : Directory := {}
  stdout : String := ""
  stderr : String := ""

namespace Session

def announce (s : Session) : Session :=
  { s with stdout := s.stdout ++ s.watch.announcement ++ Serial.announcement }

/-- Copies a chunk to the file. A copy that fails is reported and given up. -/
def copy (s : Session) (chunk : Array UInt8) : Session :=
  match s.serial.sink with
  | none => s
  | some sink =>
    match sink.write s.dir ⟨chunk⟩ with
    | .ok (sink, dir) => { s with serial.sink := some sink, dir }
    | .error fault =>
      { s with serial.sink := none, stderr := s.stderr ++ Serial.failure fault }

def collect (s : Session) : Session :=
  let (chunk, machine) := s.machine.takePending
  { s with machine, stdout := s.stdout ++ s.serial.text chunk }.copy chunk

def observe (s : Session) (time pc : Nat) (inst : Instruction) : Session :=
  { s with stdout := s.stdout ++ s.watch.report time pc inst s.machine }.collect

/-- Runs from a time on until the program exits, an instruction faults or the limit is reached. A
fault is given with its time. Whether the program has exited is asked after an instruction only. -/
def runFrom (time : Nat) (s : Session) : Nat → Session × Option (Nat × Machine.Fault)
  | 0 => (s, none)
  | limit + 1 =>
    match Machine.step s.machine with
    | .error fault machine => ({ s with machine }, some (time, fault))
    | .ok (pc, inst) machine =>
      let s := { s with machine }.observe time pc inst
      if s.machine.isTerminated then (s, none) else runFrom (time + 1) s limit

def run (s : Session) (limit : Nat) : Session × Option (Nat × Machine.Fault) := runFrom 0 s limit

/-- Sends what is buffered to the file. A copy that fails now is not reported. -/
def close (s : Session) : Session :=
  match s.serial.sink with
  | none => s
  | some sink =>
    match sink.flush s.dir with
    | .ok (_, dir) => { s with serial.sink := none, dir }
    | .error _ => { s with serial.sink := none }

end Session

end IonLang.Monitor
