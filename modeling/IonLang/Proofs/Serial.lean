import IonLang.Proofs.Directory
import IonLang.Proofs.Monitor
import IonLang.Proofs.Sequence

/-!
# The two ways of serial output

The bytes that a program writes go to a file through a buffer, and to the terminal as characters. The
file gets them as they are: what has reached it and what is buffered are always all bytes that were
collected (`Sink.Holds`). On the terminal a byte from 128 on is the character with this number, which
takes two bytes. So the two agree exactly if the program writes bytes below 128 only.
-/

namespace IonLang

theorem Directory.append_store (dir : Directory) (written bytes : ByteArray) (key : String) :
    (dir.store written (.file key)).append bytes (.file key) =
      .ok (dir.store (written ++ bytes) (.file key)) := by
  simp only [store, append, Dictionary.get?_insert, if_pos, Option.getD_some, Dictionary.insert_insert]

theorem Directory.LeadsTo.create {dir : Directory} {path : String} {place : Place}
    (leads : dir.LeadsTo path place) :
    dir.create path = .ok (dir.store ByteArray.empty place, place) := by
  obtain ⟨folder, name, walked, short, found⟩ := leadsTo_iff.mp leads
  rw [create_eq walked short, found]

theorem mk_eq_toByteArray (bytes : Array UInt8) : ByteArray.mk bytes = bytes.toList.toByteArray :=
  ByteArray.ext (by simp)

namespace Monitor

/-! ### The file -/

/-- Bytes have been written into a file that is stored in `dir` otherwise: some of them have reached
it, and the others are in the buffer. -/
structure Sink.Holds (dir : Directory) (key : String) (bytes : ByteArray) (sink : Sink)
    (now : Directory) : Prop where
  place : sink.place = .file key
  split : ∃ written, now = dir.store written (.file key) ∧ written ++ sink.buffer = bytes

namespace Sink.Holds

variable {dir now : Directory} {key : String} {bytes : ByteArray} {sink : Sink}

theorem flush (holds : sink.Holds dir key bytes now) :
    sink.flush now = .ok ({ sink with buffer := ByteArray.empty }, dir.store bytes (.file key)) := by
  obtain ⟨place, written, rfl, whole⟩ := holds
  rw [Sink.flush, place, Directory.append_store, whole]
  rfl

/-- A chunk that is put into the buffer, or past it if it is too large for any buffer. -/
theorem put (holds : sink.Holds dir key bytes now) (chunk : ByteArray)
    (past : capacity ≤ chunk.size → sink.buffer = ByteArray.empty) :
    ∃ sink' now', (if chunk.size < capacity then
        (.ok ({ sink with buffer := sink.buffer ++ chunk }, now) : Except Directory.Fault _)
      else do .ok (sink, ← now.append chunk sink.place)) = .ok (sink', now') ∧
      sink'.Holds dir key (bytes ++ chunk) now' := by
  obtain ⟨place, written, rfl, rfl⟩ := holds
  split
  case isTrue => exact ⟨_, _, rfl, place, written, rfl, ByteArray.append_assoc.symm⟩
  case isFalse large =>
    have empty := past (Nat.le_of_not_lt large)
    rw [place, Directory.append_store]
    refine ⟨_, _, rfl, place, written ++ chunk, rfl, ?_⟩
    simp [empty]

theorem write (holds : sink.Holds dir key bytes now) (chunk : ByteArray) :
    ∃ sink' now', sink.write now chunk = .ok (sink', now') ∧
      sink'.Holds dir key (bytes ++ chunk) now' := by
  unfold Sink.write
  by_cases full : capacity < sink.buffer.size + chunk.size
  · have flushed : Sink.Holds dir key bytes { sink with buffer := ByteArray.empty }
        (dir.store bytes (.file key)) := ⟨holds.place, bytes, rfl, ByteArray.append_empty⟩
    simp only [if_pos full, holds.flush]
    exact flushed.put chunk fun _ => rfl
  · -- A chunk of the buffer's size leaves room only if nothing is buffered.
    simp only [if_neg full]
    refine holds.put chunk fun large => ByteArray.size_eq_zero_iff.mp ?_
    omega

end Sink.Holds

namespace Session

variable {dir : Directory} {key : String} {bytes : ByteArray} {s : Session}

/-- The session copies to a file that is stored in `dir`, and these bytes have been written to it. -/
def Copies (dir : Directory) (key : String) (bytes : ByteArray) (s : Session) : Prop :=
  ∃ sink, s.serial.sink = some sink ∧ sink.Holds dir key bytes s.dir

theorem Copies.copy (copies : s.Copies dir key bytes) (chunk : Array UInt8) :
    (s.copy chunk).Copies dir key (bytes ++ ⟨chunk⟩) ∧ (s.copy chunk).stderr = s.stderr := by
  obtain ⟨sink, used, holds⟩ := copies
  obtain ⟨sink', now', written, holds'⟩ := holds.write ⟨chunk⟩
  simp only [Session.copy, used, written]
  exact ⟨⟨sink', rfl, holds'⟩, trivial⟩

theorem Copies.observe (copies : s.Copies dir key bytes) (time pc : Nat) (inst : Instruction) :
    (s.observe time pc inst).Copies dir key (bytes ++ ⟨s.machine.takePending.1⟩) ∧
      (s.observe time pc inst).stderr = s.stderr :=
  Copies.copy (s := { s with
    machine := s.machine.takePending.2
    stdout := s.stdout ++ s.watch.report time pc inst s.machine ++
      s.serial.text s.machine.takePending.1 }) copies s.machine.takePending.1

/-- The rounds of a run write their chunks, one after the other. -/
theorem Copies.runFrom (copies : s.Copies dir key bytes) (limit time : Nat) :
    (s.runFrom time limit).1.Copies dir key
        (bytes ++ ((s.roundsFrom time limit).flatMap fun round => round.chunk.toList).toByteArray) ∧
      (s.runFrom time limit).1.stderr = s.stderr := by
  induction limit generalizing time s bytes with
  | zero => simpa [Session.runFrom, roundsFrom] using copies
  | succ limit ih =>
    unfold Session.runFrom roundsFrom
    cases Machine.step s.machine with
    | error fault machine =>
      refine ⟨?_, rfl⟩
      rw [List.flatMap_nil, List.toByteArray_nil, ByteArray.append_empty]
      exact copies
    | ok executed machine =>
      obtain ⟨pc, inst⟩ := executed
      obtain ⟨observed, silent⟩ := Copies.observe (s := { s with machine }) copies time pc inst
      rw [mk_eq_toByteArray] at observed
      dsimp only
      split
      · exact ⟨by simpa [Round.chunk] using observed, silent⟩
      · obtain ⟨rest, quiet⟩ := ih observed (time + 1)
        refine ⟨?_, quiet.trans silent⟩
        simpa [Round.chunk, ByteArray.append_assoc, List.toByteArray_append] using rest

theorem Copies.close (copies : s.Copies dir key bytes) :
    s.close.dir = dir.store bytes (.file key) := by
  obtain ⟨sink, used, holds⟩ := copies
  simp only [Session.close, used, holds.flush]

theorem close_frame (s : Session) :
    s.close.machine = s.machine ∧ s.close.stdout = s.stdout ∧ s.close.stderr = s.stderr := by
  unfold Session.close
  split
  · exact ⟨rfl, rfl, rfl⟩
  · split
    · exact ⟨rfl, rfl, rfl⟩
    · exact ⟨rfl, rfl, rfl⟩

/-- A run that copies to a file that was just created leaves there the chunks of all its rounds. -/
theorem read_close_run {path : String} (opened : dir.create path = .ok (s.dir, .file key))
    (sink : s.serial.sink = some { place := .file key }) (limit : Nat) :
    (s.run limit).1.close.dir.read path =
        .ok ((s.rounds limit).flatMap fun round => round.chunk.toList).toByteArray ∧
      (s.run limit).1.close.stderr = s.stderr := by
  have leads : dir.LeadsTo path (.file key) := by
    rw [Directory.LeadsTo, opened]
    rfl
  have created : s.dir = dir.store ByteArray.empty (.file key) :=
    congrArg Prod.fst (Except.ok.inj (opened.symm.trans leads.create))
  have begun : s.Copies dir key ByteArray.empty := ⟨_, sink, rfl, ByteArray.empty, created, rfl⟩
  obtain ⟨copies, silent⟩ := begun.runFrom limit 0
  rw [ByteArray.empty_append] at copies
  refine ⟨?_, (close_frame _).2.2.trans silent⟩
  rw [run, copies.close]
  exact (leads.store leads _).read (by rw [Directory.get?_store, if_pos rfl, rounds])

end Session

/-! ### The terminal -/

def Serial.encoding (byte : UInt8) : List UInt8 :=
  if byte < 128 then [byte] else [192 + byte / 64, 128 + byte % 64]

theorem Serial.toNat_ofNat (byte : UInt8) : (Char.ofNat byte.toNat).val.toNat = byte.toNat := by
  have valid : byte.toNat.isValidChar := .inl (Nat.lt_trans byte.toNat_lt (by decide))
  rw [Char.ofNat, dif_pos valid]
  rfl

theorem Serial.utf8EncodeChar_ofNat (byte : UInt8) :
    String.utf8EncodeChar (Char.ofNat byte.toNat) = encoding byte := by
  have small : byte.toNat < 256 := byte.toNat_lt
  have below : byte < 128 ↔ byte.toNat < 128 := UInt8.lt_iff_toNat_lt
  rw [String.utf8EncodeChar.eq_1, toNat_ofNat, encoding]
  by_cases ascii : byte < 128
  · rw [if_pos (Nat.le_of_lt_succ (below.mp ascii)), if_pos ascii, UInt8.ofNat_toNat]
  · have large : 128 ≤ byte.toNat := Nat.le_of_not_lt (mt below.mpr ascii)
    rw [if_neg (by omega), if_pos (by omega), if_neg ascii]
    simp only [List.cons.injEq, and_true, ← UInt8.toNat_inj]
    simp
    omega

theorem Serial.length_le_flatMap_encoding (bytes : List UInt8) :
    bytes.length ≤ (bytes.flatMap encoding).length := by
  induction bytes with
  | nil => exact Nat.le_refl 0
  | cons byte rest ih =>
    have some : 1 ≤ (encoding byte).length := by
      unfold encoding
      split
      · exact Nat.le_refl 1
      · exact Nat.le_succ 1
    simp only [List.flatMap_cons, List.length_append, List.length_cons]
    omega

/-- Bytes are printed as they are if and only if all are below 128. -/
theorem Serial.flatMap_encoding_eq_self {bytes : List UInt8} :
    bytes.flatMap encoding = bytes ↔ ∀ byte ∈ bytes, byte < 128 := by
  induction bytes with
  | nil => simp
  | cons byte rest ih =>
    by_cases ascii : byte < 128
    · simp [encoding, ascii, ih]
    · -- Two bytes stand for one, and none of the others is dropped.
      have others := length_le_flatMap_encoding rest
      refine iff_of_false ?_ fun all => ascii (all byte List.mem_cons_self)
      intro same
      have lengths := congrArg List.length same
      simp only [List.flatMap_cons, encoding, if_neg ascii, List.length_append, List.length_cons,
        List.length_nil] at lengths
      omega

theorem Round.text_unwatched (serial : Serial) :
    Round.text {} serial = fun round => serial.text round.chunk := by
  funext round
  have unwatched : Watch.point? {} round.machine round.pc = none := by
    simp [Watch.point?, Dictionary.get?, List.findSome?_eq_none_iff]
  rw [text, Watch.report, unwatched]
  exact String.empty_append

theorem Serial.toList_text {serial : Serial} (plain : serial.styled = false) (bytes : Array UInt8) :
    (serial.text bytes).toList = bytes.toList.map fun byte => Char.ofNat byte.toNat := by
  rw [text, String.toList_join, List.flatMap_map, List.map_eq_flatMap]
  simp [byteText, character, plain]

namespace Session

def serialText (s : Session) (limit : Nat) : String :=
  String.join ((s.rounds limit).map fun round => s.serial.text round.chunk)

theorem toList_serialText {s : Session} (plain : s.serial.styled = false) (limit : Nat) :
    (s.serialText limit).toList = ((s.rounds limit).flatMap fun round => round.chunk.toList).map
      fun byte => Char.ofNat byte.toNat := by
  simp [serialText, List.flatMap_map, List.map_flatMap, Serial.toList_text plain]

theorem toUTF8_serialText {s : Session} (plain : s.serial.styled = false) (limit : Nat) :
    (s.serialText limit).toUTF8 = (((s.rounds limit).flatMap fun round =>
      round.chunk.toList).flatMap Serial.encoding).toByteArray := by
  rw [String.toUTF8_eq_toByteArray, ← String.utf8Encode_toList, toList_serialText plain,
    List.utf8Encode, List.flatMap_map]
  simp only [Serial.utf8EncodeChar_ofNat]

/-- A run that is copied to a file leaves there the bytes that the program has written. The terminal
gets the character of each of them, hence the same bytes if and only if all are below 128. -/
theorem serial_output {s : Session} {dir : Directory} {path key : String} (unit : Assembly)
    (loaded : Machine.load unit = .ok s.machine)
    (opened : dir.create path = .ok (s.dir, .file key))
    (serial : s.serial = { sink := some { place := .file key } }) (limit : Nat) :
    let final := (s.run limit).1.close
    let output := final.machine.output
    final.dir.read path = .ok ⟨output⟩ ∧ final.stderr = s.stderr ∧
      (s.watch = {} → final.stdout = s.stdout ++ s.serialText limit) ∧
      (s.serialText limit).toUTF8 = (output.toList.flatMap Serial.encoding).toByteArray ∧
      ((s.serialText limit).toUTF8 = ⟨output⟩ ↔ ∀ byte ∈ output, byte < 128) := by
  intro final output
  obtain ⟨machine, stdout, _⟩ := close_frame (s.run limit).1
  obtain ⟨silent, collected, running⟩ := Machine.load_fresh loaded
  have same : s.machine = s.machine.withPending #[] := by
    rw [Machine.withPending, ← collected]
  have follows := s.runFrom_follows limit 0 s.machine running same
  have chunks : ((s.rounds limit).flatMap fun round => round.chunk.toList) = output.toList := by
    have collects := follows.output
    rw [silent] at collects
    rw [show output = (s.run limit).1.machine.output from congrArg Machine.output machine]
    exact collects.symm
  have copied := read_close_run opened (congrArg Serial.sink serial) limit
  have printed := toUTF8_serialText (s := s) (congrArg Serial.styled serial) limit
  rw [chunks] at copied printed
  refine ⟨copied.1.trans (by rw [mk_eq_toByteArray]), copied.2, ?_, printed, ?_⟩
  · intro unwatched
    rw [serialText, ← Round.text_unwatched, ← unwatched]
    exact stdout.trans follows.stdout
  · rw [printed, mk_eq_toByteArray, List.toByteArray_inj, Serial.flatMap_encoding_eq_self]
    simp

/-- A program that writes the byte 200: the terminal gets two bytes for it. -/
theorem serial_output_two_bytes :
    let unit : Assembly :=
      ⟨[.reserve "x" .qword 1, .label "_start" none, .inst (.mov (.mem "x") (.imm "200")),
        .inst (.mov (.reg .rax) (.imm "1")), .inst (.mov (.reg .rsi) (.addr "x")),
        .inst (.mov (.reg .rdx) (.imm "1")), .inst .syscall, .inst (.mov (.reg .rax) (.imm "60")),
        .inst .syscall]⟩
    ∃ s : Session, Machine.load unit = .ok s.machine ∧
      Directory.create {} "out" = .ok (s.dir, .file "out") ∧ s.serial.styled = false ∧
      (s.run 20).1.close.dir.read "out" = .ok ⟨#[200]⟩ ∧
      (s.run 20).1.close.stdout.toUTF8 = ⟨#[195, 136]⟩ := by
  intro unit
  let session (m : Machine) : Session :=
    { machine := m
      serial := { sink := some { place := .file "out" } }
      dir := Directory.store {} ByteArray.empty (.file "out") }
  have facts : ((Machine.load unit).toOption.map fun m =>
      ((session m).run 20).1.close.machine.output.toList) = some [200] := by decide +kernel
  cases loaded : Machine.load unit with
  | error fault => simp [loaded, Except.toOption] at facts
  | ok m =>
    have leads : Directory.LeadsTo {} "out" (.file "out") := eq_ok_of_toOption (by decide +kernel)
    have written : ((session m).run 20).1.close.machine.output = #[200] :=
      Array.toList_inj.mp (by simpa [loaded, Except.toOption] using facts)
    obtain ⟨file, _, printed, bytes, _⟩ :=
      serial_output (s := session m) unit loaded leads.create rfl 20
    rw [written] at file bytes
    refine ⟨session m, rfl, leads.create, rfl, file, ?_⟩
    rw [printed rfl]
    exact (congrArg String.toUTF8 String.empty_append).trans bytes

end Session

end Monitor

end IonLang
