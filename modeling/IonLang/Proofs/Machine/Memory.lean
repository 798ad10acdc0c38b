import IonLang.Machine

/-!
# Data memory

What is written to an address is read back from it (`readMemory_written`), and a write leaves the
bytes apart from it alone (`readMemory_apart`).
-/

namespace IonLang.Machine

/-! ### Words as bytes -/

theorem length_bytesOfWord (word : UInt64) (size : Nat) : (bytesOfWord word size).length = size := by
  induction size generalizing word with
  | zero => rfl
  | succ size ih => rw [bytesOfWord, List.length_cons, ih]

theorem getLsbD_lowByte (word : UInt64) (i : Nat) :
    word.toUInt8.toUInt64.toBitVec.getLsbD i = (decide (i < 8) && word.toBitVec.getLsbD i) := by
  rw [UInt8.toBitVec_toUInt64, UInt64.toBitVec_toUInt8, BitVec.getLsbD_setWidth,
    BitVec.getLsbD_setWidth]
  by_cases small : i < 8
  · have : i < 64 := by omega
    simp [small, this]
  · simp [small]

/-- Bits that were taken from behind the lowest byte go back to their places. -/
theorem getLsbD_shifted {word upper : UInt64} {size : Nat}
    (bits : ∀ i, upper.toBitVec.getLsbD i =
      (decide (i < 8 * size) && (word >>> 8).toBitVec.getLsbD i)) (i : Nat) :
    (upper <<< 8).toBitVec.getLsbD i =
      (decide (8 ≤ i) && decide (i < 8 * (size + 1)) && word.toBitVec.getLsbD i) := by
  have up : (upper <<< 8).toBitVec.getLsbD i =
      (decide (i < 64) && !decide (i < 8) && upper.toBitVec.getLsbD (i - 8)) := by simp
  have down : (word >>> 8).toBitVec.getLsbD (i - 8) = word.toBitVec.getLsbD (8 + (i - 8)) := by simp
  rw [up, bits, down]
  by_cases small : i < 8
  · have : ¬ 8 ≤ i := by omega
    simp [small, this]
  · have large : 8 ≤ i := by omega
    have place : 8 + (i - 8) = i := by omega
    have same : i - 8 < 8 * size ↔ i < 8 * (size + 1) := by omega
    rw [place]
    by_cases wide : i < 64
    · simp [small, large, wide, same]
    · have : word.toBitVec.getLsbD i = false := BitVec.getLsbD_of_ge _ _ (by omega)
      simp [this]

theorem getLsbD_wordOfBytes (size : Nat) (word : UInt64) (i : Nat) :
    (wordOfBytes (bytesOfWord word size)).toBitVec.getLsbD i =
      (decide (i < 8 * size) && word.toBitVec.getLsbD i) := by
  induction size generalizing word i with
  | zero => simp [bytesOfWord, wordOfBytes]
  | succ size ih =>
    have upper := getLsbD_shifted (ih (word >>> 8)) i
    rw [bytesOfWord, wordOfBytes]
    simp only [UInt64.toBitVec_or, BitVec.getLsbD_or, getLsbD_lowByte, upper]
    by_cases small : i < 8
    · have : i < 8 * (size + 1) := by omega
      simp [small, this]
    · have : 8 ≤ i := by omega
      simp [small, this]

theorem wordOfBytes_bytesOfWord (word : UInt64) : wordOfBytes (bytesOfWord word 8) = word := by
  apply UInt64.toBitVec_inj.mp
  apply BitVec.eq_of_getLsbD_eq
  intro i small
  rw [getLsbD_wordOfBytes]
  simp [show i < 8 * 8 by omega]

/-- The byte of a word that is stored as one byte. -/
theorem toUInt8_wordOfBytes (word : UInt64) :
    (wordOfBytes (bytesOfWord word 1)).toUInt8 = word.toUInt8 := by
  apply UInt8.toBitVec_inj.mp
  apply BitVec.eq_of_getLsbD_eq
  intro i small
  rw [UInt64.toBitVec_toUInt8, UInt64.toBitVec_toUInt8, BitVec.getLsbD_setWidth,
    BitVec.getLsbD_setWidth, getLsbD_wordOfBytes]
  simp [small]

theorem wordOfBytes_zeros (size : Nat) : wordOfBytes (List.replicate size 0) = 0 := by
  induction size with
  | zero => rfl
  | succ size ih =>
    rw [List.replicate_succ, wordOfBytes, ih]
    rfl

/-! ### Writing -/

theorem size_overwrite (data : Array UInt8) (place : Nat) (bytes : List UInt8) :
    (overwrite data place bytes).size = data.size := by
  induction bytes generalizing data place with
  | nil => rfl
  | cons byte rest ih => rw [overwrite, ih, Array.size_setIfInBounds]

theorem getElem?_overwrite_before (bytes : List UInt8) {data : Array UInt8} {place i : Nat}
    (before : i < place) : (overwrite data place bytes)[i]? = data[i]? := by
  induction bytes generalizing data place with
  | nil => rfl
  | cons byte rest ih =>
    rw [overwrite, ih (by omega), Array.getElem?_setIfInBounds_ne (by omega)]

theorem getElem?_overwrite_behind (bytes : List UInt8) {data : Array UInt8} {place i : Nat}
    (behind : place + bytes.length ≤ i) : (overwrite data place bytes)[i]? = data[i]? := by
  induction bytes generalizing data place with
  | nil => rfl
  | cons byte rest ih =>
    rw [List.length_cons] at behind
    rw [overwrite, ih (by omega), Array.getElem?_setIfInBounds_ne (by omega)]

theorem getElem?_overwrite (bytes : List UInt8) {data : Array UInt8} {place k : Nat}
    (fits : place + bytes.length ≤ data.size) (inside : k < bytes.length) :
    (overwrite data place bytes)[place + k]? = bytes[k]? := by
  induction bytes generalizing data place k with
  | nil => simp at inside
  | cons byte rest ih =>
    rw [List.length_cons] at fits inside
    rw [overwrite]
    cases k with
    | zero =>
      rw [getElem?_overwrite_before rest (by omega)]
      simp [show place < data.size by omega]
    | succ k =>
      have moved : place + (k + 1) = place + 1 + k := by omega
      rw [moved, ih (by rw [Array.size_setIfInBounds]; omega) (by omega), List.getElem?_cons_succ]

theorem extract_overwrite (data : Array UInt8) (place : Nat) (bytes : List UInt8)
    (fits : place + bytes.length ≤ data.size) :
    ((overwrite data place bytes).extract place (place + bytes.length)).toList = bytes := by
  apply List.ext_getElem?
  intro k
  rw [Array.getElem?_toList, Array.getElem?_extract, size_overwrite, Nat.min_eq_left fits]
  split
  · next inside => rw [getElem?_overwrite bytes fits (by omega)]
  · next outside => rw [List.getElem?_eq_none (by omega)]

theorem extract_overwrite_apart (data : Array UInt8) {place start size : Nat} {bytes : List UInt8}
    (apart : start + size ≤ place ∨ place + bytes.length ≤ start) :
    (overwrite data place bytes).extract start (start + size) =
      data.extract start (start + size) := by
  apply Array.ext_getElem?
  intro k
  rw [Array.getElem?_extract, Array.getElem?_extract, size_overwrite]
  split
  · next inside =>
    rcases apart with before | behind
    · rw [getElem?_overwrite_before bytes (by omega)]
    · rw [getElem?_overwrite_behind bytes (by omega)]
  · rfl

theorem readMemory_congr {m m' : Machine} (same : m.data = m'.data) (address size : Nat) :
    m.readMemory address size = m'.readMemory address size := by
  rw [readMemory, readMemory, bytesAt?, bytesAt?, same]

def written (m : Machine) (address size : Nat) (value : UInt64) : Machine :=
  { m with data := overwrite m.data address (bytesOfWord value size) }

variable {m : Machine} {address size : Nat}

theorem writeMemory_eq (fits : address + size ≤ m.data.size) (value : UInt64) :
    m.writeMemory address size value = .ok (m.written address size value) :=
  if_pos fits

@[simp] theorem size_written (value : UInt64) :
    (m.written address size value).data.size = m.data.size :=
  size_overwrite ..

theorem readMemory_written (fits : address + size ≤ m.data.size) (value : UInt64) :
    (m.written address size value).readMemory address size =
      .ok (wordOfBytes (bytesOfWord value size)) := by
  have whole := extract_overwrite m.data address (bytesOfWord value size)
    (by rw [length_bytesOfWord]; exact fits)
  rw [length_bytesOfWord] at whole
  have bytes : (m.written address size value).bytesAt? address size =
      some (bytesOfWord value size) := by
    rw [bytesAt?, if_pos (by rw [size_written]; exact fits)]
    exact congrArg some whole
  rw [readMemory, bytes]

theorem readMemory_apart {start count : Nat}
    (apart : start + count ≤ address ∨ address + size ≤ start) (value : UInt64) :
    (m.written address size value).readMemory start count = m.readMemory start count := by
  have same : (m.written address size value).bytesAt? start count = m.bytesAt? start count := by
    rw [bytesAt?, bytesAt?, size_written]
    have distant : start + count ≤ address ∨ address + (bytesOfWord value size).length ≤ start := by
      rw [length_bytesOfWord]
      exact apart
    simp only [written, extract_overwrite_apart m.data distant]
  rw [readMemory, readMemory, same]

end IonLang.Machine
