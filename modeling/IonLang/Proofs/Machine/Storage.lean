import IonLang.Proofs.Machine.Fault
import IonLang.Proofs.Machine.Layout
import Mathlib.Algebra.Ring.Nat
import Mathlib.Data.List.Nodup
import Mathlib.Data.List.Pairwise
import Mathlib.Logic.Relation

/-!
# Data cells

The reservations of a unit lie in data memory one behind the other, in order and without a gap
(`divided_load`). An instruction changes data memory only by storing the bytes of its result into
its cell (`stores_execute`), so as long as the access is no larger than the region of the cell, every
other region keeps its bytes.
-/

namespace IonLang

structure Region where
  name : String
  start : Nat
  size : Nat

/-! ### Regions -/

namespace Region

def stop (r : Region) : Nat := r.start + r.size

/-- The regions lead from one address to another without a gap or an overlap. -/
def Tile : Nat → List Region → Nat → Prop
  | start, [], stop => start = stop
  | start, r :: rest, stop => r.start = start ∧ Tile r.stop rest stop

theorem Tile.bounds {start stop : Nat} {regions : List Region} (tile : Tile start regions stop) :
    start ≤ stop ∧ ∀ r ∈ regions, start ≤ r.start ∧ r.stop ≤ stop := by
  induction regions generalizing start with
  | nil => exact ⟨Nat.le_of_eq tile, fun r member => by cases member⟩
  | cons first rest ih =>
    obtain ⟨rfl, tile⟩ := tile
    obtain ⟨behind, inside⟩ := ih tile
    have grows : first.start ≤ first.stop := Nat.le_add_right _ _
    refine ⟨by omega, fun r member => ?_⟩
    rcases List.mem_cons.mp member with rfl | later
    · exact ⟨Nat.le_refl _, behind⟩
    · have := inside r later
      omega

theorem Tile.pairwise {start stop : Nat} {regions : List Region} (tile : Tile start regions stop) :
    regions.Pairwise fun r later => r.stop ≤ later.start := by
  induction regions generalizing start with
  | nil => exact .nil
  | cons first rest ih =>
    obtain ⟨_, tile⟩ := tile
    exact .cons (fun r later => (tile.bounds.2 r later).1) (ih tile)

end Region

namespace Machine

/-! ### Loading -/

def regions (m : Machine) (lines : List Line) : List Region :=
  (reservations lines).filterMap fun reserved =>
    (m.symbols.get? reserved.1).map fun start => ⟨reserved.1, start, reserved.2⟩

theorem regions_reserve {m : Machine} {name : String} {width : Width} {count start : Nat}
    (known : m.symbols.get? name = some start) (rest : List Line) :
    m.regions (.reserve name width count :: rest) =
      ⟨name, start, width.bytes * count⟩ :: m.regions rest := by
  simp [regions, reservations, Line.reserved?, Line.reservation?, known]

def layout : Nat → List (String × Nat) → List Region
  | _, [] => []
  | start, (name, size) :: rest => ⟨name, start, size⟩ :: layout (start + size) rest

variable {lines : List Line}

theorem regions_foldl (distinct : (cellNames lines).Nodup) (m : Machine) :
    (lines.foldl place m).regions lines = layout m.data.size (reservations lines) := by
  induction lines generalizing m with
  | nil => rfl
  | cons line rest ih =>
    cases line with
    | reserve name width count =>
      obtain ⟨fresh, distinct⟩ := List.nodup_cons.mp distinct
      have known : (rest.foldl place (m.place (.reserve name width count))).symbols.get? name =
          some m.data.size := by
        rw [get?_symbols_foldl fresh, place, Dictionary.get?_insert, if_pos rfl]
      have size : (m.place (.reserve name width count)).data.size =
          m.data.size + width.bytes * count := by
        rw [place, Array.size_append, Array.size_replicate]
      rw [List.foldl_cons, regions_reserve known, ih distinct, size]
      rfl
    | label | directive | inst => exact ih distinct _

theorem entries_foldl (m : Machine)
    (distinct : (m.symbols.entries.map Prod.fst ++ cellNames lines).Nodup) :
    (lines.foldl place m).symbols.entries = m.symbols.entries ++
      (layout m.data.size (reservations lines)).map fun r => (r.name, r.start) := by
  induction lines generalizing m with
  | nil => exact (List.append_nil _).symm
  | cons line rest ih =>
    cases line with
    | reserve name width count =>
      have size : (m.place (.reserve name width count)).data.size =
          m.data.size + width.bytes * count := by
        rw [place, Array.size_append, Array.size_replicate]
      have middle : (m.symbols.entries.map Prod.fst ++ name :: cellNames rest).Nodup := distinct
      have new : name ∉ m.symbols.entries.map Prod.fst := by
        rw [List.nodup_middle, List.nodup_cons, List.mem_append, not_or] at middle
        exact middle.1.1
      have entries : (m.place (.reserve name width count)).symbols.entries =
          m.symbols.entries ++ [(name, m.data.size)] := Dictionary.put_of_not_mem new _
      have later := ih (m.place (.reserve name width count)) (by rw [entries]; simpa using middle)
      rw [List.foldl_cons, later, entries, size, List.append_assoc]
      rfl
    | label | directive | inst => exact ih _ distinct

theorem tile_layout (start : Nat) (reserved : List (String × Nat)) :
    Region.Tile start (layout start reserved) (start + (reserved.map Prod.snd).sum) := by
  induction reserved generalizing start with
  | nil => exact rfl
  | cons first rest ih =>
    refine ⟨rfl, ?_⟩
    have later := ih (start + first.2)
    rw [Nat.add_assoc] at later
    exact later

theorem map_layout (start : Nat) (reserved : List (String × Nat)) :
    (layout start reserved).map (fun r => (r.name, r.size)) = reserved := by
  induction reserved generalizing start with
  | nil => rfl
  | cons first rest ih => rw [layout, List.map_cons, ih]

theorem storageSize_eq (lines : List Line) :
    storageSize lines = ((reservations lines).map Prod.snd).sum := by
  induction lines with
  | nil => rfl
  | cons line rest ih =>
    cases line with
    | reserve name width count =>
      rw [storageSize, ih]
      rfl
    | label | directive | inst => exact ih

end Machine

/-! ### What instructions store -/

def Operand.cell? (size : Nat) : Operand → Option (String × Nat)
  | mem label => some (label, size)
  | reg _ | imm _ | addr _ => none

def Operand.value? (m : Machine) (size : Nat) : Operand → Option UInt64
  | reg r => some (m.get r)
  | imm text => Text.wordOf? text
  | mem label => (m.symbols.get? label).bind fun address => (m.readMemory address size).toOption
  | addr label => (m.symbols.get? label).map UInt64.ofNat

namespace Instruction

/-- The cell that an instruction stores into, with the number of bytes: one if a move involves the
byte register, and eight otherwise. -/
def cell? : Instruction → Option (String × Nat)
  | mov dst src => dst.cell? (if dst = .reg .al ∨ src = .reg .al then 1 else 8)
  | add dst _ | sub dst _ | inc dst | dec dst => dst.cell? 8
  | _ => none

def result? (m : Machine) : Instruction → Option UInt64
  | mov dst src => src.value? m (if dst = .reg .al ∨ src = .reg .al then 1 else 8)
  | add dst src => (dst.value? m 8).bind fun a => (src.value? m 8).map fun b => a + b
  | sub dst src => (dst.value? m 8).bind fun a => (src.value? m 8).map fun b => a - b
  | inc op => (op.value? m 8).map (· + 1)
  | dec op => (op.value? m 8).map (· - 1)
  | _ => none

end Instruction

namespace Machine

variable {α β : Type} {m m' : Machine} {i : Instruction}

theorem moveSize_eq (dst src : Operand) :
    moveSize dst src = if dst = .reg .al ∨ src = .reg .al then 1 else 8 := by
  have byte (reg : Register) : reg.isByte = true ↔ reg = .al := by cases reg <;> decide
  cases dst <;> cases src <;> simp [moveSize, byte]

theorem value?_of_read {op : Operand} {size : Nat} {a : UInt64} (done : read size op m = .ok a m') :
    op.value? m size = some a := by
  cases op with
  | reg r =>
    cases done
    rfl
  | imm text =>
    cases denotes : Text.wordOf? text with
    | some word =>
      cases (read_imm denotes).symm.trans done
      exact denotes
    | none => cases (read_imm_error denotes).symm.trans done
  | mem label =>
    obtain ⟨address, known, fits⟩ := fits_of_read done
    have stored : m.readMemory address size =
        .ok (wordOfBytes (m.data.extract address (address + size)).toList) := by
      rw [readMemory, bytesAt?, if_pos fits]
    cases (read_mem known stored).symm.trans done
    simp [Operand.value?, known, stored, Except.toOption]
  | addr label =>
    cases known : m.symbols.get? label with
    | some address =>
      cases (read_addr known).symm.trans done
      simp [Operand.value?, known]
    | none => simp [read, query, Machine.address, known, Bind.bind, Except.bind] at done

theorem written_of_write {label : String} {size : Nat} {value : UInt64}
    (done : write size value (.mem label) m = .ok () m') :
    ∃ address, m.symbols.get? label = some address ∧ address + size ≤ m.data.size ∧
      m' = m.written address size value := by
  cases known : m.symbols.get? label with
  | none => simp [write, attempt, Machine.address, known, Bind.bind, Except.bind] at done
  | some address =>
    by_cases fits : address + size ≤ m.data.size
    · refine ⟨address, rfl, fits, ?_⟩
      cases (write_mem known fits value).symm.trans done
      rfl
    · simp [write, attempt, Machine.address, known, writeMemory, fits, Bind.bind, Except.bind] at done

def KeepsData (effect : Effect α) : Prop :=
  ∀ m a m', effect m = .ok a m' → m'.symbols = m.symbols ∧ m'.data = m.data

theorem Looks.bind_ok {first : Effect α} {next : α → Effect β} {b : β} (looks : Looks first)
    (done : (first >>= next) m = .ok b m') : ∃ a, first m = .ok a m ∧ next a m = .ok b m' := by
  obtain ⟨a, m₁, begun, rest⟩ := IonLang.bind_ok done
  obtain rfl := looks.of_ok begun
  exact ⟨a, begun, rest⟩

namespace KeepsData

theorem looks {effect : Effect α} (looks : Looks effect) : KeepsData effect := by
  intro m a m' done
  obtain rfl := looks.of_ok done
  exact ⟨rfl, rfl⟩

theorem bind {first : Effect α} {next : α → Effect β} (keeps : KeepsData first)
    (rest : ∀ a, KeepsData (next a)) : KeepsData (first >>= next) := by
  intro m b m' done
  obtain ⟨a, m₁, begun, done⟩ := bind_ok done
  obtain ⟨symbols, data⟩ := keeps m a m₁ begun
  obtain ⟨symbols', data'⟩ := rest a m₁ b m' done
  exact ⟨symbols'.trans symbols, data'.trans data⟩

theorem after {first : Effect α} {next : α → Effect β} (looks : Looks first)
    (rest : ∀ a, KeepsData (next a)) : KeepsData (first >>= next) :=
  bind (.looks looks) rest

theorem update {f : Machine → Machine}
    (kept : ∀ m, (f m).symbols = m.symbols ∧ (f m).data = m.data) : KeepsData (Machine.update f) := by
  intro m a m' done
  cases done
  exact kept m

theorem popEntry (pc : Nat) : KeepsData (Machine.popEntry pc) := by
  intro m entry m' done
  unfold Machine.popEntry at done
  split at done
  · cases done
  · cases done
    exact ⟨rfl, rfl⟩

theorem systemCall : KeepsData Machine.systemCall := by
  refine after (.observe _) fun number => ?_
  split
  · exact after (.observe _) fun length => after (.query fun _ _ => inCode_readBuffer) fun bytes =>
      bind (update fun _ => ⟨rfl, rfl⟩) fun _ => update fun _ => ⟨rfl, rfl⟩
  · split
    · exact update fun _ => ⟨rfl, rfl⟩
    · exact fun m a m' done => by cases done

end KeepsData

structure Stores (m : Machine) (i : Instruction) (m' : Machine) : Prop where
  symbols : m'.symbols = m.symbols
  idle : i.cell? = none → m'.data = m.data
  cell : ∀ label size, i.cell? = some (label, size) → ∃ address value,
    m.symbols.get? label = some address ∧ address + size ≤ m.data.size ∧
      i.result? m = some value ∧ m'.data = overwrite m.data address (bytesOfWord value size)

theorem KeepsData.stores {pc : Nat} (keeps : KeepsData (Machine.execute pc i))
    (plain : i.cell? = none) (done : Machine.execute pc i m = .ok () m') : m.Stores i m' := by
  obtain ⟨symbols, data⟩ := keeps m () m' done
  refine ⟨symbols, fun _ => data, fun label size found => ?_⟩
  rw [plain] at found
  cases found

theorem stores_write {m₁ : Machine} {dst : Operand} {size : Nat} {value : UInt64}
    (done : write size value dst m₁ = .ok () m') (symbols : m₁.symbols = m.symbols)
    (data : m₁.data = m.data) (cell : i.cell? = dst.cell? size) (result : i.result? m = some value) :
    m.Stores i m' := by
  cases dst with
  | imm text | addr text => cases done
  | reg reg =>
    cases done
    refine ⟨symbols, fun _ => data, fun label size found => ?_⟩
    rw [cell] at found
    cases found
  | mem label =>
    obtain ⟨address, known, fits, rfl⟩ := written_of_write done
    rw [symbols] at known
    rw [data] at fits
    refine ⟨symbols, fun found => ?_, fun other count found => ?_⟩
    · rw [cell] at found
      cases found
    · rw [cell] at found
      cases found
      exact ⟨address, value, known, fits, result, by rw [written, data]⟩

theorem stores_execute {pc : Nat} (done : execute pc i m = .ok () m') : m.Stores i m' := by
  cases i with
  | mov dst src =>
    obtain ⟨value, reads, writes⟩ := (Looks.read _ src).bind_ok done
    have result := value?_of_read reads
    rw [moveSize_eq] at result writes
    exact stores_write writes rfl rfl rfl result
  | add dst src | sub dst src =>
    obtain ⟨a, first, later⟩ := (Looks.read 8 dst).bind_ok done
    obtain ⟨b, second, last⟩ := (Looks.read 8 src).bind_ok later
    obtain ⟨_, m₁, flags, writes⟩ := bind_ok last
    cases flags
    refine stores_write writes rfl rfl rfl ?_
    simp [Instruction.result?, value?_of_read first, value?_of_read second]
  | inc op | dec op =>
    obtain ⟨a, first, later⟩ := (Looks.read 8 op).bind_ok done
    obtain ⟨_, m₁, flags, writes⟩ := bind_ok later
    cases flags
    refine stores_write writes rfl rfl rfl ?_
    simp [Instruction.result?, value?_of_read first]
  | movzx | set => exact KeepsData.stores (.update fun _ => ⟨rfl, rfl⟩) rfl done
  | imul dst src =>
    exact KeepsData.stores (.after (.observe _) fun _ => .after (.read 8 src) fun _ =>
      .update fun _ => ⟨rfl, rfl⟩) rfl done
  | neg reg =>
    exact KeepsData.stores (.after (.observe _) fun _ => .bind (.update fun _ => ⟨rfl, rfl⟩) fun _ =>
      .update fun _ => ⟨rfl, rfl⟩) rfl done
  | cmp lhs rhs =>
    exact KeepsData.stores (.after (.read 8 lhs) fun _ => .after (.read 8 rhs) fun _ =>
      .update fun _ => ⟨rfl, rfl⟩) rfl done
  | push reg =>
    exact KeepsData.stores (.after (.observe _) fun _ => .update fun _ => ⟨rfl, rfl⟩) rfl done
  | pop | ret =>
    exact KeepsData.stores (.bind (.popEntry pc) fun _ => .update fun _ => ⟨rfl, rfl⟩) rfl done
  | jmp label =>
    exact KeepsData.stores (.after (.target label) fun _ => .update fun _ => ⟨rfl, rfl⟩) rfl done
  | jcc cond label =>
    refine KeepsData.stores (.after (.observe _) fun taken => ?_) rfl done
    split
    · exact .after (.target label) fun _ => .update fun _ => ⟨rfl, rfl⟩
    · exact .looks fun m => .inl ⟨(), rfl⟩
  | call label =>
    exact KeepsData.stores (.after (.target label) fun _ => .after (.observe _) fun _ =>
      .bind (.update fun _ => ⟨rfl, rfl⟩) fun _ => .update fun _ => ⟨rfl, rfl⟩) rfl done
  | syscall => exact KeepsData.stores (execute_syscall pc ▸ .systemCall) rfl done

theorem step_ok {pc : Nat} (done : step m = .ok (pc, i) m') :
    execute m.pc i m.advance = .ok () m' := by
  cases fetched : m.code[m.pc]? with
  | none =>
    simp only [step, bind, EStateM.bind, observe, fetched] at done
    cases done
  | some j =>
    cases effect : execute m.pc j m.advance with
    | ok nothing m₁ =>
      cases (step_of_execute fetched effect).symm.trans done
      exact effect
    | error fault m₁ => cases (step_of_execute_error fetched effect).symm.trans done

theorem stores_step {pc : Nat} (done : step m = .ok (pc, i) m') : m.Stores i m' := by
  obtain ⟨symbols, idle, cell⟩ := stores_execute (step_ok done)
  have same : i.result? m.advance = i.result? m := by cases i <;> rfl
  rw [same] at cell
  exact ⟨symbols, idle, cell⟩

/-! ### Runs -/

/-- The next instruction leads from one state to the other, whether it fails or not. -/
def Proceeds (m m' : Machine) : Prop :=
  (∃ done, step m = .ok done m') ∨ ∃ fault, step m = .error fault m'

abbrev Reached : Machine → Machine → Prop := Relation.ReflTransGen Proceeds

theorem reached_runFrom (m : Machine) (steps limit : Nat) :
    Reached m (runFrom steps m limit).machine := by
  induction limit generalizing m steps with
  | zero => exact .refl
  | succ limit ih =>
    unfold runFrom
    split
    · exact .refl
    · split
      · next done m₁ same => exact .head (.inl ⟨done, same⟩) (ih m₁ (steps + 1))
      · next fault m₁ same => exact .single (.inr ⟨fault, same⟩)

theorem Stores.size_data (stores : m.Stores i m') : m'.data.size = m.data.size := by
  cases cell : i.cell? with
  | none => rw [stores.idle cell]
  | some access =>
    obtain ⟨address, value, _, _, _, data⟩ := stores.cell access.1 access.2 cell
    rw [data, size_overwrite]

theorem Proceeds.frame (proceeds : Proceeds m m') :
    m'.symbols = m.symbols ∧ m'.data.size = m.data.size := by
  rcases proceeds with ⟨⟨pc, i⟩, done⟩ | ⟨fault, failed⟩
  · have stores := stores_step done
    exact ⟨stores.symbols, stores.size_data⟩
  · rcases step_error failed with ⟨_, _, rfl⟩ | ⟨i, _, effect⟩
    · exact ⟨rfl, rfl⟩
    · rcases (spared_execute effect).1 with rfl | ⟨_, result, carry, rfl⟩
      · exact ⟨rfl, rfl⟩
      · exact ⟨rfl, rfl⟩

theorem Reached.frame (reached : Reached m m') :
    m'.symbols = m.symbols ∧ m'.data.size = m.data.size := by
  induction reached with
  | refl => exact ⟨rfl, rfl⟩
  | tail _ last ih => exact ⟨last.frame.1.trans ih.1, last.frame.2.trans ih.2⟩

/-! ### Regions of a loaded unit -/

/-- Data memory is divided among the reservations of a unit, in order and without a gap, and its
labels are the names of the regions. -/
structure Divided (m : Machine) (lines : List Line) : Prop where
  reserved : (m.regions lines).map (fun r => (r.name, r.size)) = reservations lines
  symbols : m.symbols.entries = (m.regions lines).map fun r => (r.name, r.start)
  apart : (m.regions lines).Pairwise fun r later => r.stop ≤ later.start
  tile : Region.Tile 0 (m.regions lines) m.data.size

theorem divided_load {unit : Assembly} (distinct : (cellNames unit.lines).Nodup)
    (loaded : load unit = .ok m) : m.Divided unit.lines := by
  have data : (unit.lines.foldl place {}).data.size = storageSize unit.lines := by
    simp [data_foldl]
  have regions := regions_foldl distinct {}
  have entries := entries_foldl {} distinct
  have tile := tile_layout 0 (reservations unit.lines)
  rw [← storageSize_eq, Nat.zero_add, ← data] at tile
  have divided : (unit.lines.foldl place {}).Divided unit.lines := by
    refine ⟨?_, ?_, ?_, ?_⟩
    · rw [regions]
      exact map_layout _ _
    · rw [regions]
      exact entries
    · rw [regions]
      exact tile.pairwise
    · rw [regions]
      exact tile
  unfold load at loaded
  dsimp only at loaded
  split at loaded
  · cases loaded
    exact ⟨divided.reserved, divided.symbols, divided.apart, divided.tile⟩
  · cases loaded

theorem get?_of_mem_regions {lines : List Line} {r : Region} (member : r ∈ m.regions lines) :
    m.symbols.get? r.name = some r.start := by
  obtain ⟨reserved, _, found⟩ := List.mem_filterMap.mp member
  obtain ⟨start, known, rfl⟩ := Option.map_eq_some_iff.mp found
  exact known

theorem Divided.exists_region {lines : List Line} {label : String} {address : Nat}
    (divided : m.Divided lines) (known : m.symbols.get? label = some address) :
    ∃ r ∈ m.regions lines, r.name = label ∧ r.start = address := by
  obtain ⟨front, back, entries, _⟩ := List.lookup_eq_some_iff.mp known
  have member : (label, address) ∈ m.symbols.entries := by simp [entries]
  rw [divided.symbols] at member
  obtain ⟨r, found, same⟩ := List.mem_map.mp member
  cases same
  exact ⟨r, found, rfl, rfl⟩

theorem Divided.distant {lines : List Line} {r other : Region} (divided : m.Divided lines)
    (member : r ∈ m.regions lines) (found : other ∈ m.regions lines) (apart : other.name ≠ r.name) :
    other.stop ≤ r.start ∨ r.stop ≤ other.start := by
  have symmetric : Std.Symm fun a b : Region => a.stop ≤ b.start ∨ b.stop ≤ a.start :=
    ⟨fun _ _ => Or.symm⟩
  have either : (m.regions lines).Pairwise fun a b => a.stop ≤ b.start ∨ b.stop ≤ a.start :=
    divided.apart.imp Or.inl
  exact either.forall found member fun same => apart (by rw [same])

/-- A value is stored into the front of a region: no byte changes outside, the value can be read
back, and the other regions keep their bytes and their quadwords. -/
structure StoredInto (m : Machine) (regions : List Region) (r : Region) (size : Nat) (value : UInt64)
    (m' : Machine) : Prop where
  outside : ∀ k, k < r.start ∨ r.start + size ≤ k → m'.data[k]? = m.data[k]?
  readBack : m'.readMemory r.start size = .ok (UInt64.ofNat (value.toNat % 2 ^ (8 * size)))
  others : ∀ other ∈ regions, other.name ≠ r.name → ∀ k, other.start ≤ k → k < other.stop →
    m'.data[k]? = m.data[k]?
  quadwords : ∀ other ∈ regions, other.name ≠ r.name → 8 ≤ other.size →
    m'.quadword? other.name = m.quadword? other.name

theorem wordOfBytes_bytesOfWord_mod (word : UInt64) (size : Nat) :
    wordOfBytes (bytesOfWord word size) = UInt64.ofNat (word.toNat % 2 ^ (8 * size)) := by
  apply UInt64.toBitVec_inj.mp
  apply BitVec.eq_of_getLsbD_eq
  intro i small
  have bits : (UInt64.ofNat (word.toNat % 2 ^ (8 * size))).toBitVec.getLsbD i =
      (decide (i < 64) && (word.toNat % 2 ^ (8 * size)).testBit i) := BitVec.getLsbD_ofNat ..
  rw [getLsbD_wordOfBytes, bits, Nat.testBit_mod_two_pow, decide_eq_true small, Bool.true_and]
  rfl

theorem storedInto_overwrite {lines : List Line} {r : Region} {size : Nat} {value : UInt64}
    (divided : m.Divided lines) (member : r ∈ m.regions lines) (within : size ≤ r.size)
    (fits : r.start + size ≤ m.data.size) (symbols : m'.symbols = m.symbols)
    (data : m'.data = overwrite m.data r.start (bytesOfWord value size)) :
    m.StoredInto (m.regions lines) r size value m' := by
  have same (address count : Nat) :
      m'.readMemory address count = (m.written r.start size value).readMemory address count :=
    readMemory_congr data address count
  have outside : ∀ k, k < r.start ∨ r.start + size ≤ k → m'.data[k]? = m.data[k]? := by
    intro k beyond
    rw [data]
    rcases beyond with before | behind
    · exact getElem?_overwrite_before _ before
    · exact getElem?_overwrite_behind _ (by rw [length_bytesOfWord]; exact behind)
  have distant : ∀ other ∈ m.regions lines, other.name ≠ r.name →
      other.stop ≤ r.start ∨ r.start + size ≤ other.start := by
    intro other found apart
    have stop : r.stop = r.start + r.size := rfl
    have := divided.distant member found apart
    omega
  refine ⟨outside, ?_, fun other found apart k low high => ?_, fun other found apart wide => ?_⟩
  · rw [same, readMemory_written fits, wordOfBytes_bytesOfWord_mod]
  · have := distant other found apart
    exact outside k (by omega)
  · have known := get?_of_mem_regions found
    have stop : other.stop = other.start + other.size := rfl
    have := distant other found apart
    have read : m'.readMemory other.start 8 = m.readMemory other.start 8 := by
      rw [same, readMemory_apart (by omega)]
    rw [quadword?, quadword?, address_eq known, address_eq (symbols ▸ known)]
    simp only [read]

theorem Divided.of_frame {lines : List Line} (divided : m.Divided lines)
    (symbols : m'.symbols = m.symbols) (size : m'.data.size = m.data.size) :
    m'.regions lines = m.regions lines ∧ m'.Divided lines := by
  have same : m'.regions lines = m.regions lines := by rw [regions, regions, symbols]
  refine ⟨same, ?_⟩
  constructor
  · rw [same]
    exact divided.reserved
  · rw [same, symbols]
    exact divided.symbols
  · rw [same]
    exact divided.apart
  · rw [same, size]
    exact divided.tile

/-- The reservations of a unit with names of their own divide data memory, whose size no run changes,
and an instruction that stores into a cell changes the front of the cell's region and nothing
else. -/
theorem cells_apart (unit : Assembly) (start : Machine)
    (distinct : (cellNames unit.lines).Nodup) (loaded : load unit = .ok start) :
    start.Divided unit.lines ∧
      (∀ limit, Reached start (runFrom 0 start limit).machine) ∧
      ∀ m, Reached start m → m.data.size = start.data.size ∧
        ∀ pc i m' label size, step m = .ok (pc, i) m' → i.cell? = some (label, size) →
          ∃ r ∈ start.regions unit.lines, r.name = label ∧
            (size ≤ r.size → ∃ value, i.result? m = some value ∧
              m.StoredInto (start.regions unit.lines) r size value m') := by
  have divided := divided_load distinct loaded
  refine ⟨divided, fun limit => reached_runFrom start 0 limit, fun m reached => ?_⟩
  obtain ⟨symbols, count⟩ := reached.frame
  refine ⟨count, fun pc i m' label size done access => ?_⟩
  obtain ⟨same, now⟩ := divided.of_frame symbols count
  have stores := stores_step done
  obtain ⟨address, value, known, fits, result, data⟩ := stores.cell label size access
  obtain ⟨r, member, named, rfl⟩ := now.exists_region known
  rw [← same]
  exact ⟨r, member, named, fun within => ⟨value, result,
    storedInto_overwrite now member within fits stores.symbols data⟩⟩

/-- A byte is stored directly before a quadword, by the second instruction of a run. -/
theorem cells_apart_byte :
    let unit : Assembly := ⟨[.reserve "cbuf" .byte 1, .reserve "var_0" .qword 1, .label "_start" none,
      .inst (.mov (.reg .al) (.imm "7")), .inst (.mov (.mem "cbuf") (.reg .al))]⟩
    ∃ start m m', load unit = .ok start ∧ Reached start m ∧
      step m = .ok (1, .mov (.mem "cbuf") (.reg .al)) m' ∧
      m.StoredInto [⟨"cbuf", 0, 1⟩, ⟨"var_0", 1, 8⟩] ⟨"cbuf", 0, 1⟩ 1 7 m' := by
  intro unit
  let start : Machine := { unit.lines.foldl place {} with pc := 0 }
  let m : Machine := start.advance.set .al 7
  have loaded : load unit = .ok start := rfl
  have first : Reached start m := .single (.inl ⟨(0, _), rfl⟩)
  have regions : start.regions unit.lines = [⟨"cbuf", 0, 1⟩, ⟨"var_0", 1, 8⟩] := rfl
  obtain ⟨_, _, reachable⟩ := cells_apart unit start (by decide) loaded
  obtain ⟨m', done⟩ : ∃ m', step m = .ok (1, .mov (.mem "cbuf") (.reg .al)) m' := ⟨_, rfl⟩
  obtain ⟨_, stored⟩ := reachable m first
  obtain ⟨r, member, named, into⟩ := stored _ _ _ "cbuf" 1 done rfl
  rw [regions] at member into
  rcases List.mem_cons.mp member with rfl | later
  · obtain ⟨value, result, stores⟩ := into (Nat.le_refl 1)
    have seven : m.get .al = 7 := by decide
    cases result
    rw [seven] at stores
    exact ⟨start, m, m', loaded, first, done, stores⟩
  · obtain rfl := List.mem_singleton.mp later
    exact absurd named (by decide)

end Machine

end IonLang
