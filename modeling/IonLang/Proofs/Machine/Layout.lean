import IonLang.Proofs.Code.Label
import IonLang.Proofs.Machine.Execution

/-!
# Layout of a unit

After a unit has been loaded, its instructions stand in code memory in order, its labels mark the
places of the instructions behind them (`Placed`), and its storage is laid out in order (`Laid`).
`placed_foldl` shows it for units whose names are distinct.
-/

namespace IonLang

def codeSize : List Line → Nat
  | [] => 0
  | .inst _ :: rest => codeSize rest + 1
  | .directive _ :: rest | .reserve .. :: rest | .label .. :: rest => codeSize rest

@[simp] theorem codeSize_nil : codeSize [] = 0 := rfl

@[simp] theorem codeSize_inst (i : Instruction) (rest : List Line) :
    codeSize (.inst i :: rest) = codeSize rest + 1 := rfl

@[simp] theorem codeSize_plainLabel (name : String) (rest : List Line) :
    codeSize (.plainLabel name :: rest) = codeSize rest := rfl

@[simp] theorem codeSize_testZero (rest : List Line) :
    codeSize (Snippet.testZero :: rest) = codeSize rest + 1 := rfl

@[simp] theorem codeSize_append (front back : List Line) :
    codeSize (front ++ back) = codeSize front + codeSize back := by
  induction front with
  | nil => simp
  | cons line rest ih =>
    cases line with
    | inst i =>
      rw [List.cons_append, codeSize_inst, codeSize_inst, ih]
      omega
    | directive | reserve | label => exact ih

namespace Machine

variable {image : Machine}

/-- The lines stand in code memory from a place on. -/
def Placed (image : Machine) : Nat → List Line → Prop
  | _, [] => True
  | pc, .inst i :: rest => image.code[pc]? = some i ∧ image.Placed (pc + 1) rest
  | pc, .label name _ :: rest => image.labels.get? name = some pc ∧ image.Placed pc rest
  | pc, .directive _ :: rest | pc, .reserve .. :: rest => image.Placed pc rest

@[simp] theorem placed_nil (pc : Nat) : image.Placed pc [] := trivial

@[simp] theorem placed_inst {pc : Nat} {i : Instruction} {rest : List Line} :
    image.Placed pc (.inst i :: rest) ↔ image.code[pc]? = some i ∧ image.Placed (pc + 1) rest :=
  Iff.rfl

@[simp] theorem placed_plainLabel {pc : Nat} {name : String} {rest : List Line} :
    image.Placed pc (.plainLabel name :: rest) ↔
      image.labels.get? name = some pc ∧ image.Placed pc rest :=
  Iff.rfl

@[simp] theorem placed_append {pc : Nat} {front back : List Line} :
    image.Placed pc (front ++ back) ↔
      image.Placed pc front ∧ image.Placed (pc + codeSize front) back := by
  induction front generalizing pc with
  | nil => simp
  | cons line rest ih =>
    cases line with
    | inst i =>
      have moved : pc + codeSize (.inst i :: rest) = pc + 1 + codeSize rest := by
        rw [codeSize_inst]
        omega
      rw [List.cons_append, placed_inst, placed_inst, ih, moved, and_assoc]
    | label name comment =>
      simp only [List.cons_append, Placed, ih, and_assoc]
      rfl
    | directive | reserve => exact ih

/-- The storage of the lines is laid out from an address on. -/
def Laid (image : Machine) : Nat → List Line → Prop
  | _, [] => True
  | address, .reserve name width count :: rest =>
    image.symbols.get? name = some address ∧ image.Laid (address + width.bytes * count) rest
  | address, .inst _ :: rest | address, .label .. :: rest | address, .directive _ :: rest =>
    image.Laid address rest

/-! ### Loading -/

theorem getElem?_code_foldl {m : Machine} {pc : Nat} {i : Instruction} (here : m.code[pc]? = some i)
    (lines : List Line) : (lines.foldl place m).code[pc]? = some i := by
  induction lines generalizing m with
  | nil => exact here
  | cons line rest ih =>
    refine ih ?_
    cases line with
    | inst other =>
      obtain ⟨inside, _⟩ := Array.getElem?_eq_some_iff.mp here
      rw [place, Array.getElem?_push_lt inside]
      rw [← here, Array.getElem?_eq_getElem inside]
    | directive | reserve | label => exact here

theorem get?_labels_foldl {lines : List Line} {name : String} (absent : name ∉ definedNames lines)
    (m : Machine) : (lines.foldl place m).labels.get? name = m.labels.get? name := by
  induction lines generalizing m with
  | nil => rfl
  | cons line rest ih =>
    cases line with
    | label other comment =>
      rw [definedNames_label, List.mem_cons, not_or] at absent
      rw [List.foldl_cons, ih absent.2, place, Dictionary.get?_insert, if_neg absent.1]
    | reserve other width count =>
      rw [definedNames_reserve, List.mem_cons, not_or] at absent
      exact ih absent.2 _
    | directive | inst => exact ih absent _

theorem get?_symbols_foldl {lines : List Line} {name : String} (absent : name ∉ cellNames lines)
    (m : Machine) : (lines.foldl place m).symbols.get? name = m.symbols.get? name := by
  induction lines generalizing m with
  | nil => rfl
  | cons line rest ih =>
    cases line with
    | reserve other width count =>
      rw [cellNames_reserve, List.mem_cons, not_or] at absent
      rw [List.foldl_cons, ih absent.2, place, Dictionary.get?_insert, if_neg absent.1]
    | label | directive | inst => exact ih absent _

/-- Loading lines puts them behind what is there. -/
theorem placed_foldl {lines : List Line} (distinct : (definedNames lines).Nodup) (m : Machine) :
    (lines.foldl place m).Placed m.code.size lines := by
  induction lines generalizing m with
  | nil => trivial
  | cons line rest ih =>
    cases line with
    | inst i =>
      have others := ih distinct (m.place (.inst i))
      have size : (m.place (.inst i)).code.size = m.code.size + 1 := Array.size_push i
      rw [size] at others
      refine ⟨getElem?_code_foldl ?_ rest, others⟩
      rw [place, Array.getElem?_push_size]
    | label name comment =>
      rw [definedNames_label, List.nodup_cons] at distinct
      refine ⟨?_, ih distinct.2 (m.place (.label name comment))⟩
      rw [List.foldl_cons, get?_labels_foldl distinct.1, place, Dictionary.get?_insert, if_pos rfl]
    | reserve name width count =>
      rw [definedNames_reserve, List.nodup_cons] at distinct
      exact ih distinct.2 (m.place (.reserve name width count))
    | directive text => exact ih distinct m

theorem laid_foldl {lines : List Line} (distinct : (definedNames lines).Nodup) (m : Machine) :
    (lines.foldl place m).Laid m.data.size lines := by
  induction lines generalizing m with
  | nil => trivial
  | cons line rest ih =>
    cases line with
    | reserve name width count =>
      rw [definedNames_reserve, List.nodup_cons] at distinct
      have others := ih distinct.2 (m.place (.reserve name width count))
      have size : (m.place (.reserve name width count)).data.size =
          m.data.size + width.bytes * count := by
        rw [place, Array.size_append, Array.size_replicate]
      rw [size] at others
      have fresh : name ∉ cellNames rest := fun reserved => distinct.1 (cellNames_subset rest reserved)
      refine ⟨?_, others⟩
      rw [List.foldl_cons, get?_symbols_foldl fresh, place, Dictionary.get?_insert, if_pos rfl]
    | label name comment =>
      rw [definedNames_label, List.nodup_cons] at distinct
      exact ih distinct.2 (m.place (.label name comment))
    | inst i => exact ih distinct (m.place (.inst i))
    | directive text => exact ih distinct m

def storageSize : List Line → Nat
  | [] => 0
  | .reserve _ width count :: rest => width.bytes * count + storageSize rest
  | .directive _ :: rest | .inst _ :: rest | .label .. :: rest => storageSize rest

theorem data_foldl (lines : List Line) (m : Machine) :
    (lines.foldl place m).data = m.data ++ Array.replicate (storageSize lines) 0 := by
  induction lines generalizing m with
  | nil => simp [storageSize]
  | cons line rest ih =>
    rw [List.foldl_cons, ih]
    cases line with
    | reserve name width count =>
      rw [place, storageSize, Array.append_assoc, Array.replicate_append_replicate]
    | label | inst | directive => rfl

/-- Loading changes nothing but code, data and their labels. -/
theorem foldl_place_rest (lines : List Line) (m : Machine) :
    ∃ symbols data labels code,
      lines.foldl place m = { m with symbols, data, labels, code } := by
  induction lines generalizing m with
  | nil => exact ⟨_, _, _, _, rfl⟩
  | cons line rest ih =>
    obtain ⟨symbols, data, labels, code, same⟩ := ih (m.place line)
    rw [List.foldl_cons, same]
    cases line with
    | reserve | label | inst | directive => exact ⟨_, _, _, _, rfl⟩

theorem load_fresh {unit : Assembly} {m : Machine} (loaded : load unit = .ok m) :
    m.output = #[] ∧ m.pending = #[] ∧ m.exit = none := by
  obtain ⟨symbols, data, labels, code, same⟩ := foldl_place_rest unit.lines {}
  rw [load, same] at loaded
  split at loaded
  · cases loaded
    exact ⟨rfl, rfl, rfl⟩
  · cases loaded

end Machine

end IonLang
