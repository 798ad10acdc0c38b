import IonLang.Directory

/-!
# Paths and what is stored

`LeadsTo dir path place` says that a path can be opened for writing and which place that is. Bytes
that are stored at a place are read back by the paths that lead there, no other file changes, and no
path leads anywhere else than before (`LeadsTo.store`). This rests on two facts: a location can be
read back from its path (`start_append_names_join`), and the folders on the way to a place are
there before the place is written (`Walked`).
-/

namespace IonLang.Directory

/-! ### Locations and their paths -/

def IsName (name : String) : Prop := name ≠ "" ∧ '/' ∉ name.toList

inductive Proper : Location → Prop
  | relative {names : List String} (valid : ∀ name ∈ names, IsName name) : Proper names
  | rooted {names : List String} (valid : ∀ name ∈ names, IsName name) : Proper ("/" :: names)

theorem not_mem_of_mem_splitOn {text part : List Char} (member : part ∈ text.splitOn '/') :
    '/' ∉ part := by
  induction text generalizing part with
  | nil =>
    rw [List.splitOn_nil, List.mem_singleton] at member
    simp [member]
  | cons c rest ih =>
    rw [List.splitOn_cons_eq_if_modifyHead] at member
    by_cases slash : c = '/'
    · rw [if_pos (beq_iff_eq.mpr slash), List.mem_cons] at member
      rcases member with rfl | later
      · exact List.not_mem_nil
      · exact ih later
    · rw [if_neg (by simpa using slash)] at member
      cases parts : rest.splitOn '/' with
      | nil => exact absurd parts (List.splitOn_ne_nil _ _)
      | cons first others =>
        rw [parts, List.modifyHead_cons, List.mem_cons] at member
        rw [parts] at ih
        rcases member with rfl | later
        · simp [Ne.symm slash, ih List.mem_cons_self]
        · exact ih (List.mem_cons_of_mem _ later)

theorem isName_of_mem_names {path name : String} (member : name ∈ names path) : IsName name := by
  obtain ⟨among, filled⟩ := List.mem_filter.mp member
  obtain ⟨part, split, rfl⟩ := List.mem_map.mp among
  refine ⟨by simpa using filled, ?_⟩
  rw [String.toList_ofList]
  exact not_mem_of_mem_splitOn split

theorem filter_splitOn_intercalate {names : List String} (valid : ∀ name ∈ names, IsName name) :
    (((['/'].intercalate (names.map String.toList)).splitOn '/').map String.ofList).filter (· != "") =
      names := by
  cases names with
  | nil => rfl
  | cons name rest =>
    have separate : ∀ part ∈ (name :: rest).map String.toList, '/' ∉ part := by
      intro part member
      obtain ⟨word, among, rfl⟩ := List.mem_map.mp member
      exact (valid word among).2
    rw [List.splitOn_intercalate _ separate (by simp), List.map_map]
    simp only [Function.comp_def, String.ofList_toList, List.map_id_fun', id]
    apply List.filter_eq_self.mpr
    intro word among
    simpa using (valid word among).1

theorem join_relative {names : List String} (valid : ∀ name ∈ names, IsName name) :
    join names = "/".intercalate names := by
  unfold join
  split
  · next rest => exact absurd (by decide) (valid "/" List.mem_cons_self).2
  · rfl

theorem start_relative {names : List String} (valid : ∀ name ∈ names, IsName name) :
    start ("/".intercalate names) = [] := by
  unfold start isRooted
  rw [if_neg]
  intro slash
  rw [String.toList_intercalate] at slash
  cases names with
  | nil => simp at slash
  | cons name rest =>
    obtain ⟨filled, separate⟩ := valid name List.mem_cons_self
    cases spelled : name.toList with
    | nil => exact filled (by rwa [String.toList_eq_nil_iff] at spelled)
    | cons c cs =>
      rw [spelled] at separate
      cases rest with
      | nil => simp_all [List.intercalate]
      | cons next others => simp_all [List.intercalate]

/-- The walk along the path of a location comes to the location. -/
theorem start_append_names_join {location : Location} (proper : Proper location) :
    start (join location) ++ names (join location) = location := by
  cases proper with
  | relative valid =>
    rw [join_relative valid, start_relative valid, names, String.toList_intercalate]
    exact filter_splitOn_intercalate valid
  | @rooted rest valid =>
    have text : (join ("/" :: rest)).toList = '/' :: ['/'].intercalate (rest.map String.toList) := by
      rw [join, String.toList_append, String.toList_intercalate]
      rfl
    have begins : start (join ("/" :: rest)) = ["/"] := by
      unfold start isRooted
      rw [text]
      rfl
    rw [begins, names, text, List.splitOn_cons_eq_if_modifyHead, if_pos (beq_self_eq_true _),
      List.map_cons, List.filter_cons_of_neg (by decide), filter_splitOn_intercalate valid]
    rfl

theorem Proper.join_inj {first second : Location} (one : Proper first) (two : Proper second)
    (same : join first = join second) : first = second := by
  rw [← start_append_names_join one, same, start_append_names_join two]

/-! ### Walks -/

variable {dir : Directory}

/-- A location where a walk can be: all folders around it are there. -/
structure Walked (dir : Directory) (here : Location) : Prop where
  proper : Proper here
  folders : ∀ outer, outer <+: here → dir.hasFolder outer = true

theorem walked_start (dir : Directory) (path : String) : Walked dir (start path) := by
  unfold start
  split
  · refine ⟨.rooted (by simp), fun outer inside => ?_⟩
    rcases List.prefix_cons_iff.mp inside with rfl | ⟨rest, rfl, empty⟩
    · rfl
    · rw [List.prefix_nil.mp empty]
      rfl
  · refine ⟨.relative (by simp), fun outer inside => ?_⟩
    rw [List.prefix_nil.mp inside]
    rfl

theorem Walked.around {here : Location} (walked : Walked dir here) : Walked dir (around here) := by
  unfold Directory.around
  split
  · exact walked
  · next notRoot =>
    split
    · next outwards =>
      have upwards : ∀ name ∈ ".." :: here, name = ".." := by
        simpa using outwards
      refine ⟨.relative fun name member => ?_, fun outer inside => ?_⟩
      · rw [upwards name member]
        exact ⟨by decide, by decide⟩
      · have given : isGiven outer = true := by
          have all : outer.all (· == "..") = true := by
            rw [List.all_eq_true]
            exact fun name member => beq_iff_eq.mpr (upwards name (inside.subset member))
          simp only [isGiven, all, Bool.true_or]
        rw [hasFolder, given, Bool.true_or, Bool.true_or]
    · refine ⟨?_, fun outer inside =>
        walked.folders outer (inside.trans (List.dropLast_prefix here))⟩
      cases walked.proper with
      | relative valid =>
        exact .relative fun name member => valid name ((List.dropLast_prefix _).subset member)
      | @rooted rest valid =>
        cases rest with
        | nil => exact absurd rfl notRoot
        | cons name rest =>
          exact .rooted fun name member => valid name ((List.dropLast_prefix _).subset member)

theorem Proper.append {here : Location} (proper : Proper here) {name : String} (valid : IsName name) :
    Proper (here ++ [name]) := by
  have extended {names : List String} (all : ∀ name ∈ names, IsName name) :
      ∀ other ∈ names ++ [name], IsName other := by
    intro other member
    rcases List.mem_append.mp member with before | last
    · exact all other before
    · rwa [List.mem_singleton.mp last]
  cases proper with
  | relative all => exact .relative (extended all)
  | rooted all => exact .rooted (extended all)

theorem hasFolder_of_entry? {location : Location} (found : dir.entry? location = some .folder) :
    dir.hasFolder location = true := by
  unfold entry? at found
  split at found
  · cases found
  · split at found
    · cases found
    · split at found
      · assumption
      · cases found

theorem enter_cases {here there : Location} {name : String}
    (entered : dir.enter here name = .ok there) :
    there = follow here name ∧ (name = "." ∨ name = ".." ∨
      there = here ++ [name] ∧ dir.entry? there = some .folder) := by
  unfold enter at entered
  by_cases stay : name = "."
  · subst stay
    cases entered
    exact ⟨rfl, .inl rfl⟩
  by_cases leave : name = ".."
  · subst leave
    cases entered
    exact ⟨rfl, .inr (.inl rfl)⟩
  have ahead : follow here name = here ++ [name] := by simp [follow, stay, leave]
  simp only [beq_false_of_ne stay, beq_false_of_ne leave, Bool.or_self, Bool.false_eq_true,
    ↓reduceIte] at entered
  split at entered
  · cases entered
  · split at entered
    · next found =>
      cases entered
      exact ⟨rfl, .inr (.inr ⟨ahead, found⟩)⟩
    · cases entered
    · cases entered

theorem Walked.enter {here there : Location} {name : String} (walked : Walked dir here)
    (valid : IsName name) (entered : dir.enter here name = .ok there) : Walked dir there := by
  obtain ⟨rfl, rfl | rfl | ⟨ahead, found⟩⟩ := enter_cases entered
  · exact walked
  · exact walked.around
  · rw [ahead] at found ⊢
    refine ⟨walked.proper.append valid, fun outer inside => ?_⟩
    rcases List.prefix_concat_iff.mp inside with rfl | before
    · exact hasFolder_of_entry? found
    · exact walked.folders outer before

theorem Walked.foldlM {names : List String} {here there : Location} (walked : Walked dir here)
    (valid : ∀ name ∈ names, IsName name) (went : names.foldlM dir.enter here = .ok there) :
    Walked dir there := by
  induction names generalizing here with
  | nil =>
    cases went
    exact walked
  | cons name rest ih =>
    rw [List.foldlM_cons] at went
    cases entered : dir.enter here name with
    | error fault =>
      rw [entered] at went
      cases went
    | ok next =>
      rw [entered] at went
      exact ih (walked.enter (valid name List.mem_cons_self) entered)
        (fun other member => valid other (List.mem_cons_of_mem _ member)) went

theorem walk_name {path name : String} {folder : Location} {slash : Bool}
    (walked : dir.walk path = .ok (.name folder name slash)) :
    (names path).dropLast.foldlM dir.enter (start path) = .ok folder ∧ name ∈ names path := by
  unfold walk at walked
  simp only [bind, Except.bind, pure, Except.pure] at walked
  split at walked
  · cases walked
  split at walked
  · cases walked
  split at walked
  · cases walked
  cases went : (names path).dropLast.foldlM dir.enter (start path) with
  | error fault =>
    rw [went] at walked
    cases walked
  | ok here =>
    rw [went] at walked
    dsimp only at walked
    split at walked
    · cases walked
    · cases walked
    · cases walked
    · next _ last =>
      cases walked
      exact ⟨rfl, List.mem_of_getLast? last⟩

/-! ### Opening -/

/-- A location at which a file can be opened. It lies in a folder and is none. -/
structure Openable (dir : Directory) (location : Location) : Prop where
  proper : Proper location
  folders : ∀ outer, outer <+: location → outer ≠ location → dir.hasFolder outer = true
  noFolder : dir.entry? location ≠ some .folder

def placeAt (dir : Directory) (location : Location) : Entry :=
  (dir.entry? location).getD (.place (.file (join location)))

def store (dir : Directory) (bytes : ByteArray) : Place → Directory
  | .file name => { dir with files := dir.files.insert name bytes }
  | .device _ => dir

/-- The path can be opened for writing, and this is the place. -/
def LeadsTo (dir : Directory) (path : String) (place : Place) : Prop :=
  (dir.create path).map Prod.snd = .ok place

theorem create_eq {path name : String} {folder : Location}
    (walked : dir.walk path = .ok (.name folder name false))
    (short : ¬nameLimit < name.utf8ByteSize) :
    dir.create path = match dir.placeAt (folder ++ [name]) with
      | .folder => .error .isADirectory
      | .place place => .ok (dir.store ByteArray.empty place, place) := by
  unfold create placeAt
  rw [walked]
  simp only [bind, Except.bind, Bool.false_eq_true, short, ↓reduceIte]
  cases (dir.entry? (folder ++ [name])).getD (.place (.file (join (folder ++ [name])))) with
  | folder => rfl
  | place place =>
    cases place with
    | file name => rfl
    | device device => rfl

theorem leadsTo_iff {path : String} {place : Place} :
    dir.LeadsTo path place ↔ ∃ folder name, dir.walk path = .ok (.name folder name false) ∧
      ¬nameLimit < name.utf8ByteSize ∧ dir.placeAt (folder ++ [name]) = .place place := by
  constructor
  · intro leads
    unfold LeadsTo at leads
    cases walked : dir.walk path with
    | error fault =>
      rw [create, walked] at leads
      cases leads
    | ok goal =>
      cases goal with
      | folder =>
        rw [create, walked] at leads
        cases leads
      | name folder name slash =>
        cases slash with
        | true =>
          rw [create, walked] at leads
          cases leads
        | false =>
          by_cases long : nameLimit < name.utf8ByteSize
          · rw [create, walked] at leads
            simp only [bind, Except.bind, Bool.false_eq_true, long, ↓reduceIte] at leads
            cases leads
          · rw [create_eq walked long] at leads
            refine ⟨folder, name, rfl, long, ?_⟩
            cases found : dir.placeAt (folder ++ [name]) with
            | folder =>
              rw [found] at leads
              cases leads
            | place other =>
              rw [found] at leads
              cases leads
              rfl
  · rintro ⟨folder, name, walked, short, found⟩
    rw [LeadsTo, create_eq walked short, found]
    rfl

theorem openable_of_walk {path name : String} {folder : Location} {slash : Bool} {place : Place}
    (walked : dir.walk path = .ok (.name folder name slash))
    (found : dir.placeAt (folder ++ [name]) = .place place) : Openable dir (folder ++ [name]) := by
  obtain ⟨went, member⟩ := walk_name walked
  have reached : Walked dir folder := (walked_start dir path).foldlM
    (fun other inside => isName_of_mem_names ((List.dropLast_prefix _).subset inside)) went
  refine ⟨reached.proper.append (isName_of_mem_names member), fun outer inside other => ?_,
    fun isFolder => ?_⟩
  · rcases List.prefix_concat_iff.mp inside with same | before
    · exact absurd same other
    · exact reached.folders outer before
  · rw [placeAt, isFolder] at found
    cases found

theorem entry?_file {location : Location} {path : String}
    (found : dir.placeAt location = .place (.file path)) :
    path = join location ∧ devices.lookup location = none := by
  unfold placeAt entry? at found
  cases device : devices.lookup location with
  | some device =>
    rw [device] at found
    cases found
  | none =>
    rw [device] at found
    dsimp only at found
    split at found
    · cases found
      exact ⟨rfl, rfl⟩
    · split at found
      · cases found
      · cases found
        exact ⟨rfl, rfl⟩

/-! ### Storing -/

namespace Openable

variable {location : Location} (openable : Openable dir location) (bytes : ByteArray)

include openable

/-- A file that is written does not make a folder of anything. -/
theorem hasFolder_store (other : Location) :
    (dir.store bytes (.file (join location))).hasFolder other = dir.hasFolder other := by
  simp only [hasFolder, store, Dictionary.keys_insert]
  split
  · rfl
  · rw [List.any_append, List.any_cons, List.any_nil, Bool.or_false,
      start_append_names_join openable.proper, ← Bool.or_assoc]
    cases implied : other.isPrefixOf location && join other != join location with
    | false => rw [Bool.or_false]
    | true =>
      -- A folder that the new file implies was walked through.
      rw [Bool.and_eq_true, List.isPrefixOf_iff_prefix, bne_iff_ne] at implied
      have found := openable.folders other implied.1 fun same => implied.2 (congrArg join same)
      unfold hasFolder at found
      rw [found, Bool.true_or]

theorem entry?_store {other : Location} (proper : Proper other) (apart : other ≠ location) :
    entry? (dir.store bytes (.file (join location))) other = dir.entry? other := by
  have paths : join other ≠ join location := fun same =>
    apart (proper.join_inj openable.proper same)
  have contains : (dir.store bytes (.file (join location))).files.contains (join other) =
      dir.files.contains (join other) := by
    simp only [store, Dictionary.contains, Dictionary.get?_insert, paths, ↓reduceIte]
  unfold entry?
  rw [contains, openable.hasFolder_store]

theorem enter_store {here there : Location} {name : String} (entered : dir.enter here name = .ok there)
    (proper : Proper there) :
    (dir.store bytes (.file (join location))).enter here name = .ok there := by
  obtain ⟨rfl, rfl | rfl | ⟨ahead, found⟩⟩ := enter_cases entered
  · rfl
  · rfl
  · have apart : follow here name ≠ location := by
      intro same
      rw [same] at found
      exact openable.noFolder found
    rw [← entered, enter, openable.entry?_store bytes proper apart, enter]

theorem foldlM_store {names : List String} {here there : Location} (walked : Walked dir here)
    (valid : ∀ name ∈ names, IsName name) (went : names.foldlM dir.enter here = .ok there) :
    names.foldlM (dir.store bytes (.file (join location))).enter here = .ok there := by
  induction names generalizing here with
  | nil => exact went
  | cons name rest ih =>
    rw [List.foldlM_cons] at went ⊢
    cases entered : dir.enter here name with
    | error fault =>
      rw [entered] at went
      cases went
    | ok next =>
      have reached := walked.enter (valid name List.mem_cons_self) entered
      rw [entered] at went
      rw [openable.enter_store bytes entered reached.proper]
      exact ih reached (fun other member => valid other (List.mem_cons_of_mem _ member)) went

theorem walk_store {path name : String} {folder : Location} {slash : Bool}
    (walked : dir.walk path = .ok (.name folder name slash)) :
    (dir.store bytes (.file (join location))).walk path = .ok (.name folder name slash) := by
  obtain ⟨went, _⟩ := walk_name walked
  have again := openable.foldlM_store bytes (walked_start dir path)
    (fun other inside => isName_of_mem_names ((List.dropLast_prefix _).subset inside)) went
  rw [← walked, walk, again, walk, went]

end Openable

theorem entry?_store_self (bytes : ByteArray) {location : Location}
    (noDevice : devices.lookup location = none) :
    entry? (dir.store bytes (.file (join location))) location =
      some (.place (.file (join location))) := by
  have contains : (dir.store bytes (.file (join location))).files.contains (join location) = true := by
    simp [store, Dictionary.contains, Dictionary.get?_insert]
  unfold entry?
  rw [noDevice, contains]
  rfl

theorem get?_store (bytes : ByteArray) (place : Place) (key : String) :
    (dir.store bytes place).files.get? key =
      if place = .file key then some bytes else dir.files.get? key := by
  cases place with
  | device device => rfl
  | file name =>
    rw [store, Dictionary.get?_insert]
    by_cases same : key = name
    · simp [same]
    · simp [same, Ne.symm same]

theorem folders_store (bytes : ByteArray) (place : Place) :
    (dir.store bytes place).folders = dir.folders := by
  cases place with
  | file name => rfl
  | device device => rfl

/-- Storing does not change where a path leads. -/
theorem LeadsTo.store {path other : String} {place stored : Place} (leads : dir.LeadsTo path place)
    (opened : dir.LeadsTo other stored) (bytes : ByteArray) :
    (dir.store bytes stored).LeadsTo path place := by
  cases stored with
  | device device => exact leads
  | file key =>
    obtain ⟨folder, name, walked, short, found⟩ := leadsTo_iff.mp leads
    obtain ⟨folder', name', walked', _, found'⟩ := leadsTo_iff.mp opened
    have openable := openable_of_walk walked' found'
    obtain ⟨rfl, noDevice⟩ := entry?_file found'
    refine leadsTo_iff.mpr ⟨folder, name, openable.walk_store bytes walked, short, ?_⟩
    by_cases same : folder ++ [name] = folder' ++ [name']
    · rw [same] at found ⊢
      rw [placeAt, entry?_store_self bytes noDevice, ← found, found']
      rfl
    · have proper := (openable_of_walk walked found).proper
      rw [placeAt, openable.entry?_store bytes proper same]
      exact found

/-- A path leads to what is stored at its place. -/
theorem LeadsTo.read {path key : String} {bytes : ByteArray} (leads : dir.LeadsTo path (.file key))
    (stored : dir.files.get? key = some bytes) : dir.read path = .ok bytes := by
  obtain ⟨folder, name, walked, short, found⟩ := leadsTo_iff.mp leads
  obtain ⟨rfl, noDevice⟩ := entry?_file found
  have entry : dir.entry? (folder ++ [name]) = some (.place (.file (join (folder ++ [name])))) := by
    unfold entry?
    rw [noDevice, Dictionary.contains, stored]
    rfl
  have located : dir.find path = .ok (.place (.file (join (folder ++ [name])))) := by
    unfold find
    rw [walked]
    simp only [bind, Except.bind, short, ↓reduceIte, entry]
    rfl
  unfold Directory.read
  rw [located]
  simp only [bind, Except.bind, stored]

/-- The path leads to a place that takes every text. -/
structure Writable (dir : Directory) (path : String) (place : Place) : Prop where
  leads : dir.LeadsTo path place
  takes : place ≠ .device .full

theorem Writable.store {path other : String} {place stored : Place} (writable : dir.Writable path place)
    (opened : dir.Writable other stored) (bytes : ByteArray) :
    (dir.store bytes stored).Writable path place :=
  ⟨writable.leads.store opened.leads bytes, writable.takes⟩

/-- Writing a text stores its bytes at the place of the path. -/
theorem Writable.writeText {path : String} {place : Place} (writable : dir.Writable path place)
    (text : String) : dir.writeText path text = .ok (dir.store text.toUTF8 place) := by
  obtain ⟨folder, name, walked, short, found⟩ := leadsTo_iff.mp writable.leads
  unfold Directory.writeText
  rw [create_eq walked short, found]
  cases place with
  | file key =>
    have content : ((dir.files.insert key ByteArray.empty).get? key).getD ByteArray.empty ++
        text.toUTF8 = text.toUTF8 := by
      rw [Dictionary.get?_insert, if_pos rfl, Option.getD_some, ByteArray.empty_append]
    simp only [bind, Except.bind, Directory.store, append, content, Dictionary.insert_insert]
  | device device =>
    cases device with
    | null => rfl
    | full => exact absurd rfl writable.takes

end IonLang.Directory
