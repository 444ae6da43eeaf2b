import Mathlib.Tactic
import Ringtone.Files.Tree

/-!
# What file operations change

A tree is seen through what is at its places: the content of a file, a directory, or nothing.
Putting something at a place changes what is there and below, makes directories of the places on the
way, and changes nothing else. Writing a file therefore changes one place only, and making
directories only adds directories at places that the path leads through.
-/

namespace Ringtone.Files

/-- What is at a place, apart from what it holds. -/
inductive Kind where
  /-- A file and its bytes. -/
  | file (content : List UInt8)
  /-- A directory. -/
  | directory
deriving DecidableEq

namespace Node

/-- What a node is. -/
def kind : Node → Kind
  | .file content => .file content
  | .directory _ => .directory

/-- What is at a place of a tree. -/
def kindAt? (tree : Node) (place : Place) : Option Kind := (tree.at? place).map kind

/-- What a node holds under a name. -/
def held? : Node → Name → Option Node
  | .file _, _ => none
  | .directory entries, name => Entries.get? entries name

/-! ## Places -/

variable {tree changed : Node} {place other : Place}

@[simp]
theorem at?_cons (tree : Node) (name : Name) (rest : Place) :
    tree.at? (name :: rest) = (tree.held? name).bind fun inner => inner.at? rest := by
  cases tree with
  | file content => rfl
  | directory entries =>
    rw [at?, held?]
    cases Entries.get? entries name <;> rfl

theorem at?_append (tree : Node) (place rest : Place) :
    tree.at? (place ++ rest) = (tree.at? place).bind fun node => node.at? rest := by
  induction place generalizing tree with
  | nil => rfl
  | cons name more ih =>
    rw [List.cons_append, at?_cons, at?_cons, Option.bind_assoc]
    exact Option.bind_congr fun inner _ => ih inner

@[simp]
theorem kindAt?_nil (tree : Node) : tree.kindAt? [] = some tree.kind := by
  rw [kindAt?, at?]
  rfl

@[simp]
theorem kindAt?_cons (tree : Node) (name : Name) (rest : Place) :
    tree.kindAt? (name :: rest) = (tree.held? name).bind fun inner => inner.kindAt? rest := by
  rw [kindAt?, at?_cons, Option.map_bind]
  rfl

theorem held?_eq_none (h : tree.kind ≠ .directory) (name : Name) : tree.held? name = none := by
  cases tree with
  | file content => rfl
  | directory entries => exact absurd rfl h

/-- Only directories hold anything. -/
theorem kindAt?_of_isPrefix (hinit : other <+: place) (hne : other ≠ place)
    (h : tree.kindAt? place ≠ none) : tree.kindAt? other = some .directory := by
  induction place generalizing tree other with
  | nil => exact absurd (List.prefix_nil.mp hinit) hne
  | cons name rest ih =>
    rw [kindAt?_cons] at h
    cases other with
    | nil =>
      rw [kindAt?_nil]
      by_contra hkind
      rw [held?_eq_none (by simpa using hkind)] at h
      exact h rfl
    | cons first more =>
      obtain ⟨rfl, hmore⟩ := List.cons_prefix_cons.mp hinit
      rw [kindAt?_cons]
      cases hentry : tree.held? first with
      | none =>
        rw [hentry] at h
        exact absurd rfl h
      | some inner =>
        rw [hentry] at h
        exact ih hmore (by simpa using hne) h

theorem get?_set (entries : Entries) (name : Name) (node : Node) (wanted : Name) :
    Entries.get? (Entries.set entries name node) wanted =
      if name = wanted then some node else Entries.get? entries wanted := by
  induction entries with
  | nil => simp only [Entries.set, Entries.get?]
  | cons first rest ih =>
    obtain ⟨old, inner⟩ := first
    simp only [Entries.set]
    split_ifs with hsame hwanted hwanted <;> simp_all [Entries.get?]

theorem held?_put (tree : Node) (name : Name) (rest : Place) (new : Node) (wanted : Name) :
    (tree.put (name :: rest) new).held? wanted =
      if name = wanted then some (((tree.held? name).getD (.directory [])).put rest new)
      else tree.held? wanted := by
  cases tree with
  | file content =>
    simp only [put, held?, get?_set]
    rfl
  | directory entries => simp only [put, held?, get?_set]

/-- Putting something at a place changes what is there and below and makes directories of the places
on the way. -/
theorem kindAt?_put (tree : Node) (place : Place) (new : Node) (other : Place) :
    (tree.put place new).kindAt? other =
      if place <+: other then new.kindAt? (other.drop place.length)
      else if other <+: place then some .directory
      else tree.kindAt? other := by
  induction place generalizing tree other with
  | nil => simp [put]
  | cons name rest ih =>
    cases other with
    | nil =>
      rw [if_neg (by simp), if_pos (List.nil_prefix), kindAt?_nil]
      cases tree <;> simp [put, kind]
    | cons first more =>
      rw [kindAt?_cons, kindAt?_cons, held?_put]
      by_cases hsame : name = first
      · subst hsame
        simp only [if_true, Option.bind_some, ih, List.cons_prefix_cons, true_and, List.length_cons,
          List.drop_succ_cons]
        split_ifs with hbelow habove
        · rfl
        · rfl
        · cases hentry : tree.held? name with
          | some inner => rfl
          | none =>
            cases more with
            | nil => exact absurd List.nil_prefix habove
            | cons second more => rfl
      · simp only [hsame, if_false, List.cons_prefix_cons, false_and, Ne.symm hsame]

/-- A file or a directory that holds nothing. -/
def IsLeaf (new : Node) : Prop := ∀ name, new.held? name = none

theorem isLeaf_file (content : List UInt8) : IsLeaf (.file content) := fun _ => rfl

theorem isLeaf_directory : IsLeaf (.directory []) := fun _ => rfl

/-- Every place on the way to a place is a directory. -/
def IsReachable (tree : Node) (place : Place) : Prop :=
  ∀ other, other <+: place → other ≠ place → tree.kindAt? other = some .directory

/-- Where there is no directory but the way leads through some, a leaf changes nothing else. -/
theorem kindAt?_put_of_reachable {new : Node} (hnew : new.IsLeaf) (hway : tree.IsReachable place)
    (hplace : tree.kindAt? place ≠ some .directory) (other : Place) :
    (tree.put place new).kindAt? other =
      if other = place then some new.kind else tree.kindAt? other := by
  rw [kindAt?_put]
  by_cases hsame : other = place
  · subst hsame
    rw [if_pos (List.prefix_refl _), if_pos rfl, List.drop_length, kindAt?_nil]
  · rw [if_neg hsame]
    split_ifs with hbelow habove
    · obtain ⟨tail, rfl⟩ := hbelow
      rw [List.drop_left]
      cases tail with
      | nil => simp at hsame
      | cons name tail =>
        rw [kindAt?_cons, hnew name, Option.bind_none]
        by_contra hthere
        exact hplace (kindAt?_of_isPrefix (List.prefix_append _ _) (by simp) (Ne.symm hthere))
    · exact (hway other habove hsame).symm
    · rfl

/-! ## Where names lead -/

/-- Every directory of the one tree is a directory of the other. -/
def Keeps (tree changed : Node) : Prop :=
  ∀ place, tree.kindAt? place = some .directory → changed.kindAt? place = some .directory

theorem Keeps.trans {last : Node} (h : tree.Keeps changed) (hlast : changed.Keeps last) :
    tree.Keeps last := fun place hplace => hlast place (h place hplace)

/-- Where there is no directory, something can be put without any directory being lost. -/
theorem keeps_put (hplace : tree.kindAt? place ≠ some .directory) (new : Node) :
    tree.Keeps (tree.put place new) := by
  intro other hother
  rw [kindAt?_put]
  split_ifs with hbelow habove
  · by_cases hsame : place = other
    · exact absurd (hsame ▸ hother) hplace
    · exact absurd (kindAt?_of_isPrefix hbelow hsame (by simp [hother])) hplace
  · rfl
  · exact hother

theorem kindAt?_eq_directory_iff : tree.kindAt? place = some .directory ↔
    ∃ entries, tree.at? place = some (.directory entries) := by
  rw [kindAt?]
  cases tree.at? place with
  | none => simp
  | some node => cases node <;> simp [kind]

theorem locate_cons_eq_ok_iff {here : Place} {name : Name} {rest : List Name} :
    tree.locate here (name :: rest) = .ok place ↔
      tree.kindAt? here = some .directory ∧
        if name = ['.', '.'] then tree.locate here.dropLast rest = .ok place
        else ¬ isTooLong name ∧ tree.locate (here ++ [name]) rest = .ok place := by
  rw [locate, kindAt?]
  cases tree.at? here with
  | none => simp
  | some node =>
    cases node with
    | file content => simp [kind]
    | directory entries =>
      simp only [Option.map_some, kind, true_and]
      split_ifs <;> simp_all

/-- Names lead to the same place as long as no directory is lost. -/
theorem Keeps.locate (h : tree.Keeps changed) {here : Place} {names : List Name}
    (hlocate : tree.locate here names = .ok place) : changed.locate here names = .ok place := by
  induction names generalizing here with
  | nil => exact hlocate
  | cons name rest ih =>
    rw [locate_cons_eq_ok_iff] at hlocate ⊢
    obtain ⟨hhere, hrest⟩ := hlocate
    refine ⟨h here hhere, ?_⟩
    split_ifs at hrest ⊢
    · exact ih hrest
    · exact ⟨hrest.1, ih hrest.2⟩

theorem locate_append (tree : Node) (here : Place) (names more : List Name) :
    tree.locate here (names ++ more) =
      tree.locate here names >>= fun place => tree.locate place more := by
  induction names generalizing here with
  | nil => rfl
  | cons name rest ih =>
    rw [List.cons_append, Node.locate, Node.locate]
    cases tree.at? here with
    | none => rfl
    | some node =>
      cases node with
      | file content => rfl
      | directory entries =>
        dsimp only
        split_ifs
        · exact ih _
        · rfl
        · exact ih _

/-- What a path leads to can be reached. -/
theorem isReachable_of_locate {here : Place} {names : List Name} (hhere : tree.IsReachable here)
    (h : tree.locate here names = .ok place) : tree.IsReachable place := by
  induction names generalizing here with
  | nil =>
    cases h
    exact hhere
  | cons name rest ih =>
    obtain ⟨hdirectory, hrest⟩ := locate_cons_eq_ok_iff.mp h
    have hall : ∀ other, other <+: here → tree.kindAt? other = some .directory := by
      intro other hother
      by_cases hsame : other = here
      · rw [hsame, hdirectory]
      · exact hhere other hother hsame
    split_ifs at hrest
    · exact ih (fun other hother _ => hall other (hother.trans (List.dropLast_prefix here))) hrest
    · refine ih (fun other hother hne => hall other ?_) hrest.2
      exact (List.prefix_concat_iff.mp hother).resolve_left hne

/-! ## Operations on paths -/

variable {current : Place} {path : Path} {content : List UInt8}

theorem isDirectory_eq_true_iff : tree.isDirectory current path = .ok true ↔
    ∃ place, tree.placeOf current path = .ok place ∧ tree.kindAt? place = some .directory := by
  rw [isDirectory, lookup]
  cases hplace : tree.placeOf current path with
  | error cause => cases cause <;> simp [bind, Except.bind]
  | ok place =>
    simp only [bind, Except.bind, Except.ok.injEq, exists_eq_left', kindAt?]
    cases tree.at? place with
    | none => simp [throw, throwThe, MonadExceptOf.throw]
    | some node => cases node <;> simp [kind, pure, Except.pure]

theorem read_eq_ok_iff : tree.read current path = .ok content ↔
    ∃ place, tree.placeOf current path = .ok place ∧ tree.kindAt? place = some (.file content) := by
  rw [read, lookup]
  cases hplace : tree.placeOf current path with
  | error cause => simp [bind, Except.bind]
  | ok place =>
    simp only [bind, Except.bind, Except.ok.injEq, exists_eq_left', kindAt?]
    cases tree.at? place with
    | none => simp [throw, throwThe, MonadExceptOf.throw]
    | some node =>
      cases node <;> simp [kind, pure, Except.pure, throw, throwThe, MonadExceptOf.throw]

theorem isPresent_of_read (h : tree.read current path = .ok content) :
    tree.isPresent current path = .ok true := by
  rw [read] at h
  rw [isPresent]
  cases hlookup : tree.lookup current path with
  | error cause =>
    rw [hlookup] at h
    cases h
  | ok node => rfl

theorem read_of_isDirectory (h : tree.isDirectory current path = .ok true) :
    tree.read current path = .error .isDirectory := by
  unfold isDirectory at h
  rw [read]
  split at h
  · rename_i hlookup
    rw [hlookup]
    rfl
  all_goals cases h

theorem isPresent_of_isDirectory (h : tree.isDirectory current path = .ok true) :
    tree.isPresent current path = .ok true := by
  unfold isDirectory at h
  rw [isPresent]
  split at h
  · rename_i hlookup
    rw [hlookup]
  all_goals cases h

theorem isDirectory_of_not_isPresent (h : tree.isPresent current path = .ok false) :
    tree.isDirectory current path = .ok false := by
  unfold isPresent at h
  rw [isDirectory]
  cases hlookup : tree.lookup current path with
  | ok node =>
    rw [hlookup] at h
    cases h
  | error cause =>
    rw [hlookup] at h
    cases cause with
    | nameTooLong => cases h
    | _ => rfl

/-- What is present and cannot be read is a directory. -/
theorem isDirectory_of_read_error {cause : Cause}
    (hpresent : tree.isPresent current path = .ok true)
    (h : tree.read current path = .error cause) : tree.isDirectory current path = .ok true := by
  unfold isPresent at hpresent
  rw [read] at h
  rw [isDirectory]
  split at hpresent
  · rename_i node hlookup
    rw [hlookup] at h ⊢
    cases node with
    | file content => cases h
    | directory entries => rfl
  all_goals cases hpresent

theorem kindAt?_of_not_isPresent (h : tree.isPresent current path = .ok false)
    (hplace : tree.placeOf current path = .ok place) : tree.kindAt? place = none := by
  rw [isPresent, lookup, hplace] at h
  rw [kindAt?]
  cases hat : tree.at? place with
  | none => rfl
  | some node =>
    simp only [bind, Except.bind, hat, pure, Except.pure] at h
    cases h

theorem isPresent_of_free (hplace : tree.placeOf current path = .ok place)
    (hnone : tree.kindAt? place = none) : tree.isPresent current path = .ok false := by
  rw [kindAt?, Option.map_eq_none_iff] at hnone
  rw [isPresent, lookup, hplace]
  simp only [bind, Except.bind, hnone]
  rfl

theorem write_eq_ok_iff : tree.write current path content = .ok changed ↔
    ∃ place, tree.placeOf current path = .ok place ∧ tree.kindAt? place ≠ some .directory ∧
      changed = tree.put place (.file content) := by
  rw [write]
  cases hplace : tree.placeOf current path with
  | error cause => simp [bind, Except.bind]
  | ok place =>
    simp only [bind, Except.bind, Except.ok.injEq, exists_eq_left', kindAt?]
    cases tree.at? place with
    | none => simp [pure, Except.pure, eq_comm]
    | some node =>
      cases node <;>
        simp [kind, pure, Except.pure, throw, throwThe, MonadExceptOf.throw, eq_comm]

theorem Keeps.placeOf (h : tree.Keeps changed) (hplace : tree.placeOf current path = .ok place) :
    changed.placeOf current path = .ok place := by
  unfold Node.placeOf at hplace ⊢
  split_ifs at hplace ⊢
  · exact h.locate hplace
  · exact h.locate hplace

theorem keeps_of_write (h : tree.write current path content = .ok changed) :
    tree.Keeps changed := by
  obtain ⟨place, _, hdirectory, rfl⟩ := write_eq_ok_iff.mp h
  exact keeps_put hdirectory _

/-- What is written is read back. -/
theorem read_of_write (h : tree.write current path content = .ok changed) :
    changed.read current path = .ok content := by
  have hkeeps := keeps_of_write h
  obtain ⟨place, hplace, _, rfl⟩ := write_eq_ok_iff.mp h
  refine read_eq_ok_iff.mpr ⟨place, hkeeps.placeOf hplace, ?_⟩
  rw [kindAt?_put, if_pos (List.prefix_refl _), List.drop_length, kindAt?_nil]
  rfl

/-! ## Making directories -/

theorem makeDirectory_eq_ok_iff : tree.makeDirectory current path = .ok changed ↔
    ∃ place, tree.placeOf current path = .ok place ∧ tree.kindAt? place = none ∧
      changed = tree.put place (.directory []) := by
  rw [makeDirectory]
  cases hplace : tree.placeOf current path with
  | error cause => simp [bind, Except.bind]
  | ok place =>
    simp only [bind, Except.bind, Except.ok.injEq, exists_eq_left', kindAt?]
    cases tree.at? place <;>
      simp [pure, Except.pure, throw, throwThe, MonadExceptOf.throw, eq_comm]

/-- A directory is made, or there is one already. -/
theorem makeIfAbsent_eq_ok (h : tree.makeIfAbsent current path = .ok changed) :
    tree.makeDirectory current path = .ok changed ∨
      changed = tree ∧ tree.isDirectory current path = .ok true := by
  unfold makeIfAbsent at h
  split at h
  · rename_i made hmade
    cases h
    exact Or.inl hmade
  · split_ifs at h
    split at h
    · rename_i hdirectory
      cases h
      exact Or.inr ⟨rfl, hdirectory⟩
    · cases h
    · cases h

theorem isDirectory_of_makeIfAbsent (h : tree.makeIfAbsent current path = .ok changed) :
    changed.isDirectory current path = .ok true := by
  rcases makeIfAbsent_eq_ok h with hmade | ⟨rfl, hdirectory⟩
  · obtain ⟨place, hplace, hnone, rfl⟩ := makeDirectory_eq_ok_iff.mp hmade
    refine isDirectory_eq_true_iff.mpr
      ⟨place, (keeps_put (by simp [hnone]) _).placeOf hplace, ?_⟩
    rw [kindAt?_put, if_pos (List.prefix_refl _), List.drop_length, kindAt?_nil]
    rfl
  · exact hdirectory

theorem makeIfAbsent_of_isDirectory (h : tree.isDirectory current path = .ok true) :
    tree.makeIfAbsent current path = .ok tree := by
  obtain ⟨place, hplace, hdirectory⟩ := isDirectory_eq_true_iff.mp h
  obtain ⟨entries, hentries⟩ := kindAt?_eq_directory_iff.mp hdirectory
  have hexists : tree.makeDirectory current path = .error .exists := by
    rw [makeDirectory, hplace]
    simp [bind, Except.bind, hentries, throw, throwThe, MonadExceptOf.throw]
  rw [makeIfAbsent, hexists]
  simp only [reduceCtorEq, if_false, h]

theorem ensureDirectory_of_isDirectory (h : tree.isDirectory current path = .ok true) :
    tree.ensureDirectory current path = (.ok (), tree) := by
  have hmake := makeIfAbsent_of_isDirectory h
  rw [ensureDirectory]
  cases hparts : path.parts.reverse with
  | nil =>
    have hpath : path = { root := path.root, parts := [] } := by
      rw [← List.reverse_eq_nil_iff.mp hparts]
    rw [hpath] at hmake
    rw [ensureNames, hmake]
  | cons last before =>
    have hpath : path = { root := path.root, parts := (last :: before).reverse } := by
      rw [← hparts, List.reverse_reverse]
    rw [hpath] at hmake
    rw [ensureNames, hmake]

theorem isDirectory_of_ensureNames {root : List Char} {names : List Name}
    (h : tree.ensureNames current root names = (.ok (), changed)) :
    changed.isDirectory current { root, parts := names.reverse } = .ok true := by
  cases names with
  | nil =>
    rw [ensureNames] at h
    split at h
    · rename_i hmake
      cases h
      exact isDirectory_of_makeIfAbsent hmake
    · cases h
  | cons last before =>
    rw [ensureNames] at h
    split at h
    · rename_i hmake
      cases h
      exact isDirectory_of_makeIfAbsent hmake
    · split at h
      · cases h
      · split at h
        · rename_i hmake
          cases h
          exact isDirectory_of_makeIfAbsent hmake
        · cases h
    · cases h

/-- Where a directory has been ensured there is one. -/
theorem isDirectory_of_ensureDirectory
    (h : tree.ensureDirectory current path = (.ok (), changed)) :
    changed.isDirectory current path = .ok true := by
  have := isDirectory_of_ensureNames h
  rwa [List.reverse_reverse] at this

/-! ## Growth -/

/-- The place that a path begins at. -/
def start (current : Place) (root : List Char) : Place := if root = [] then current else []

theorem placeOf_eq (tree : Node) (current : Place) (path : Path) :
    tree.placeOf current path =
      if pathLimit < (Text.Utf8.encode path.text).length then .error .nameTooLong
      else tree.locate (start current path.root) path.parts := rfl

theorem locate_of_placeOf (h : tree.placeOf current path = .ok place) :
    tree.locate (start current path.root) path.parts = .ok place := by
  rw [placeOf_eq] at h
  split_ifs at h
  exact h

/-- The path of a name in a directory, or the name by itself, has too many bytes. -/
def NoRoom (path : Path) (name : String) : Prop :=
  pathLimit < (Text.Utf8.encode (path.child name).text).length ∨ isTooLong name.toList = true

instance (path : Path) (name : String) : Decidable (NoRoom path name) :=
  inferInstanceAs (Decidable (_ ∨ _))

/-- A directory is where a path leads to. -/
theorem exists_at?_of_isDirectory (h : tree.isDirectory current path = .ok true) :
    ∃ place entries, tree.placeOf current path = .ok place ∧
      tree.at? place = some (.directory entries) := by
  obtain ⟨place, hplace, hdirectory⟩ := isDirectory_eq_true_iff.mp h
  obtain ⟨entries, hentries⟩ := kindAt?_eq_directory_iff.mp hdirectory
  exact ⟨place, entries, hplace, hentries⟩

/-- In a directory there is a place for every name there is room for. -/
theorem placeOf_child_eq {directory : Place} {entries : Entries} {name : String}
    (hplace : tree.placeOf current path = .ok directory)
    (hentries : tree.at? directory = some (.directory entries))
    (hname : name.toList ≠ ['.', '.']) :
    tree.placeOf current (path.child name) =
      if NoRoom path name then .error .nameTooLong else .ok (directory ++ [name.toList]) := by
  have hlocate : tree.locate (start current (path.child name).root) (path.child name).parts =
      tree.locate directory [name.toList] := by
    show tree.locate (start current path.root) (path.parts ++ [name.toList]) = _
    rw [locate_append, locate_of_placeOf hplace]
    rfl
  rw [placeOf_eq, hlocate, locate, hentries]
  dsimp only
  rw [if_neg hname]
  by_cases hroom : NoRoom path name
  · rw [if_pos hroom]
    rcases hroom with hpath | hlong
    · rw [if_pos hpath]
    · rw [if_pos hlong, ite_self]
  · obtain ⟨hpath, hlong⟩ := not_or.mp hroom
    rw [if_neg hroom, if_neg hpath, if_neg hlong]
    rfl

/-- In a directory there is a place for every name, unless the path gets too long. -/
theorem placeOf_child (h : tree.isDirectory current path = .ok true) {name : String}
    (hname : name.toList ≠ ['.', '.']) :
    (∃ place, tree.placeOf current (path.child name) = .ok place) ∨
      tree.placeOf current (path.child name) = .error .nameTooLong := by
  obtain ⟨directory, entries, hplace, hentries⟩ := exists_at?_of_isDirectory h
  rw [placeOf_child_eq hplace hentries hname]
  split_ifs
  · exact Or.inr rfl
  · exact Or.inl ⟨_, rfl⟩

/-- Something is under a name in a directory just where the directory has an entry of the name;
where there is no room for the name it cannot be asked for. -/
theorem isPresent_child_eq {directory : Place} {entries : Entries} {name : String}
    (hplace : tree.placeOf current path = .ok directory)
    (hentries : tree.at? directory = some (.directory entries))
    (hname : name.toList ≠ ['.', '.']) :
    tree.isPresent current (path.child name) =
      if NoRoom path name then .error .nameTooLong
      else .ok (Entries.get? entries name.toList).isSome := by
  rw [isPresent, lookup, placeOf_child_eq hplace hentries hname]
  split_ifs
  · rfl
  · have hat : tree.at? (directory ++ [name.toList]) = Entries.get? entries name.toList := by
      rw [at?_append, hentries, Option.bind_some, at?_cons, held?]
      cases Entries.get? entries name.toList <;> rfl
    simp only [bind, Except.bind, hat]
    cases Entries.get? entries name.toList <;> rfl

/-- A file can be written in a directory just where there is no directory of its name. -/
theorem exists_write_child_iff (h : tree.isDirectory current path = .ok true) {name : String}
    (hname : name.toList ≠ ['.', '.']) (content : List UInt8) :
    (∃ changed, tree.write current (path.child name) content = .ok changed) ↔
      tree.isDirectory current (path.child name) = .ok false := by
  rcases placeOf_child h hname with ⟨place, hplace⟩ | hlong
  · rw [write, isDirectory, lookup, hplace]
    simp only [bind, Except.bind]
    cases tree.at? place with
    | none => simp [pure, Except.pure, throw, throwThe, MonadExceptOf.throw]
    | some node =>
      cases node <;> simp [pure, Except.pure, throw, throwThe, MonadExceptOf.throw]
  · rw [write, isDirectory, lookup, hlong]
    simp [bind, Except.bind]

/-- In a directory a name is not that of a directory just where there is room for it and no
directory of the name. -/
theorem isDirectory_child_eq_false_iff (h : tree.isDirectory current path = .ok true)
    {name : String} (hname : name.toList ≠ ['.', '.']) :
    tree.isDirectory current (path.child name) = .ok false ↔
      ¬ NoRoom path name ∧ tree.isDirectory current (path.child name) ≠ .ok true := by
  obtain ⟨directory, entries, hplace, hentries⟩ := exists_at?_of_isDirectory h
  rw [isDirectory, lookup, placeOf_child_eq hplace hentries hname]
  split_ifs with hroom
  · simp [hroom, bind, Except.bind]
  · simp only [hroom, not_false_eq_true, true_and, bind, Except.bind]
    cases tree.at? (directory ++ [name.toList]) with
    | none => simp [throw, throwThe, MonadExceptOf.throw]
    | some node => cases node <;> simp [pure, Except.pure]

/-- Where there is no room for a name it cannot be asked whether a directory has it. -/
theorem isDirectory_child_of_noRoom (h : tree.isDirectory current path = .ok true) {name : String}
    (hname : name.toList ≠ ['.', '.']) (hroom : NoRoom path name) :
    tree.isDirectory current (path.child name) = .error .nameTooLong := by
  obtain ⟨directory, entries, hplace, hentries⟩ := exists_at?_of_isDirectory h
  rw [isDirectory, lookup, placeOf_child_eq hplace hentries hname, if_pos hroom]
  rfl

/-- The path leads to the place, or through it. -/
def LeadsThrough (tree : Node) (current : Place) (path : Path) (place : Place) : Prop :=
  ∃ names, names <+: path.parts ∧ tree.locate (start current path.root) names = .ok place

/-- The one tree has all of the other, and directories besides at some of the places where nothing
was. -/
def Grows (tree changed : Node) (way : Place → Prop) : Prop :=
  ∀ place, changed.kindAt? place = tree.kindAt? place ∨
    tree.kindAt? place = none ∧ changed.kindAt? place = some .directory ∧ way place

theorem Grows.refl (tree : Node) (way : Place → Prop) : tree.Grows tree way := fun _ => Or.inl rfl

theorem Grows.keeps {way : Place → Prop} (h : tree.Grows changed way) : tree.Keeps changed := by
  intro place hplace
  rcases h place with hsame | ⟨hnone, _⟩
  · rw [hsame, hplace]
  · rw [hnone] at hplace
    cases hplace

theorem Grows.trans {last : Node} {way : Place → Prop} (h : tree.Grows changed way)
    (hlast : changed.Grows last way) : tree.Grows last way := by
  intro place
  rcases h place with hsame | ⟨hnone, hdirectory, hway⟩
  · rw [← hsame]
    exact hlast place
  · exact Or.inr ⟨hnone, hlast.keeps place hdirectory, hway⟩

theorem Grows.mono {way wider : Place → Prop} (h : tree.Grows changed way)
    (hway : ∀ place, way place → wider place) : tree.Grows changed wider := fun place =>
  (h place).imp_right fun ⟨hnone, hdirectory, hplace⟩ => ⟨hnone, hdirectory, hway place hplace⟩

/-- Whatever is in the one tree is in the other as it was. -/
def Extends (tree changed : Node) : Prop :=
  ∀ place kind, tree.kindAt? place = some kind → changed.kindAt? place = some kind

theorem Extends.refl (tree : Node) : tree.Extends tree := fun _ _ h => h

theorem Extends.trans {last : Node} (h : tree.Extends changed) (hlast : changed.Extends last) :
    tree.Extends last := fun place kind hplace => hlast place kind (h place kind hplace)

theorem Extends.kindAt?_eq_none (h : tree.Extends changed) (hnone : changed.kindAt? place = none) :
    tree.kindAt? place = none := by
  cases hkind : tree.kindAt? place with
  | none => rfl
  | some kind =>
    rw [h place kind hkind] at hnone
    cases hnone

/-- Where only a place changes at which nothing was, all is kept. -/
theorem extends_of_free (hnone : tree.kindAt? place = none)
    (hothers : ∀ other, other ≠ place → changed.kindAt? other = tree.kindAt? other) :
    tree.Extends changed := by
  intro other kind hother
  have hne : other ≠ place := by
    rintro rfl
    rw [hnone] at hother
    cases hother
  rw [hothers other hne, hother]

theorem Grows.extends {way : Place → Prop} (h : tree.Grows changed way) : tree.Extends changed := by
  intro place kind hplace
  rcases h place with hsame | ⟨hnone, _⟩
  · rw [hsame, hplace]
  · rw [hnone] at hplace
    cases hplace

theorem isReachable_start (hcurrent : tree.kindAt? current = some .directory) (root : List Char) :
    tree.IsReachable (start current root) := by
  intro other hother hne
  rw [start] at hother hne
  split_ifs at hother hne
  · exact kindAt?_of_isPrefix hother hne (by simp [hcurrent])
  · exact absurd (List.prefix_nil.mp hother) hne

theorem grows_makeIfAbsent (hcurrent : tree.kindAt? current = some .directory)
    (h : tree.makeIfAbsent current path = .ok changed) :
    tree.Grows changed (changed.LeadsThrough current path) := by
  rcases makeIfAbsent_eq_ok h with hmade | ⟨rfl, _⟩
  · obtain ⟨place, hplace, hnone, rfl⟩ := makeDirectory_eq_ok_iff.mp hmade
    have hlocate := locate_of_placeOf hplace
    have hreach := isReachable_of_locate (isReachable_start hcurrent _) hlocate
    intro other
    rw [kindAt?_put_of_reachable isLeaf_directory hreach (by simp [hnone])]
    split_ifs with hsame
    · subst hsame
      exact Or.inr ⟨hnone, rfl, path.parts, List.prefix_refl _,
        (keeps_put (by simp [hnone]) _).locate hlocate⟩
    · exact Or.inl rfl
  · exact .refl _ _

theorem grows_ensureNames (hcurrent : tree.kindAt? current = some .directory) (root : List Char)
    (names : List Name) :
    tree.Grows (tree.ensureNames current root names).2
      ((tree.ensureNames current root names).2.LeadsThrough current
        { root, parts := names.reverse }) := by
  induction names generalizing tree with
  | nil =>
    rw [ensureNames]
    split
    · rename_i hmake
      exact grows_makeIfAbsent hcurrent hmake
    · exact .refl _ _
  | cons last before ih =>
    rw [ensureNames]
    split
    · rename_i hmake
      exact grows_makeIfAbsent hcurrent hmake
    · have hbefore := ih hcurrent
      have hway : ∀ {t : Node} {place : Place},
          t.LeadsThrough current { root, parts := before.reverse } place →
            t.LeadsThrough current { root, parts := (last :: before).reverse } place := by
        rintro t place ⟨names, hnames, hlocate⟩
        refine ⟨names, hnames.trans ?_, hlocate⟩
        rw [List.reverse_cons]
        exact List.prefix_append _ _
      split
      · rename_i hensure
        rw [hensure] at hbefore
        exact hbefore.mono fun place => hway
      · rename_i made hensure
        rw [hensure] at hbefore
        split
        · rename_i hmake
          have hfinish := grows_makeIfAbsent (hbefore.keeps _ hcurrent) hmake
          refine (hbefore.mono fun place hplace => ?_).trans hfinish
          obtain ⟨names, hnames, hlocate⟩ := hway hplace
          exact ⟨names, hnames, hfinish.keeps.locate hlocate⟩
        -- the last directory cannot be made, and those before it stay
        · exact hbefore.mono fun place => hway
    · exact .refl _ _

/-- Ensuring a directory only makes directories, where there was nothing and the path leads
through; this holds also when it fails on the way. -/
theorem grows_ensureDirectory (hcurrent : tree.kindAt? current = some .directory) (path : Path) :
    tree.Grows (tree.ensureDirectory current path).2
      ((tree.ensureDirectory current path).2.LeadsThrough current path) := by
  have := grows_ensureNames hcurrent path.root path.parts.reverse
  rwa [List.reverse_reverse] at this

/-- Writing a file changes nothing elsewhere. -/
theorem kindAt?_of_write (hcurrent : tree.kindAt? current = some .directory)
    (h : tree.write current path content = .ok changed)
    (hplace : tree.placeOf current path = .ok place) (other : Place) :
    changed.kindAt? other = if other = place then some (.file content) else tree.kindAt? other := by
  obtain ⟨found, hfound, hdirectory, rfl⟩ := write_eq_ok_iff.mp h
  rw [hplace] at hfound
  cases hfound
  exact kindAt?_put_of_reachable (isLeaf_file content)
    (isReachable_of_locate (isReachable_start hcurrent _) (locate_of_placeOf hplace)) hdirectory
    other

/-- What can be written can be written again. -/
theorem exists_write_of_write (h : tree.write current path content = .ok changed)
    (later : List UInt8) : ∃ last, changed.write current path later = .ok last := by
  obtain ⟨place, hplace, hfile⟩ := read_eq_ok_iff.mp (read_of_write h)
  exact ⟨_, write_eq_ok_iff.mpr ⟨place, hplace, by simp [hfile], rfl⟩⟩

/-- Of a file that is written twice the later content is left, and nothing elsewhere changes. -/
theorem kindAt?_of_write_write {last : Node} {later : List UInt8}
    (hcurrent : tree.kindAt? current = some .directory)
    (h : tree.write current path content = .ok changed)
    (hlater : changed.write current path later = .ok last) :
    ∃ place, last.placeOf current path = .ok place ∧ last.kindAt? place = some (.file later) ∧
      ∀ other, other ≠ place → last.kindAt? other = tree.kindAt? other := by
  have hkeeps := keeps_of_write h
  obtain ⟨place, hplace, _⟩ := write_eq_ok_iff.mp h
  have hfirst := kindAt?_of_write hcurrent h hplace
  have hsecond := kindAt?_of_write (hkeeps _ hcurrent) hlater (hkeeps.placeOf hplace)
  refine ⟨place, (keeps_of_write hlater).placeOf (hkeeps.placeOf hplace), ?_, ?_⟩
  · rw [hsecond, if_pos rfl]
  · intro other hother
    rw [hsecond, if_neg hother, hfirst, if_neg hother]

/-! ## Trees that differ in one file -/

theorem locate_cons (tree : Node) (here : Place) (name : Name) (rest : List Name) :
    tree.locate here (name :: rest) = match tree.kindAt? here with
      | none => .error .missing
      | some (.file _) => .error .notDirectory
      | some .directory =>
        if name = ['.', '.'] then tree.locate here.dropLast rest
        else if isTooLong name then .error .nameTooLong
        else tree.locate (here ++ [name]) rest := by
  rw [locate, kindAt?]
  cases tree.at? here with
  | none => rfl
  | some node => cases node <;> rfl

theorem read_eq (tree : Node) (current : Place) (path : Path) :
    tree.read current path = tree.placeOf current path >>= fun place =>
      match tree.kindAt? place with
      | none => .error .missing
      | some (.file content) => .ok content
      | some .directory => .error .isDirectory := by
  rw [read, lookup]
  cases tree.placeOf current path with
  | error cause => rfl
  | ok place =>
    simp only [bind, Except.bind, kindAt?]
    cases tree.at? place with
    | none => rfl
    | some node => cases node <;> rfl

theorem write_eq (tree : Node) (current : Place) (path : Path) (content : List UInt8) :
    tree.write current path content = tree.placeOf current path >>= fun place =>
      if tree.kindAt? place = some .directory then .error .isDirectory
      else .ok (tree.put place (.file content)) := by
  rw [write]
  cases tree.placeOf current path with
  | error cause => rfl
  | ok place =>
    simp only [bind, Except.bind, kindAt?]
    rcases Option.eq_none_or_eq_some (tree.at? place) with hat | ⟨node, hat⟩
    · simp [hat, pure, Except.pure]
    · cases node <;> simp [hat, kind, pure, Except.pure, throw, throwThe, MonadExceptOf.throw]

/-- The two trees have a file each at a place, and are the same everywhere else. -/
structure AlikeBut (place : Place) (tree changed : Node) : Prop where
  here : ∃ content, tree.kindAt? place = some (.file content)
  there : ∃ content, changed.kindAt? place = some (.file content)
  elsewhere : ∀ other, other ≠ place → changed.kindAt? other = tree.kindAt? other

/-- Where one tree has a directory the other has one, and where one has nothing so has the other. -/
theorem AlikeBut.cases_at (h : tree.AlikeBut place changed) (other : Place) :
    changed.kindAt? other = tree.kindAt? other ∨ ∃ content later,
      tree.kindAt? other = some (.file content) ∧ changed.kindAt? other = some (.file later) := by
  by_cases hplace : other = place
  · obtain ⟨content, hcontent⟩ := h.here
    obtain ⟨later, hlater⟩ := h.there
    exact Or.inr ⟨content, later, hplace ▸ hcontent, hplace ▸ hlater⟩
  · exact Or.inl (h.elsewhere other hplace)

/-- Names lead to the same place in both, or fail for the same cause. -/
theorem AlikeBut.locate_eq (h : tree.AlikeBut place changed) (here : Place) (names : List Name) :
    changed.locate here names = tree.locate here names := by
  induction names generalizing here with
  | nil => rfl
  | cons name rest ih =>
    rw [locate_cons, locate_cons]
    rcases h.cases_at here with hsame | ⟨content, later, hhere, hthere⟩
    · rw [hsame]
      simp only [ih]
    · rw [hhere, hthere]

theorem AlikeBut.placeOf_eq (h : tree.AlikeBut place changed) (current : Place) (path : Path) :
    changed.placeOf current path = tree.placeOf current path := by
  rw [Node.placeOf_eq, Node.placeOf_eq, h.locate_eq]

theorem AlikeBut.read_eq (h : tree.AlikeBut place changed)
    (hpath : tree.placeOf current path ≠ .ok place) :
    changed.read current path = tree.read current path := by
  rw [Node.read_eq, Node.read_eq, h.placeOf_eq]
  cases hfound : tree.placeOf current path with
  | error cause => rfl
  | ok found =>
    have hne : found ≠ place := by
      rintro rfl
      exact hpath hfound
    simp only [bind, Except.bind, h.elsewhere found hne]

/-- What can be written in one tree can be written in the other, and what cannot fails for the same
cause. -/
theorem AlikeBut.write_cases (h : tree.AlikeBut place changed) (current : Place) (path : Path)
    (content : List UInt8) :
    (∃ cause, tree.write current path content = .error cause ∧
        changed.write current path content = .error cause) ∨
      ∃ written later, tree.write current path content = .ok written ∧
        changed.write current path content = .ok later := by
  rw [write_eq, write_eq, h.placeOf_eq]
  cases tree.placeOf current path with
  | error cause => exact Or.inl ⟨cause, rfl, rfl⟩
  | ok found =>
    simp only [bind, Except.bind]
    have hdirectory : changed.kindAt? found = some .directory ↔
        tree.kindAt? found = some .directory := by
      rcases h.cases_at found with hsame | ⟨content, later, hhere, hthere⟩
      · rw [hsame]
      · rw [hhere, hthere]
        simp
    simp only [hdirectory]
    split_ifs
    · exact Or.inl ⟨_, rfl, rfl⟩
    · exact Or.inr ⟨_, _, rfl, rfl⟩

end Node

end Ringtone.Files
