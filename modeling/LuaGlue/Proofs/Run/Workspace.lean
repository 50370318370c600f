import LuaGlue.Proofs.Except
import LuaGlue.Run.Workspace
import Mathlib.Logic.Function.Basic

/-!
# Files of a workspace

- **Files** (`Workspace.file?`): what stands at a place after something is put there or erased.
- **Operations** (`sets_of_write`, `sets_of_remove`, `sets_of_move`): an operation on a file changes what one
  place holds, or two, and leaves all directories as they are (`Workspace.Sets`).
- **Paths** (`locate_eq_ok`): which place a path leads to depends on the directories only, and a path that leads
  somewhere leads there when there are more of them (`KeepsDirectories.locate_of_ok`).
- **New directories** (`Workspace.GrowsAlong`): they stand on given paths, where nothing stood before.
- **Stems** (`getLast?_of_locate`): the place of a path that ends in an extension ends in it too, so paths with one
  stem and different extensions lead to different places.
-/

namespace LuaGlue.Run

/-! ## Nodes -/

theorem lookup_replace (l : List (Place × Node)) (p q : Place) (n : Node) :
    (l.map fun e => if e.1 == p then (p, n) else e).lookup q =
      if q = p then (l.lookup p).map fun _ => n else l.lookup q := by
  induction l with
  | nil => simp
  | cons e l ih =>
    rw [List.map_cons, List.lookup_cons, List.lookup_cons, List.lookup_cons, ih]
    by_cases he : e.1 = p
    · subst he
      by_cases hq : q = e.1
      · simp [hq]
      · simp [hq, beq_eq_false_iff_ne.mpr hq]
    · by_cases hq : q = p
      · subst hq
        simp [he, beq_eq_false_iff_ne.mpr (Ne.symm he)]
      · simp [he, hq]

theorem lookup_filter_ne (l : List (Place × Node)) (p q : Place) :
    (l.filter (·.1 != p)).lookup q = if q = p then none else l.lookup q := by
  induction l with
  | nil => simp
  | cons e l ih =>
    rw [List.filter_cons, List.lookup_cons]
    grind

namespace Workspace

variable {w w' : Workspace} {p q : Place} {path : String}

/-- The working directory and those above it are directories in every workspace. -/
theorem node?_of_isPrefixOf (h : p.isPrefixOf w.origin) : w.node? p = some .directory := by
  rw [node?, if_pos h]

/-- What a place holds is nothing to the rest of a workspace: the working directory and the denied accesses
stay. -/
theorem put_frame (w : Workspace) (p : Place) (n : Node) :
    (w.put p n).origin = w.origin ∧ (w.put p n).denied = w.denied := by
  unfold put
  split
  · exact ⟨rfl, rfl⟩
  · exact ⟨rfl, rfl⟩

/-- Putting something changes its place and no other. A place on the way to the working directory is left out,
since it is a directory whatever the nodes say. -/
theorem node?_put (hp : ¬p.isPrefixOf w.origin) (n : Node) :
    (w.put p n).node? q = if q = p then some n else w.node? q := by
  unfold put
  split
  · rename_i hsome
    obtain ⟨m, hm⟩ := Option.isSome_iff_exists.mp hsome
    rw [node?, node?, lookup_replace, hm]
    grind
  · rename_i hnone
    rw [Option.isSome_iff_ne_none, ne_eq, not_not] at hnone
    rw [node?, node?, List.lookup_append, List.lookup_cons]
    by_cases hq : q = p
    · subst hq
      simp only [hp, hnone, beq_self_eq_true]
      rfl
    · rw [beq_eq_false_iff_ne.mpr hq]
      simp [hq]

/-- Erasing leaves nothing at the place, under the same condition as in `node?_put`. -/
theorem node?_erase (hp : ¬p.isPrefixOf w.origin) : (w.erase p).node? q = if q = p then none else w.node? q := by
  rw [node?, node?, erase, lookup_filter_ne]
  grind

/-! ## Files -/

/-- What the file at a place holds, if there is one. -/
def file? (w : Workspace) (p : Place) : Option Content :=
  match w.node? p with
  | some (.file c) => some c
  | _ => none

theorem file?_eq_some {c : Content} : w.file? p = some c ↔ w.node? p = some (.file c) := by
  rw [file?]
  split
  · rename_i heq
    simp [heq]
  · rename_i hne
    simp only [reduceCtorEq, false_iff]
    exact hne c

theorem file?_of_none (h : w.node? p = none) : w.file? p = none := by
  rw [file?, h]

/-- Nothing stands at a place that holds no file and is no directory, so `file?` and the directories decide
`node?`. -/
theorem node?_eq_none : w.node? p = none ↔ w.file? p = none ∧ w.node? p ≠ some .directory := by
  rw [file?]
  rcases hnode : w.node? p with _ | n
  · simp
  · cases n <;> simp

/-- Every directory stays one, and so does the working directory. -/
structure KeepsDirectories (w w' : Workspace) : Prop where
  origin : w'.origin = w.origin
  node? : ∀ p, w.node? p = some .directory → w'.node? p = some .directory

/-- The same places are directories, and the working directory is the same. -/
structure SameDirectories (w w' : Workspace) : Prop where
  origin : w'.origin = w.origin
  node? : ∀ p, w'.node? p = some .directory ↔ w.node? p = some .directory

theorem SameDirectories.refl (w : Workspace) : w.SameDirectories w := ⟨rfl, fun _ => Iff.rfl⟩

theorem SameDirectories.keeps (h : w.SameDirectories w') : w.KeepsDirectories w' :=
  ⟨h.origin, fun p => (h.node? p).mpr⟩

theorem SameDirectories.symm (h : w.SameDirectories w') : w'.SameDirectories w :=
  ⟨h.origin.symm, fun p => (h.node? p).symm⟩

/-- One place holds another content, or none, and all else is as it was. -/
structure Sets (w : Workspace) (p : Place) (c : Option Content) (w' : Workspace) : Prop where
  file? : w'.file? = Function.update w.file? p c
  directories : w.SameDirectories w'
  denied : w'.denied = w.denied

/-- Putting a file where no directory stands `Sets` the content of that place. -/
theorem sets_put (hp : w.node? p ≠ some .directory) (c : Content) :
    w.Sets p (some c) (w.put p (.file c)) := by
  have habove : ¬p.isPrefixOf w.origin := fun h => hp (node?_of_isPrefixOf h)
  obtain ⟨horigin, hdenied⟩ := put_frame w p (.file c)
  refine ⟨?_, ⟨horigin, fun q => ?_⟩, hdenied⟩
  · funext q
    by_cases hq : q = p
    · subst hq
      simp [Workspace.file?, node?_put habove]
    · simp [Workspace.file?, node?_put habove, hq]
  · by_cases hq : q = p
    · subst hq
      simp [node?_put habove, hp]
    · simp [node?_put habove, hq]

/-- Erasing where no directory stands leaves no file there. -/
theorem sets_erase (hp : w.node? p ≠ some .directory) : w.Sets p none (w.erase p) := by
  have habove : ¬p.isPrefixOf w.origin := fun h => hp (node?_of_isPrefixOf h)
  refine ⟨?_, ⟨rfl, fun q => ?_⟩, rfl⟩
  · funext q
    by_cases hq : q = p
    · subst hq
      simp [Workspace.file?, node?_erase habove]
    · simp [Workspace.file?, node?_erase habove, hq]
  · by_cases hq : q = p
    · subst hq
      simp [node?_erase habove, hp]
    · simp [node?_erase habove, hq]

/-! ## Operations -/

theorem permit_eq_ok {a : Access} {u : Unit} : w.permit a = .ok u ↔ w.denied a = none := by
  unfold permit
  split
  · rename_i heq
    simp [heq]
  · rename_i heq
    simp [heq]

/-- A file that was written stands at the place that the path leads to. -/
theorem sets_of_write {text : String} (h : w.write path text = .ok w') :
    ∃ p, w.locate path = .ok p ∧ w.Sets p (some (.text text)) w' := by
  obtain ⟨-, -, h⟩ := Except.bind_eq_ok.mp h
  obtain ⟨p, hp, h⟩ := Except.bind_eq_ok.mp h
  refine ⟨p, hp, ?_⟩
  split at h
  · cases h
  · rename_i hne
    cases h
    exact sets_put hne _

theorem sets_of_remove (h : w.remove path = .ok w') : ∃ p, w.locate path = .ok p ∧ w.Sets p none w' := by
  obtain ⟨-, -, h⟩ := Except.bind_eq_ok.mp h
  obtain ⟨p, hp, h⟩ := Except.bind_eq_ok.mp h
  refine ⟨p, hp, ?_⟩
  split at h
  · cases h
  · cases h
  · rename_i c hfile
    cases h
    exact sets_erase (by simp [hfile])

/-- A file that is there can be removed, unless that is denied. -/
theorem remove_of_file {c : Content} (hdenied : w.denied (.remove path) = none) (hp : w.locate path = .ok p)
    (hfile : w.file? p = some c) : ∃ w', w.remove path = .ok w' := by
  refine ⟨w.erase p, Except.bind_eq_ok.mpr ⟨(), permit_eq_ok.mpr hdenied, Except.bind_eq_ok.mpr ⟨p, hp, ?_⟩⟩⟩
  rw [file?_eq_some.mp hfile]

/-- Where a removal that is not denied fails there is no file: it fails for want of a file or of a place. -/
theorem file?_of_remove_error (hdenied : w.denied (.remove path) = none) {code : SystemCode}
    (h : w.remove path = .error code) (p : Place) (hp : w.locate path = .ok p) : w.file? p = none := by
  cases hfile : w.file? p with
  | none => rfl
  | some c =>
    obtain ⟨w', hw'⟩ := remove_of_file hdenied hp hfile
    rw [hw'] at h
    cases h

theorem file?_of_not_has (h : ¬w.has path) (p : Place) (hp : w.locate path = .ok p) : w.file? p = none := by
  rw [has, at?, hp] at h
  exact file?_of_none (by simpa using h)

/-- The content goes from the one place to the other. Both updates are made even if the places are equal, and
then the second one counts. -/
theorem sets_of_move {target : String} (h : w.move path target = .ok w') :
    ∃ p q c w₁, w.locate path = .ok p ∧ w.locate target = .ok q ∧ w.file? p = some c ∧
      w.Sets p none w₁ ∧ w₁.Sets q (some c) w' := by
  obtain ⟨-, -, h⟩ := Except.bind_eq_ok.mp h
  obtain ⟨p, hp, h⟩ := Except.bind_eq_ok.mp h
  obtain ⟨q, hq, h⟩ := Except.bind_eq_ok.mp h
  split at h
  · cases h
  · cases h
  · cases h
  · rename_i c hfile hne
    cases h
    have herase := sets_erase (w := w) (p := p) (by simp [hfile])
    refine ⟨p, q, c, w.erase p, hp, hq, file?_eq_some.mpr hfile, herase, sets_put ?_ c⟩
    intro hdirectory
    exact hne ((herase.directories.node? q).mp hdirectory)

/-! ## Paths -/

/-- A walk passes directories only, and all of them are still there. By induction over the steps. -/
theorem KeepsDirectories.walk_of_ok (h : w.KeepsDirectories w') {here : Place} {steps : List String}
    (hwalk : w.walk here steps = .ok p) : w'.walk here steps = .ok p := by
  induction steps generalizing here with
  | nil => exact hwalk
  | cons step rest ih =>
    simp only [walk] at hwalk ⊢
    split at hwalk
    · cases hwalk
    · rename_i hlength
      rw [if_neg hlength]
      split at hwalk
      · rename_i hlast
        rw [if_pos hlast, hwalk]
      · rename_i hlast
        rw [if_neg hlast]
        split at hwalk
        · rename_i hdirectory
          rw [h.node? _ hdirectory]
          exact ih hwalk
        · cases hwalk
        · cases hwalk

/-- A path that leads to a place still does so when there are more directories: all that it passes are there. -/
theorem KeepsDirectories.locate_of_ok (h : w.KeepsDirectories w') (hp : w.locate path = .ok p) :
    w'.locate path = .ok p := by
  have hstart : w'.start path = w.start path := by rw [start, start, h.origin]
  simp only [locate] at hp ⊢
  split at hp
  · cases hp
  · rename_i hlength
    split at hp
    · cases hp
    · rename_i hne
      rw [if_neg hlength, if_neg hne, hstart]
      exact h.walk_of_ok hp

/-- **Where a path leads** depends on the directories only, by `KeepsDirectories.locate_of_ok` in both
directions. -/
theorem SameDirectories.locate_eq_ok (h : w.SameDirectories w') : w'.locate path = .ok p ↔ w.locate path = .ok p :=
  ⟨h.symm.keeps.locate_of_ok, h.keeps.locate_of_ok⟩

/-! ## New directories -/

/-- Every directory stays one, and a new one stands where one of the paths leads and nothing stood before. -/
structure GrowsAlong (paths : List String) (w w' : Workspace) : Prop extends w.KeepsDirectories w' where
  made : ∀ p, w'.node? p = some .directory → w.node? p = some .directory ∨
    w.node? p = none ∧ ∃ path ∈ paths, w'.locate path = .ok p

namespace GrowsAlong

variable {paths : List String} {w'' : Workspace}

theorem refl (paths : List String) (w : Workspace) : GrowsAlong paths w w where
  origin := rfl
  node? _ h := h
  made _ h := .inl h

/-- Growth goes on, along the same paths. No file may be lost on the way: a directory could take its place. -/
theorem trans (h : GrowsAlong paths w w') (hfile : w'.file? = w.file?) (h' : GrowsAlong paths w' w'') :
    GrowsAlong paths w w'' where
  origin := h'.origin.trans h.origin
  node? p hp := h'.node? p (h.node? p hp)
  made p hp := by
    rcases h'.made p hp with hp' | ⟨hnone, hpath⟩
    · refine (h.made p hp').imp_right fun ⟨hnone, path, hmem, hlocate⟩ => ?_
      exact ⟨hnone, path, hmem, h'.toKeepsDirectories.locate_of_ok hlocate⟩
    · rw [node?_eq_none, hfile] at hnone
      exact .inr ⟨node?_eq_none.mpr ⟨hnone.1, fun hdirectory => hnone.2 (h.node? p hdirectory)⟩, hpath⟩

/-- Operations on files keep what is known of directories. -/
theorem sameDirectories (h : GrowsAlong paths w w') (hsame : w'.SameDirectories w'') : GrowsAlong paths w w'' where
  origin := hsame.origin.trans h.origin
  node? p hp := (hsame.node? p).mpr (h.node? p hp)
  made p hp := by
    refine (h.made p ((hsame.node? p).mp hp)).imp_right fun ⟨hnone, path, hmem, hlocate⟩ => ?_
    exact ⟨hnone, path, hmem, hsame.locate_eq_ok.mpr hlocate⟩

end GrowsAlong

/-- A new directory stands where its path leads, and no file is touched, as `makeDirectory` refuses a place that
holds anything. -/
theorem growsAlong_of_makeDirectory {paths : List String} (hpath : path ∈ paths)
    (h : w.makeDirectory path = .ok w') :
    w'.file? = w.file? ∧ w'.denied = w.denied ∧ GrowsAlong paths w w' := by
  obtain ⟨-, -, h⟩ := Except.bind_eq_ok.mp h
  obtain ⟨p, hp, h⟩ := Except.bind_eq_ok.mp h
  split at h
  · cases h
  · rename_i hnone
    cases h
    -- the directories above the working directory are there in any case, so the new one is none of them
    have habove : ¬p.isPrefixOf w.origin := fun h => by simp [node?_of_isPrefixOf h] at hnone
    obtain ⟨horigin, hdenied⟩ := put_frame w p .directory
    have hkeeps : w.KeepsDirectories (w.put p .directory) := by
      refine ⟨horigin, fun q hq => ?_⟩
      by_cases heq : q = p <;> simp [node?_put habove, heq, hq]
    refine ⟨funext fun q => ?_, hdenied, hkeeps, fun q hq => ?_⟩
    · by_cases heq : q = p
      · subst heq
        simp [Workspace.file?, node?_put habove, hnone]
      · simp [Workspace.file?, node?_put habove, heq]
    · by_cases heq : q = p
      · subst heq
        exact .inr ⟨hnone, path, hpath, hkeeps.locate_of_ok hp⟩
      · rw [node?_put habove, if_neg heq] at hq
        exact .inl hq

/-- The last step is taken from some directory, so the place it leads to is `Place.enter` of that one. -/
theorem exists_enter_of_walk {here : Place} {steps : List String} {last : String}
    (h : w.walk here (steps ++ [last]) = .ok p) : ∃ before : Place, p = before.enter last := by
  induction steps generalizing here with
  | nil =>
    simp only [List.nil_append, walk] at h
    split at h
    · cases h
    · cases h
      exact ⟨here, rfl⟩
  | cons step rest ih =>
    simp only [List.cons_append, walk] at h
    split at h
    · cases h
    · split at h
      · rename_i hnil
        simp at hnil
      · split at h
        · exact ih h
        · cases h
        · cases h

end Workspace

/-! ## Stems -/

theorem splitSlashes_of_notMem {cs : List Char} (h : '/' ∉ cs) : splitSlashes cs = [cs] := by
  induction cs with
  | nil => rfl
  | cons c cs ih =>
    rw [List.mem_cons, not_or] at h
    have hc : (c == '/') = false := beq_eq_false_iff_ne.mpr (Ne.symm h.1)
    rw [splitSlashes, hc, ih h.2]
    rfl

/-- An extension belongs to the last part. -/
theorem exists_splitSlashes (cs : List Char) :
    ∃ front tail, ∀ ext, '/' ∉ ext → splitSlashes (cs ++ ext) = front ++ [tail ++ ext] := by
  induction cs with
  | nil => exact ⟨[], [], fun ext h => splitSlashes_of_notMem h⟩
  | cons c cs ih =>
    obtain ⟨front, tail, hsplit⟩ := ih
    by_cases hc : c = '/'
    · refine ⟨[] :: front, tail, fun ext h => ?_⟩
      simp [splitSlashes, hc, hsplit ext h]
    · cases front with
      | nil =>
        refine ⟨[], c :: tail, fun ext h => ?_⟩
        have hrest : splitSlashes (cs ++ ext) = [tail ++ ext] := hsplit ext h
        simp [splitSlashes, hc, hrest]
      | cons part front =>
        refine ⟨(c :: part) :: front, tail, fun ext h => ?_⟩
        simp [splitSlashes, hc, hsplit ext h]

/-- Whatever extension is put behind a stem, the steps in front of the last are the same, and the last one ends
in the extension. -/
theorem exists_pathSteps (stem : String) : ∃ (front : List String) (tail : String), ∀ ext : String,
    '/' ∉ ext.toList → ext ≠ "" → pathSteps (stem ++ ext) = front ++ [tail ++ ext] := by
  obtain ⟨front, tail, hsplit⟩ := exists_splitSlashes stem.toList
  refine ⟨(front.map String.ofList).filter (· != ""), String.ofList tail, fun ext hslash hne => ?_⟩
  have hlast : String.ofList (tail ++ ext.toList) = String.ofList tail ++ ext := by simp
  have hkept : (String.ofList tail ++ ext != "") = true := by simp [hne]
  rw [pathSteps, String.toList_append, hsplit _ hslash, List.map_append, List.filter_append]
  simp only [List.map_cons, List.map_nil, hlast, List.filter_cons, hkept]
  rfl

/-- A step of more than two characters is neither `.` nor `..`, so it goes down. -/
theorem Place.enter_of_length {step : String} (h : 2 < step.length) (here : Place) :
    here.enter step = here ++ [step] := by
  have hdot : (step == ".") = false := by
    rw [beq_eq_false_iff_ne]
    rintro rfl
    exact absurd h (by decide)
  have hdots : (step == "..") = false := by
    rw [beq_eq_false_iff_ne]
    rintro rfl
    exact absurd h (by decide)
  rw [Place.enter, hdot, hdots]
  rfl

/-- **Extensions** show in the place that a path leads to: its last name ends in the extension. -/
theorem getLast?_of_locate (stem : String) : ∃ tail : String, ∀ (w : Workspace) (ext : String) (p : Place),
    '/' ∉ ext.toList → 2 < ext.length → w.locate (stem ++ ext) = .ok p → p.getLast? = some (tail ++ ext) := by
  obtain ⟨front, tail, hsteps⟩ := exists_pathSteps stem
  refine ⟨tail, fun w ext p hslash hlength h => ?_⟩
  have hne : ext ≠ "" := by
    rintro rfl
    exact absurd hlength (by decide)
  rw [Workspace.locate] at h
  split at h
  · cases h
  · split at h
    · cases h
    · rw [hsteps ext hslash hne] at h
      obtain ⟨before, rfl⟩ := Workspace.exists_enter_of_walk h
      have hlast : 2 < (tail ++ ext).length := by
        rw [String.length_append]
        omega
      rw [Place.enter_of_length hlast]
      simp

end LuaGlue.Run
