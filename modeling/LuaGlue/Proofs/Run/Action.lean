import LuaGlue.Proofs.Run.Workspace
import LuaGlue.Run.Generator
import Mathlib.Order.Defs.Unbundled

/-!
# How runs end

- **Endings** (`Ensures`): what holds of the result of an action and the state behind it, and what of its error
  and the state there. An action that fails keeps what it has changed.
- **Workspaces** (`Within`): how an action that fails or not may change the workspace. Printing and computing
  change nothing, and making directories touches no file and adds directories on the way to the path alone
  (`Furnishes`), even where it fails halfway (`within_makeDirectories`).
-/

namespace LuaGlue.Run

variable {α β : Type} {x : Action α} {s : State}

/-! ## Endings -/

theorem stateM_bind (y : StateM State α) (f : α → StateM State β) (s : State) :
    (y >>= f) s = f (y s).1 (y s).2 := rfl

/-- A result is handed on, an error ends the run. -/
theorem run_bind (f : α → Action β) : (x >>= f).run s =
    match x.run s with
    | (.ok a, s') => (f a).run s'
    | (.error e, s') => (.error e, s') := by
  rw [ExceptT.run_bind, stateM_bind]
  rcases x.run s with ⟨e | a, s'⟩ <;> rfl

/-- A handler takes over in the state that the failed action has left. -/
theorem run_tryCatch (handle : Error → Action α) : (tryCatch x handle).run s =
    match x.run s with
    | (.ok a, s') => (.ok a, s')
    | (.error e, s') => (handle e).run s' := by
  rw [ExceptT.run_tryCatch, stateM_bind]
  rcases x.run s with ⟨e | a, s'⟩ <;> rfl

/-- From the state, the action ends in a result and a state with `Q`, or in an error and a state with `E`. -/
def Ensures (x : Action α) (s : State) (Q : α → State → Prop) (E : Error → State → Prop) : Prop :=
  match x.run s with
  | (.ok a, s') => Q a s'
  | (.error e, s') => E e s'

namespace Ensures

variable {Q Q' : α → State → Prop} {E E' : Error → State → Prop}

theorem mono (h : Ensures x s Q E) (hQ : ∀ a s', Q a s' → Q' a s') (hE : ∀ e s', E e s' → E' e s') :
    Ensures x s Q' E' := by
  unfold Ensures at h ⊢
  split
  · rename_i a s' heq
    rw [heq] at h
    exact hQ a s' h
  · rename_i e s' heq
    rw [heq] at h
    exact hE e s' h

theorem of_ok (h : Ensures x s Q E) {a : α} {s' : State} (hx : x.run s = (.ok a, s')) : Q a s' := by
  rw [Ensures, hx] at h
  exact h

theorem of_error (h : Ensures x s Q E) {e : Error} {s' : State} (hx : x.run s = (.error e, s')) : E e s' := by
  rw [Ensures, hx] at h
  exact h

/-- What follows an action starts in the state that the action has left. `E` is the same for both, since errors
are handed on. -/
theorem bind {f : α → Action β} {Q : β → State → Prop}
    (h : Ensures x s (fun a s' => Ensures (f a) s' Q E) E) : Ensures (x >>= f) s Q E := by
  unfold Ensures at h ⊢
  rw [run_bind]
  split at h
  · exact h
  · exact h

theorem print {line : String} {Q : Unit → State → Prop}
    (h : Q () { s with printed := s.printed ++ [line] }) : Ensures (print line) s Q E := h

theorem get {f : State → Action α} (h : Ensures (f s) s Q E) : Ensures (get >>= f) s Q E := bind h

/-- A handler has to make up for every error that `x` can end with. -/
theorem tryCatch {handle : Error → Action α}
    (h : Ensures x s Q fun e s' => Ensures (handle e) s' Q E) : Ensures (tryCatch x handle) s Q E := by
  unfold Ensures at h ⊢
  rw [run_tryCatch]
  split at h
  · exact h
  · exact h

/-- A computation without effects ends in the state it started from. -/
theorem pureStep {r : Except Error α} (hok : ∀ a, r = .ok a → Q a s) (herror : ∀ e, r = .error e → E e s) :
    Ensures (pureStep r) s Q E := by
  cases r with
  | ok a => exact hok a rfl
  | error e => exact herror e rfl

end Ensures

/-! ## Changes of the workspace -/

/-- However the action ends, the workspace behind it is related to the one before. -/
def Within (R : Workspace → Workspace → Prop) (x : Action α) : Prop :=
  ∀ s, Ensures x s (fun _ s' => R s.workspace s'.workspace) fun _ s' => R s.workspace s'.workspace

section

variable {R : Workspace → Workspace → Prop} [IsPreorder Workspace R]

/-- Relations between workspaces are composed along a run, so `R` has to be transitive. -/
theorem Within.bind {f : α → Action β} (h : Within R x) (hf : ∀ a, Within R (f a)) : Within R (x >>= f) := by
  intro s
  apply Ensures.bind
  refine (h s).mono (fun a s' hs' => ?_) fun e s' hs' => hs'
  exact (hf a s').mono (fun _ _ ht => trans_of R hs' ht) fun _ _ ht => trans_of R hs' ht

theorem within_pure (a : α) : Within R (pure a) := fun s => refl_of R s.workspace

theorem within_print (line : String) : Within R (print line) := fun s => refl_of R s.workspace

theorem within_pureStep (r : Except Error α) : Within R (pureStep r) := fun s =>
  .pureStep (fun _ _ => refl_of R s.workspace) fun _ _ => refl_of R s.workspace

theorem within_forM {l : List β} {f : β → Action PUnit} (h : ∀ a, Within R (f a)) : Within R (l.forM f) := by
  induction l with
  | nil => exact within_pure _
  | cons a l ih => exact (h a).bind fun _ => ih

end

/-- Directories are added on some paths. The files are the same, and the same accesses are denied. -/
structure Furnishes (paths : List String) (w w' : Workspace) : Prop where
  file? : w'.file? = w.file?
  denied : w'.denied = w.denied
  directories : w.GrowsAlong paths w'

instance (paths : List String) : IsPreorder Workspace (Furnishes paths) where
  refl w := ⟨rfl, rfl, .refl paths w⟩
  trans _ _ _ h h' := ⟨h'.file?.trans h.file?, h'.denied.trans h.denied, h.directories.trans h.file? h'.directories⟩

variable {paths : List String}

/-- Making one directory adds it, or it is there already, or nothing has changed. -/
theorem within_ensureDirectory {path : String} (hpath : path ∈ paths) :
    Within (Furnishes paths) (ensureDirectory path) := by
  refine (within_pureStep _).bind fun _ s => ?_
  apply Ensures.get
  split
  · rename_i w hmade
    obtain ⟨hfile, hdenied, hgrows⟩ := Workspace.growsAlong_of_makeDirectory hpath hmade
    exact ⟨hfile, hdenied, hgrows⟩
  · apply Ensures.get
    split
    · exact refl_of (Furnishes paths) s.workspace
    · exact refl_of (Furnishes paths) s.workspace

theorem within_allowExisting {x : Action Unit} (h : Within (Furnishes paths) x) :
    Within (Furnishes paths) (allowExisting x) := by
  intro s
  apply Ensures.tryCatch
  refine (h s).mono (fun _ _ hs' => hs') fun e s' hs' => ?_
  split
  · exact hs'
  · exact hs'

/-- By induction over the directories on the way, innermost first: whatever has been made before an error stays,
and it lies on one of the `paths`. -/
theorem within_makeThrough {path : String} {outer : List String} (hpaths : ∀ p ∈ path :: outer, p ∈ paths) :
    Within (Furnishes paths) (makeThrough path outer) := by
  induction outer generalizing path with
  | nil => exact within_ensureDirectory (hpaths path (by simp))
  | cons above outer ih =>
    obtain ⟨hpath, houter⟩ := List.forall_mem_cons.mp hpaths
    unfold makeThrough
    intro s
    apply Ensures.get
    split
    · exact within_ensureDirectory hpath s
    · refine (within_allowExisting (ih houter)).bind (fun _ => ?_) s
      split
      · exact within_pure _
      · exact within_ensureDirectory hpath

/-- **Directories** are made on the way to the path of `makeDirectories`, without touching a file. -/
theorem within_makeDirectories (path : String) : Within (Furnishes (withWaypoints path)) (makeDirectories path) :=
  within_makeThrough fun p hp => by simpa [withWaypoints, or_comm] using hp

end LuaGlue.Run
