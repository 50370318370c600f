import LuaGlue.Proofs.Code.Lines
import LuaGlue.Proofs.Lua.ConversionLines
import LuaGlue.Proofs.Lua.FunctionNames

/-!
# What a unit defines

A unit defines functions and arrays at its first level, each by a line that opens it.

- **Symbols** (`Symbol.Opens`): the line that opens a definition shows its kind and its name, so that it
  opens one definition only (`Symbol.opens_unique`).
- **Lines** (`Listed`): the definitions that lines open, in order. A symbol that is listed once is opened by
  one line (`Listed.once`).
- **Steps** (`Defines`, `Shows`): the definitions in what steps write, and lines that stand in it. A block
  defines what its head opens.
-/

namespace LuaGlue.Lua

open Code (Step Inner Inside)
open Text (OneLine)

/-! ## Symbols -/

/-- What a unit defines, by the kind of line that opens it. -/
inductive Symbol where
  /-- A function that Lua calls. -/
  | function (name : String)
  /-- A function that adds to the tables of the module. -/
  | registration (name : String)
  /-- An array of functions. -/
  | array (name : String)
  /-- A function that reads the value at a stack index. -/
  | reader (name : String)
  deriving DecidableEq

namespace Symbol

/-- The line opens the definition of the symbol. A reader may give any type. -/
def Opens : Symbol → String → Prop
  | .function name, l => l = "static int " ++ name ++ "(lua_State* L) \x7b"
  | .registration name, l => l = "static void " ++ name ++ "(lua_State* L) \x7b"
  | .array name, l => l = "static const luaL_Reg " ++ name ++ "[] = \x7b"
  | .reader name, l => ∃ type, l = "static " ++ type ++ " " ++ name ++ "(lua_State* L, int idx) \x7b"

/-- The type of a reader ends where its name begins. -/
def Plain : Symbol → Prop
  | .reader name => ' ' ∉ name.toList
  | _ => True

variable {σ τ : Symbol} {l : String}

theorem Opens.marked (h : σ.Opens l) : mark <+: l.toList := by
  cases σ with
  | function name => subst h; exact ⟨_, by simp [mark]; rfl⟩
  | registration name => subst h; exact ⟨_, by simp [mark]; rfl⟩
  | array name => subst h; exact ⟨_, by simp [mark]; rfl⟩
  | reader name => obtain ⟨type, rfl⟩ := h; exact ⟨_, by simp [mark]; rfl⟩

/-- How the line ends that opens a symbol of this kind. -/
def ending : Symbol → List Char
  | .function _ => ['L', ')', ' ', '\x7b']
  | .registration _ => ['L', ')', ' ', '\x7b']
  | .array _ => [' ', '=', ' ', '\x7b']
  | .reader _ => ['x', ')', ' ', '\x7b']

theorem length_ending (σ : Symbol) : σ.ending.length = 4 := by cases σ <;> rfl

theorem Opens.ending (h : σ.Opens l) : σ.ending <:+ l.toList := by
  cases σ with
  | function name =>
    subst h
    exact ⟨("static int " ++ name ++ "(lua_State* ").toList, by simp [Symbol.ending]⟩
  | registration name =>
    subst h
    exact ⟨("static void " ++ name ++ "(lua_State* ").toList, by simp [Symbol.ending]⟩
  | array name =>
    subst h
    exact ⟨("static const luaL_Reg " ++ name ++ "[]").toList, by simp [Symbol.ending]⟩
  | reader name =>
    obtain ⟨type, rfl⟩ := h
    exact ⟨("static " ++ type ++ " " ++ name ++ "(lua_State* L, int id").toList,
      by simp [Symbol.ending]⟩

/-- The last four characters of a line tell which kinds of symbol it can open. -/
theorem Opens.ending_eq (h : σ.Opens l) {cs : List Char} (hcs : cs <:+ l.toList) (hlen : cs.length = 4) :
    σ.ending = cs := by
  rcases List.suffix_or_suffix_of_suffix h.ending hcs with hsuffix | hsuffix
  · exact hsuffix.eq_of_length (by rw [length_ending, hlen])
  · exact (hsuffix.eq_of_length (by rw [length_ending, hlen])).symm

/-- A line opens one definition only: kinds differ in what stands around the name, and the name of a reader is
`Plain`, so it begins behind the last blank. -/
theorem opens_unique (hσ : σ.Plain) (hτ : τ.Plain) (h : σ.Opens l) (h' : τ.Opens l) : σ = τ := by
  have hending : σ.ending = τ.ending := h.ending_eq h'.ending (length_ending τ)
  cases σ <;> cases τ
  case function.function name name' => simpa using h.symm.trans h'
  case registration.registration name name' => simpa using h.symm.trans h'
  case array.array name name' => simpa using h.symm.trans h'
  case reader.reader name name' =>
    obtain ⟨type, rfl⟩ := h
    obtain ⟨type', h'⟩ := h'
    -- read from its end, the line shows the name up to the first blank
    have hlists : name.toList.reverse ++ ' ' :: ("static " ++ type).toList.reverse =
        name'.toList.reverse ++ ' ' :: ("static " ++ type').toList.reverse := by
      simpa using congrArg (fun l => l.toList.reverse) h'
    have hname := (List.append_cons_inj_of_notMem_left (by simpa [Plain] using hσ)
      (by simpa [Plain] using hτ) hlists).1
    rw [String.toList_inj.mp (List.reverse_inj.mp hname)]
  case function.registration name name' =>
    have hlists := congrArg String.toList (h.symm.trans h')
    simp at hlists
  case registration.function name name' =>
    have hlists := congrArg String.toList (h.symm.trans h')
    simp at hlists
  all_goals simp [ending] at hending

end Symbol

/-! ## Lines -/

/-- The symbols that the lines open, in order. -/
inductive Listed : List String → List Symbol → Prop
  | nil : Listed [] []
  | other {l ls σs} : (∀ σ : Symbol, ¬σ.Opens l) → Listed ls σs → Listed (l :: ls) σs
  | opens {l σ ls σs} : σ.Plain → σ.Opens l → Listed ls σs → Listed (l :: ls) (σ :: σs)

namespace Listed

variable {l : String} {ls ls' : List String} {σs σs' : List Symbol} {σ : Symbol}

theorem append (h : Listed ls σs) (h' : Listed ls' σs') : Listed (ls ++ ls') (σs ++ σs') := by
  induction h with
  | nil => exact h'
  | other hnone _ ih => exact .other hnone ih
  | opens hplain hopens _ ih => exact .opens hplain hopens ih

/-- Lines that do not begin like a definition, with the word `static`, open none. -/
theorem of_not_marked (h : ∀ l ∈ ls, ¬mark <+: l.toList) : Listed ls [] := by
  induction ls with
  | nil => exact .nil
  | cons l ls ih =>
    rw [List.forall_mem_cons] at h
    exact .other (fun σ hσ => h.1 hσ.marked) (ih h.2)

theorem of_inner (h : ∀ l ∈ ls, Inner l) : Listed ls [] := by
  refine of_not_marked fun l hl ⟨rest, hrest⟩ => ?_
  have hfirst := h l hl 's' (by simp [← hrest, mark])
  exact absurd hfirst (by decide)

theorem of_indented (ts : List String) : Listed (ts.map (Code.indented 1)) [] :=
  of_inner (List.forall_mem_map.mpr fun t _ => Code.inner_indented 0 t)

theorem plain (h : Listed ls σs) : ∀ σ ∈ σs, σ.Plain := by
  induction h with
  | nil => simp
  | other _ _ ih => exact ih
  | opens hplain _ _ ih => exact List.forall_mem_cons.mpr ⟨hplain, ih⟩

/-- A listed symbol is opened by some line. -/
theorem exists_of_mem (h : Listed ls σs) (hσ : σ ∈ σs) : ∃ l ∈ ls, σ.Opens l := by
  induction h with
  | nil => cases hσ
  | other _ _ ih =>
    obtain ⟨l, hl, hopens⟩ := ih hσ
    exact ⟨l, by simp [hl], hopens⟩
  | opens _ hopens _ ih =>
    rcases List.mem_cons.mp hσ with rfl | hσ
    · exact ⟨_, by simp, hopens⟩
    · obtain ⟨l, hl, hopens⟩ := ih hσ
      exact ⟨l, by simp [hl], hopens⟩

/-- A symbol that a line opens is listed, since no line opens two by `opens_unique`. -/
theorem mem_of_opens (h : Listed ls σs) (hσ : σ.Plain) (hl : l ∈ ls) (hopens : σ.Opens l) : σ ∈ σs := by
  induction h with
  | nil => cases hl
  | other hnone _ ih =>
    rcases List.mem_cons.mp hl with rfl | hl
    · exact absurd hopens (hnone σ)
    · exact ih hl
  | opens hplain hfirst _ ih =>
    rcases List.mem_cons.mp hl with rfl | hl
    · rw [Symbol.opens_unique hσ hplain hopens hfirst]
      exact List.mem_cons_self
    · exact List.mem_cons_of_mem _ (ih hl)

/-- Where no symbol is listed twice, no two lines open the same one. By induction over `Listed`. -/
theorem once (h : Listed ls σs) (hnodup : σs.Nodup) (hσ : σ.Plain) :
    ls.Pairwise fun a b => ¬(σ.Opens a ∧ σ.Opens b) := by
  induction h with
  | nil => exact .nil
  | other hnone _ ih => exact .cons (fun _ _ hboth => hnone σ hboth.1) (ih hnodup)
  | opens hplain hfirst hrest ih =>
    rw [List.nodup_cons] at hnodup
    refine .cons (fun b hb hboth => hnodup.1 ?_) (ih hnodup.2)
    rw [← Symbol.opens_unique hσ hplain hboth.1 hfirst]
    exact hrest.mem_of_opens hσ hb hboth.2

/-- The lines of a block, with an empty line after it, open what its head does. -/
theorem block {head : String} (hhead : Listed [head] σs) (hbody : Listed ls []) :
    Listed (head :: ls ++ ["\x7d", ""]) σs := by
  have hfoot : Listed ["\x7d", ""] [] := of_not_marked (by simp [mark])
  simpa using (hhead.append hbody).append hfoot

end Listed

/-! ## Steps -/

theorem writes_block {head : String} {body : List Step} {ls : List String} (hhead : OneLine head)
    (hbody : Code.Writes 1 body ls) :
    Code.Writes 0 (Code.block head body ++ [Code.blank]) (head :: ls ++ ["\x7d", ""]) := by
  have hblank : Code.Writes 0 [Code.blank] [""] := .line (by decide)
  simpa using (Code.Writes.block hhead hbody).append hblank

/-- At the first level the steps write lines that open these symbols. -/
def Defines (steps : List Step) (σs : List Symbol) : Prop := ∃ ls, Code.Writes 0 steps ls ∧ Listed ls σs

namespace Defines

variable {steps steps' : List Step} {σs σs' : List Symbol} {σ : Symbol}

theorem nil : Defines [] [] := ⟨[], .nil, .nil⟩

theorem append (h : Defines steps σs) (h' : Defines steps' σs') : Defines (steps ++ steps') (σs ++ σs') := by
  obtain ⟨ls, hw, hl⟩ := h
  obtain ⟨ls', hw', hl'⟩ := h'
  exact ⟨ls ++ ls', hw.append hw', hl.append hl'⟩

theorem flatMap {α : Type} {l : List α} {f : α → List Step} {g : α → List Symbol}
    (h : ∀ x ∈ l, Defines (f x) (g x)) : Defines (l.flatMap f) (l.flatMap g) := by
  induction l with
  | nil => exact nil
  | cons x l ih =>
    rw [List.forall_mem_cons] at h
    exact h.1.append (ih h.2)

/-- The steps that a loop gives define what each of its rounds does, in order. -/
theorem mapM {ε α : Type} {l : List α} {f : α → Except ε (List Step)} {parts : List (List Step)}
    {g : α → List Symbol} (hparts : l.mapM f = .ok parts)
    (h : ∀ x ∈ l, ∀ {part}, f x = .ok part → Defines part (g x)) :
    Defines parts.flatten (l.flatMap g) := by
  have hall := Except.mapM_eq_ok.mp hparts
  induction hall with
  | nil => exact nil
  | cons hx hrest ih =>
    rw [List.forall_mem_cons] at h
    exact (h.1 hx).append (ih (Except.mapM_eq_ok.mpr hrest) h.2)

theorem mapM_map {ε α : Type} {l : List α} {f : α → Except ε (List Step)} {parts : List (List Step)}
    {g : α → Symbol} (hparts : l.mapM f = .ok parts)
    (h : ∀ x ∈ l, ∀ {part}, f x = .ok part → Defines part [g x]) : Defines parts.flatten (l.map g) := by
  rw [List.map_eq_flatMap]
  exact mapM hparts h

/-- A line that can be read from its start to its inside without meeting the word `static` defines nothing. -/
theorem line {t : String} (h : Flows start t .inside) : Defines [.line t] [] := by
  refine ⟨_, Code.Writes.text t, .of_not_marked ?_⟩
  rw [Code.indented_zero]
  exact Text.not_prefix_of_reads h (by decide)

theorem blank : Defines [Code.blank] [] := ⟨_, .line (by decide), .of_not_marked (by simp [mark])⟩

/-- Lines that can be read from their starts define nothing. -/
theorem lines {steps : List Step} (h : ∀ st ∈ steps, Defines [st] []) : Defines steps [] := by
  induction steps with
  | nil => exact nil
  | cons st steps ih =>
    rw [List.forall_mem_cons] at h
    exact h.1.append (ih h.2)

/-- A block with inner lines defines what its head opens: lines inside begin with a blank. -/
theorem block {head : String} {body : List Step} (hopens : Listed [head] σs) (hhead : OneLine head)
    (hbody : Inside body) : Defines (Code.block head body ++ [Code.blank]) σs := by
  obtain ⟨ls, hw, hinner⟩ := hbody 0
  exact ⟨_, writes_block hhead hw, hopens.block (.of_inner hinner)⟩

end Defines

/-- The steps define these symbols, and the lines stand in what they write. -/
def Shows (steps : List Step) (σs : List Symbol) (shown : List String) : Prop :=
  ∃ ls, Code.Writes 0 steps ls ∧ Listed ls σs ∧ ∀ l ∈ shown, l ∈ ls

theorem Defines.shows {steps : List Step} {σs : List Symbol} (h : Defines steps σs) : Shows steps σs [] := by
  obtain ⟨ls, hw, hl⟩ := h
  exact ⟨ls, hw, hl, by simp⟩

namespace Shows

variable {steps steps' : List Step} {σs σs' : List Symbol} {shown shown' : List String}

theorem defines (h : Shows steps σs shown) : Defines steps σs := by
  obtain ⟨ls, hw, hl, -⟩ := h
  exact ⟨ls, hw, hl⟩

/-- Steps in sequence show what each of them shows. -/
theorem append (h : Shows steps σs shown) (h' : Shows steps' σs' shown') :
    Shows (steps ++ steps') (σs ++ σs') (shown ++ shown') := by
  obtain ⟨ls, hw, hl, hmem⟩ := h
  obtain ⟨ls', hw', hl', hmem'⟩ := h'
  refine ⟨ls ++ ls', hw.append hw', hl.append hl', List.forall_mem_append.mpr ⟨?_, ?_⟩⟩
  · exact fun l hl => List.mem_append_left _ (hmem l hl)
  · exact fun l hl => List.mem_append_right _ (hmem' l hl)

theorem flatMap {α : Type} {l : List α} {f : α → List Step} {g : α → List Symbol} {d : α → List String}
    (h : ∀ x ∈ l, Shows (f x) (g x) (d x)) : Shows (l.flatMap f) (l.flatMap g) (l.flatMap d) := by
  induction l with
  | nil => exact Defines.nil.shows
  | cons x l ih =>
    rw [List.forall_mem_cons] at h
    exact h.1.append (ih h.2)

/-- A block of lines shows all of them, indented by one level. -/
theorem block {head : String} {ts : List String} (hopens : Listed [head] σs) (hhead : OneLine head)
    (hts : ∀ t ∈ ts, OneLine t) :
    Shows (Code.block head (ts.map .line) ++ [Code.blank]) σs (ts.map (Code.indented 1)) := by
  refine ⟨_, writes_block hhead (.map_line hts), hopens.block (.of_indented ts), fun l hl => ?_⟩
  exact List.mem_append_left _ (List.mem_cons_of_mem _ hl)

theorem mono (h : Shows steps σs shown) (hsub : ∀ l ∈ shown', l ∈ shown) :
    Shows steps σs shown' := by
  obtain ⟨ls, hw, hl, hmem⟩ := h
  exact ⟨ls, hw, hl, fun l hl' => hmem l (hsub l hl')⟩

end Shows

end LuaGlue.Lua
