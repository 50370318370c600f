import LuaGlue.Proofs.Run.Action
import Mathlib.Data.List.Nodup

/-!
# What a failed run leaves

A run stages all outputs beside their places before it moves the first one.

- **Progress** (`Progress`, `Leaves`): what a run has done about each output, and what then stands in the
  workspace. Directories are added on the way to the output directory only.
- **Staging** (`ensures_stageAll`): a run that fails while it stages has removed what it staged.
- **Moving** (`ensures_moveAll`): one that fails while it moves has replaced the outputs before the one at fault,
  and leaves the staged files of the others.
- **Outputs of a run** (`apart_of_plan`): they and their staged files have places of their own.
- **Runs** (`generate_leaves`): every run ends in one of these ways, or with all outputs in place.
-/

namespace LuaGlue.Run

/-! ## Progress -/

/-- Where the text of an output may stand: beside the place of the output, or in it. -/
inductive Slot where
  | beside
  | place
  deriving DecidableEq, Repr

/-- The path that leads there. -/
def Slot.path (path : String) : Slot → String
  | .beside => stagedPath path
  | .place => path

/-- What a run has done about an output. -/
inductive Progress where
  | untouched
  /-- There is no staged file any more. -/
  | cleared
  | staged
  | placed
  deriving DecidableEq, Repr

namespace Progress

/-- What then stands in a slot that held something before the run. -/
def holds (g : Progress) (text : String) (held : Option Content) : Slot → Option Content
  | .beside =>
    match g with
    | .untouched => held
    | .staged => some (.text text)
    | .cleared | .placed => none
  | .place =>
    match g with
    | .placed => some (.text text)
    | .untouched | .cleared | .staged => held

/-- The slot that holds the text of the output. -/
def slot? : Progress → Option Slot
  | .staged => some .beside
  | .placed => some .place
  | .untouched | .cleared => none

end Progress

/-- What a run into the directory `dir` leaves of a workspace: each output as its progress says, and all other
files as they were. A directory stays one, and a new one is on the way to `dir`, where nothing stood before.
Paths lead to places in the workspace that is left, where the directories have been made. -/
structure Leaves (w : Workspace) (dir : String) (outs : List (String × String))
    (g : String × String → Progress) (w' : Workspace) : Prop where
  slots : ∀ o ∈ outs, ∀ k : Slot, ∀ p, w'.locate (k.path o.1) = .ok p →
    w'.file? p = (g o).holds o.2 (w.file? p) k
  found : ∀ o ∈ outs, ∀ k ∈ (g o).slot?, ∃ p, w'.locate (k.path o.1) = .ok p
  others : ∀ p, (∀ o ∈ outs, ∀ k : Slot, w'.locate (k.path o.1) ≠ .ok p) → w'.file? p = w.file? p
  directories : w.GrowsAlong (withWaypoints dir) w'

/-- The outputs and their staged files have places of their own, wherever the directories are. -/
structure Apart (outs : List (String × String)) : Prop where
  nodup : outs.Nodup
  slots : ∀ {w : Workspace} {a b : String × String} {k k' : Slot} {p : Place}, a ∈ outs → b ∈ outs →
    w.locate (k.path a.1) = .ok p → w.locate (k'.path b.1) = .ok p → a = b ∧ k = k'

theorem Apart.notMem {outs before rest : List (String × String)} {o : String × String} (h : Apart outs)
    (houts : outs = before ++ o :: rest) : o ∉ before := by
  have hnodup := h.nodup
  rw [houts, List.nodup_append] at hnodup
  exact fun hmem => hnodup.2.2 o hmem o (by simp) rfl

namespace Leaves

variable {w w₁ w₂ : Workspace} {dir : String} {outs : List (String × String)} {g g' : String × String → Progress}

theorem untouched (h : Furnishes (withWaypoints dir) w w₁) : Leaves w dir outs (fun _ => .untouched) w₁ := by
  refine ⟨fun o _ k p _ => ?_, fun o _ k hk => ?_, fun p _ => ?_, h.directories⟩
  · rw [h.file?]
    cases k <;> rfl
  · cases hk
  · rw [h.file?]

theorem congr (h : Leaves w dir outs g w₁) (hg : ∀ o ∈ outs, g o = g' o) : Leaves w dir outs g' w₁ := by
  refine ⟨fun o ho => ?_, fun o ho => ?_, h.others, h.directories⟩
  · rw [← hg o ho]
    exact h.slots o ho
  · rw [← hg o ho]
    exact h.found o ho

/-- **One slot of one output changes.** -/
theorem update (h : Leaves w dir outs g w₁) (ha : Apart outs) {o : String × String} (ho : o ∈ outs) (k : Slot)
    (next : Progress) (hdirectories : w₁.SameDirectories w₂)
    (hin : ∀ p, w₁.locate (k.path o.1) = .ok p → w₂.file? p = next.holds o.2 (w.file? p) k)
    (hout : ∀ p, w₁.locate (k.path o.1) ≠ .ok p → w₂.file? p = w₁.file? p)
    (hkeep : ∀ k' ≠ k, ∀ held, next.holds o.2 held k' = (g o).holds o.2 held k')
    (hfound : ∀ k' ∈ next.slot?, ∃ p, w₁.locate (k'.path o.1) = .ok p) :
    Leaves w dir outs (Function.update g o next) w₂ := by
  have hlocate {path : String} {p : Place} : w₂.locate path = .ok p ↔ w₁.locate path = .ok p :=
    hdirectories.locate_eq_ok
  refine ⟨fun x hx k' p hp => ?_, fun x hx k' hk' => ?_, fun p hp => ?_, h.directories.sameDirectories hdirectories⟩
  · rw [hlocate] at hp
    -- two outputs never meet at a place, so the place that has changed is this slot of this output
    by_cases hchanged : w₁.locate (k.path o.1) = .ok p
    · obtain ⟨rfl, rfl⟩ := ha.slots hx ho hp hchanged
      rw [Function.update_self, hin p hchanged]
    · rw [hout p hchanged, h.slots x hx k' p hp]
      by_cases hxo : x = o
      · subst hxo
        rw [Function.update_self, hkeep k' ?_]
        rintro rfl
        exact hchanged hp
      · rw [Function.update_of_ne hxo]
  · by_cases hxo : x = o
    · subst hxo
      rw [Function.update_self] at hk'
      obtain ⟨p, hp⟩ := hfound k' hk'
      exact ⟨p, hlocate.mpr hp⟩
    · rw [Function.update_of_ne hxo] at hk'
      obtain ⟨p, hp⟩ := h.found x hx k' hk'
      exact ⟨p, hlocate.mpr hp⟩
  -- a place of no output is not the one that has changed
  · have hnone : ∀ x ∈ outs, ∀ k' : Slot, w₁.locate (k'.path x.1) ≠ .ok p :=
      fun x hx k' heq => hp x hx k' (hlocate.mpr heq)
    rw [hout p (hnone o ho k), h.others p hnone]

/-- What one place holds changes. -/
theorem set (h : Leaves w dir outs g w₁) (ha : Apart outs) {o : String × String} (ho : o ∈ outs) (k : Slot)
    (next : Progress) {p : Place} {c : Option Content} (hp : w₁.locate (k.path o.1) = .ok p)
    (hset : w₁.Sets p c w₂) (hholds : ∀ held, next.holds o.2 held k = c)
    (hkeep : ∀ k' ≠ k, ∀ held, next.holds o.2 held k' = (g o).holds o.2 held k')
    (hslot : ∀ k' ∈ next.slot?, k' = k) : Leaves w dir outs (Function.update g o next) w₂ := by
  refine h.update ha ho k next hset.directories (fun q hq => ?_) (fun q hq => ?_) hkeep fun k' hk' => ?_
  · cases hp.symm.trans hq
    rw [hset.file?, Function.update_self, hholds]
  · rw [hset.file?, Function.update_of_ne]
    rintro rfl
    exact hq hp
  · exact ⟨p, hslot k' hk' ▸ hp⟩

/-- An output has been staged. -/
theorem stage (h : Leaves w dir outs g w₁) (ha : Apart outs) {o : String × String} (ho : o ∈ outs)
    (hg : g o = .untouched) (hwrite : w₁.write (stagedPath o.1) o.2 = .ok w₂) :
    Leaves w dir outs (Function.update g o .staged) w₂ := by
  obtain ⟨p, hp, hset⟩ := Workspace.sets_of_write hwrite
  refine h.set ha ho .beside .staged hp hset (fun _ => rfl) (fun k hk held => ?_) (by simp [Progress.slot?])
  cases k with
  | beside => exact absurd rfl hk
  | place =>
    rw [hg]
    rfl

/-- The staged file of an output is gone, or never was. -/
theorem clear (h : Leaves w dir outs g w₁) (ha : Apart outs) {o : String × String} (ho : o ∈ outs)
    (hg : g o ≠ .placed) (hdirectories : w₁.SameDirectories w₂)
    (hnone : ∀ p, w₁.locate (stagedPath o.1) = .ok p → w₂.file? p = none)
    (hout : ∀ p, w₁.locate (stagedPath o.1) ≠ .ok p → w₂.file? p = w₁.file? p) :
    Leaves w dir outs (Function.update g o .cleared) w₂ := by
  refine h.update ha ho .beside .cleared hdirectories hnone hout (fun k hk held => ?_) (by simp [Progress.slot?])
  cases k with
  | beside => exact absurd rfl hk
  | place =>
    cases hbefore : g o with
    | placed => exact absurd hbefore hg
    | untouched | cleared | staged => rfl

theorem clear_set (h : Leaves w dir outs g w₁) (ha : Apart outs) {o : String × String} (ho : o ∈ outs)
    (hg : g o ≠ .placed) {p : Place} (hp : w₁.locate (stagedPath o.1) = .ok p) (hset : w₁.Sets p none w₂) :
    Leaves w dir outs (Function.update g o .cleared) w₂ := by
  refine h.clear ha ho hg hset.directories (fun q hq => ?_) fun q hq => ?_
  · cases hp.symm.trans hq
    rw [hset.file?, Function.update_self]
  · rw [hset.file?, Function.update_of_ne]
    rintro rfl
    exact hq hp

/-- There is no staged file to clear. -/
theorem clear_none (h : Leaves w dir outs g w₁) (ha : Apart outs) {o : String × String} (ho : o ∈ outs)
    (hg : g o ≠ .placed) (hnone : ∀ p, w₁.locate (stagedPath o.1) = .ok p → w₁.file? p = none) :
    Leaves w dir outs (Function.update g o .cleared) w₁ :=
  h.clear ha ho hg (.refl w₁) hnone fun _ _ => rfl

/-- An output has been moved into place. -/
theorem place (h : Leaves w dir outs g w₁) (ha : Apart outs) {o : String × String} (ho : o ∈ outs)
    (hg : g o = .staged) (hmove : w₁.move (stagedPath o.1) o.1 = .ok w₂) :
    Leaves w dir outs (Function.update g o .placed) w₂ := by
  obtain ⟨p, q, c, w', hp, hq, hfile, herase, hput⟩ := Workspace.sets_of_move hmove
  have hc : c = .text o.2 := by
    have hstaged := h.slots o ho .beside p hp
    rw [hg, hfile] at hstaged
    exact Option.some.inj hstaged
  have hcleared := h.clear_set ha ho (by simp [hg]) hp herase
  have hplaced := hcleared.set ha ho .place .placed (herase.directories.locate_eq_ok.mpr hq) hput
    (fun held => by rw [hc]; rfl) (fun k hk held => ?_) (by simp [Progress.slot?])
  · rwa [Function.update_idem] at hplaced
  · rw [Function.update_self]
    cases k with
    | beside => rfl
    | place => exact absurd rfl hk

end Leaves

/-! ## Staging -/

variable {w : Workspace} {dir : String} {outs : List (String × String)} {s : State}

/-- Removing one staged path and then the rest. Only a path that nothing was staged at can refuse: a directory
may stand there. -/
theorem ensures_removeStaged_cons (ha : Apart outs) {o : String × String} (ho : o ∈ outs) {paths : List String}
    {g : String × String → Progress} (hg : g o ≠ .placed)
    (hremove : s.workspace.denied (.remove (stagedPath o.1)) = none) (h : Leaves w dir outs g s.workspace)
    {Q : Unit → State → Prop} {E : Error → State → Prop}
    (hrest : ∀ s' : State, s'.workspace.denied = s.workspace.denied →
      Leaves w dir outs (Function.update g o .cleared) s'.workspace → Ensures (removeStaged paths) s' Q E)
    (hfail : ∀ e (s' : State), g o ≠ .staged →
      Leaves w dir outs (Function.update g o .cleared) s'.workspace → E e s') :
    Ensures (removeStaged (o.1 :: paths)) s Q E := by
  apply Ensures.get
  split
  · apply Ensures.bind
    apply Ensures.get
    split
    · rename_i w' hremoved
      obtain ⟨p, hp, hset⟩ := Workspace.sets_of_remove hremoved
      exact hrest _ hset.denied (h.clear_set ha ho hg hp hset)
    · rename_i code hrefused
      have hnone := Workspace.file?_of_remove_error hremove hrefused
      refine hfail _ _ (fun hstaged => ?_) (h.clear_none ha ho hg hnone)
      -- a staged file is no directory, so it can be removed
      obtain ⟨p, hp⟩ := h.found o ho .beside (by simp [hstaged, Progress.slot?])
      have hfile := h.slots o ho .beside p hp
      rw [hstaged, hnone p hp] at hfile
      cases hfile
  · rename_i habsent
    exact hrest s rfl (h.clear_none ha ho hg (Workspace.file?_of_not_has habsent))

/-- Removing what was staged. The last path is the one at fault: if a directory stands there, it stays. -/
theorem ensures_removeStaged (ha : Apart outs) {todo : List (String × String)} {o : String × String}
    {g : String × String → Progress} (hnodup : (todo ++ [o]).Nodup) (hmem : ∀ x ∈ todo ++ [o], x ∈ outs)
    (hstaged : ∀ x ∈ todo, g x = .staged) (huntouched : g o = .untouched)
    (hremove : ∀ path, s.workspace.denied (.remove path) = none) (h : Leaves w dir outs g s.workspace) :
    let left := Leaves w dir outs fun x => if x ∈ todo ++ [o] then .cleared else g x
    Ensures (removeStaged ((todo ++ [o]).map (·.1))) s (fun _ s' => left s'.workspace)
      fun _ s' => left s'.workspace := by
  induction todo generalizing s g with
  | nil =>
    have hleft {w' : Workspace} (h' : Leaves w dir outs (Function.update g o .cleared) w') :
        Leaves w dir outs (fun x => if x ∈ [] ++ [o] then .cleared else g x) w' := by
      refine h'.congr fun x _ => ?_
      by_cases hx : x = o <;> simp [hx]
    exact ensures_removeStaged_cons ha (hmem o (by simp)) (by simp [huntouched]) (hremove _) h
      (fun _ _ h' => hleft h') fun _ _ _ h' => hleft h'
  | cons x todo ih =>
    have hx : g x = .staged := hstaged x (by simp)
    rw [List.cons_append, List.nodup_cons] at hnodup
    have hne : ∀ y ∈ todo ++ [o], y ≠ x := by
      rintro y hy rfl
      exact hnodup.1 hy
    have hleft {w' : Workspace} (hw' : Leaves w dir outs
        (fun y => if y ∈ todo ++ [o] then .cleared else Function.update g x .cleared y) w') :
        Leaves w dir outs (fun y => if y ∈ x :: todo ++ [o] then .cleared else g y) w' := by
      refine hw'.congr fun y _ => ?_
      by_cases hy : y = x <;> simp [hy]
    refine ensures_removeStaged_cons ha (hmem x (by simp)) (by simp [hx]) (hremove _) h
      (fun s' hdenied h' => ?_) fun _ _ hne _ => absurd hx hne
    refine (ih hnodup.2 (fun y hy => hmem y (by simp_all)) (fun y hy => ?_) ?_ ?_ h').mono
      (fun _ _ => hleft) fun _ _ => hleft
    · rw [Function.update_of_ne (hne y (by simp [hy]))]
      exact hstaged y (by simp [hy])
    · rw [Function.update_of_ne (hne o (by simp))]
      exact huntouched
    · rw [hdenied]
      exact hremove

/-- **Staging.** If one output cannot be staged, no staged file is left of those that were tried. -/
theorem ensures_stageAll (ha : Apart outs) (hclean : ∀ o ∈ outs, checkPath (stagedPath o.1) = .ok ())
    {tried rest : List (String × String)} (houts : outs = tried ++ rest)
    (hremove : ∀ path, s.workspace.denied (.remove path) = none)
    (h : Leaves w dir outs (fun x => if x ∈ tried then .staged else .untouched) s.workspace) :
    Ensures (stageAll (tried.map (·.1)) rest) s (fun _ s' => Leaves w dir outs (fun _ => .staged) s'.workspace)
      fun _ s' => ∃ tried rest, outs = tried ++ rest ∧
        Leaves w dir outs (fun x => if x ∈ tried then .cleared else .untouched) s'.workspace := by
  -- the invariant: what was `tried` is staged and the rest untouched; `tried` grows by one output in each round
  induction rest generalizing tried s with
  | nil =>
    rw [List.append_nil] at houts
    subst houts
    exact h.congr fun x hx => if_pos hx
  | cons o rest ih =>
    have ho : o ∈ outs := by simp [houts]
    have huntouched : (if o ∈ tried then Progress.staged else .untouched) = .untouched :=
      if_neg (ha.notMem houts)
    unfold stageAll
    refine Ensures.bind (.pureStep (fun _ _ => ?_) fun e he => ?_)
    case refine_2 =>
      rw [hclean o ho] at he
      cases he
    apply Ensures.get
    split
    · rename_i w' hwrite
      -- written: the next round removes under the same permissions as this one
      have hdenied := (Workspace.sets_of_write hwrite).choose_spec.2.denied
      have hnext : Leaves w dir outs (fun x => if x ∈ tried ++ [o] then .staged else .untouched) w' := by
        refine (h.stage ha ho huntouched hwrite).congr fun x _ => ?_
        by_cases hx : x = o <;> simp [hx]
      have hall := ih (s := { s with workspace := w' }) (by simp [houts]) (by simpa [hdenied] using hremove) hnext
      rw [List.map_append] at hall
      exact hall
    -- refused: this output and those before it are removed again, whether or not all of the removals succeed
    · have hsub : (tried ++ [o]).Sublist outs := by
        rw [houts]
        exact List.Sublist.append_left (by simp) tried
      have hleft {w' : Workspace} (h' : Leaves w dir outs (fun x => if x ∈ tried ++ [o] then .cleared
          else if x ∈ tried then .staged else .untouched) w') : ∃ tried rest, outs = tried ++ rest ∧
            Leaves w dir outs (fun x => if x ∈ tried then .cleared else .untouched) w' := by
        refine ⟨tried ++ [o], rest, by simp [houts], h'.congr fun x _ => ?_⟩
        by_cases hx : x ∈ tried <;> simp [hx]
      apply Ensures.bind
      have hcleared := ensures_removeStaged ha (ha.nodup.sublist hsub) (fun x hx => hsub.subset hx)
        (fun x hx => if_pos hx) huntouched hremove h
      rw [List.map_append] at hcleared
      exact hcleared.mono (fun _ _ => hleft) fun _ _ => hleft

/-! ## Moving -/

/-- **Moving.** If one output cannot be moved, those before it are in place, and it and the others are still
staged. -/
theorem ensures_moveAll (ha : Apart outs) {done rest : List (String × String)} (houts : outs = done ++ rest)
    (h : Leaves w dir outs (fun x => if x ∈ done then .placed else .staged) s.workspace) :
    Ensures (moveAll (rest.map (·.1))) s (fun _ s' => Leaves w dir outs (fun _ => .placed) s'.workspace)
      fun e s' => ∃ done o rest code, outs = done ++ o :: rest ∧
        e = .system ⟨code, stagedPath o.1, some o.1⟩ ∧
        Leaves w dir outs (fun x => if x ∈ done then .placed else .staged) s'.workspace := by
  -- the invariant: what is `done` is placed and the rest still staged
  induction rest generalizing done s with
  | nil =>
    rw [List.append_nil] at houts
    subst houts
    exact h.congr fun x hx => if_pos hx
  | cons o rest ih =>
    have ho : o ∈ outs := by simp [houts]
    have hstaged : (if o ∈ done then Progress.placed else .staged) = .staged := if_neg (ha.notMem houts)
    apply Ensures.bind
    apply Ensures.get
    split
    · rename_i w' hmove
      have hnext : Leaves w dir outs (fun x => if x ∈ done ++ [o] then .placed else .staged) w' := by
        refine (h.place ha ho hstaged hmove).congr fun x _ => ?_
        by_cases hx : x = o <;> simp [hx]
      exact ih (s := { s with workspace := w' }) (by simp [houts]) hnext
    -- a refused move changes nothing, so the invariant is what is left behind
    · rename_i code hrefused
      exact ⟨done, o, rest, code, houts, rfl, h⟩

/-! ## Outputs of a run -/

/-- The directory and the outputs that the configuration and the files of a workspace give. -/
def plan (config : Config) (w : Workspace) : Except Error (String × List (String × String)) := do
  let spec ← loadSpec config w
  let model ← Model.ofSpec spec
  let outputs ← renderAll config.module config.backends model
  let dir ← config.outputDir.get
  return (dir, outputs.map fun o => (joinPath dir o.1, o.2))

/-- What a run does before it moves the first output. -/
def prepare (config : Config) : Action (String × List (String × String)) := do
  print "=== Generating bindings:"
  let (dir, outs) ← pureStep (plan config (← get).workspace)
  makeDirectories dir
  stageAll [] outs
  return (dir, outs)

/-- What a run does when all outputs are in place. -/
def finish (config : Config) (dir : String) (outs : List (String × String)) : Action (List String) := do
  let written := outs.map (·.1)
  written.forM fun path =>
    print ("  " ++ ", ".intercalate (config.specPaths.map (·.shown)) ++ " => " ++ path)
  let cppPaths := config.backends.filterMap fun backend =>
    match Backend.ofName? backend.shown with
    | some b => if b.isCpp then some (joinPath dir (b.fileName config.module.shown)) else none
    | none => none
  pureStep (format config.formatter cppPaths (← get).workspace)
  return written

theorem pureStep_bind {α β : Type} (r : Except Error α) (f : α → Except Error β) :
    pureStep (r >>= f) = pureStep r >>= fun a => pureStep (f a) := by
  cases r <;> rfl

/-- The stages of a run. -/
theorem generate_eq (config : Config) : generate config =
    prepare config >>= fun planned =>
      moveAll (planned.2.map (·.1)) >>= fun _ => finish config planned.1 planned.2 := by
  unfold generate prepare finish plan LuaGlue.Run.bind load writeAll
  simp only [pureStep_bind, bind_assoc]
  rfl

/-- The end of the name of an output file. -/
def Backend.extension : Backend → String
  | .lua => ".cpp"
  | .annotations => ".lua"

theorem Backend.fileName_eq (module : String) (b : Backend) : b.fileName module = module ++ b.extension := by
  cases b <;> rfl

theorem joinPath_append {ext : String} (hext : ext.toList.head? = some '.') (dir module : String) :
    joinPath dir (module ++ ext) = joinPath dir module ++ ext := by
  have hhead : isAbsolute (module ++ ext) = isAbsolute module := by
    rw [isAbsolute, isAbsolute, String.toList_append]
    cases hmodule : module.toList with
    | nil => simp [hext]
    | cons c cs => simp
  rw [joinPath, joinPath, hhead]
  split
  · rfl
  · split <;> simp [String.append_assoc]

/-- The files are named by backends, each by another one. -/
structure OwnFiles (module : String) (outputs : List (String × String)) : Prop where
  nodup : (outputs.map (·.1)).Nodup
  named : ∀ o ∈ outputs, ∃ b : Backend, o.1 = b.fileName module

theorem OwnFiles.putOutput {module text : String} {outputs : List (String × String)}
    (h : OwnFiles module outputs) (b : Backend) :
    OwnFiles module (putOutput outputs (b.fileName module) text) := by
  unfold Run.putOutput
  split
  -- replaced: the names of the files stay
  · have hfiles : (outputs.map fun o => if o.1 == b.fileName module then (b.fileName module, text) else o).map
        (·.1) = outputs.map (·.1) := by
      rw [List.map_map]
      refine List.map_congr_left fun o _ => ?_
      by_cases ho : o.1 = b.fileName module <;> simp [ho]
    refine ⟨hfiles ▸ h.nodup, fun o ho => ?_⟩
    have hmem : o.1 ∈ outputs.map (·.1) := hfiles ▸ List.mem_map_of_mem ho
    obtain ⟨x, hx, hname⟩ := List.mem_map.mp hmem
    rw [← hname]
    exact h.named x hx
  -- appended: the name is new
  · rename_i hnew
    have hfresh : ∀ o ∈ outputs, o.1 ≠ b.fileName module := by
      intro o ho heq
      exact hnew (List.any_eq_true.mpr ⟨o, ho, beq_iff_eq.mpr heq⟩)
    constructor
    · rw [List.map_append, List.nodup_append]
      refine ⟨h.nodup, by simp, fun file hfile file' hfile' => ?_⟩
      obtain ⟨o, ho, rfl⟩ := List.mem_map.mp hfile
      rw [List.mem_singleton.mp hfile']
      exact hfresh o ho
    · intro o ho
      rcases List.mem_append.mp ho with ho | ho
      · exact h.named o ho
      · rw [List.mem_singleton.mp ho]
        exact ⟨b, rfl⟩

theorem ownFiles_of_renderAll {module : Setting} {backends : List Setting} {model : Model}
    {outputs : List (String × String)} (h : renderAll module backends model = .ok outputs) :
    OwnFiles module.shown outputs := by
  refine Except.foldlM_invariant (fun before after backend _ hbefore hstep => ?_) ⟨by simp, by simp⟩ h
  obtain ⟨name, -, hstep⟩ := Except.bind_eq_ok.mp hstep
  split at hstep
  · rename_i b hb
    obtain ⟨text, -, hstep⟩ := Except.bind_eq_ok.mp hstep
    cases hstep
    exact hbefore.putOutput b
  · cases hstep

/-- The directory of a plan is the one that the configuration names. -/
theorem shown_of_plan {config : Config} {w : Workspace} {dir : String} {outs : List (String × String)}
    (h : plan config w = .ok (dir, outs)) : config.outputDir.shown = dir := by
  obtain ⟨spec, -, h⟩ := Except.bind_eq_ok.mp h
  obtain ⟨model, -, h⟩ := Except.bind_eq_ok.mp h
  obtain ⟨outputs, -, h⟩ := Except.bind_eq_ok.mp h
  obtain ⟨d, hd, h⟩ := Except.bind_eq_ok.mp h
  cases h
  cases hdir : config.outputDir with
  | text s =>
    rw [hdir] at hd
    exact Except.ok.inj hd
  | empty =>
    rw [hdir] at hd
    cases hd

/-- The paths of all outputs are a stem with the extension of a backend. -/
theorem exists_stem {config : Config} {w : Workspace} {dir : String} {outs : List (String × String)}
    (h : plan config w = .ok (dir, outs)) :
    ∃ stem, (outs.map (·.1)).Nodup ∧ ∀ o ∈ outs, ∃ b : Backend, o.1 = stem ++ b.extension := by
  obtain ⟨spec, -, h⟩ := Except.bind_eq_ok.mp h
  obtain ⟨model, -, h⟩ := Except.bind_eq_ok.mp h
  obtain ⟨outputs, houtputs, h⟩ := Except.bind_eq_ok.mp h
  obtain ⟨d, -, h⟩ := Except.bind_eq_ok.mp h
  cases h
  have hown := ownFiles_of_renderAll houtputs
  -- the files of a run differ in their extensions only
  have hpath (b : Backend) : joinPath dir (b.fileName config.module.shown) =
      joinPath dir config.module.shown ++ b.extension := by
    rw [b.fileName_eq, joinPath_append (by cases b <;> decide)]
  refine ⟨joinPath dir config.module.shown, ?_, List.forall_mem_map.mpr fun o ho => ?_⟩
  · have hpaths : (outputs.map fun o => (joinPath dir o.1, o.2)).map (·.1) =
        (outputs.map (·.1)).map (joinPath dir) := by simp
    rw [hpaths]
    refine List.Nodup.map_on (fun a hamem b hbmem hab => ?_) hown.nodup
    obtain ⟨x, hx, rfl⟩ := List.mem_map.mp hamem
    obtain ⟨y, hy, rfl⟩ := List.mem_map.mp hbmem
    obtain ⟨c, hc⟩ := hown.named x hx
    obtain ⟨d, hd⟩ := hown.named y hy
    rw [hc, hd, hpath, hpath, String.append_right_inj] at hab
    rw [hc, hd, c.fileName_eq, d.fileName_eq, hab]
  · obtain ⟨b, hb⟩ := hown.named o ho
    exact ⟨b, by rw [hb, hpath]⟩

/-- What the path of a slot adds to a stem. -/
def Slot.extension (b : Backend) : Slot → String
  | .beside => b.extension ++ ".tmp"
  | .place => b.extension

theorem Slot.path_eq (stem : String) (b : Backend) (k : Slot) :
    k.path (stem ++ b.extension) = stem ++ k.extension b := by
  cases k with
  | beside => exact String.append_assoc
  | place => rfl

theorem Slot.extension_inj {b b' : Backend} {k k' : Slot} (h : k.extension b = k'.extension b') :
    b = b' ∧ k = k' := by
  revert h
  cases b <;> cases b' <;> cases k <;> cases k' <;> decide

/-- **Outputs of a run** and their staged files have places of their own. -/
theorem apart_of_plan {config : Config} {w : Workspace} {dir : String} {outs : List (String × String)}
    (h : plan config w = .ok (dir, outs)) : Apart outs := by
  obtain ⟨stem, hnodup, hstem⟩ := exists_stem h
  refine ⟨List.Nodup.of_map _ hnodup, fun {w a b k k' p} ha hb hka hkb => ?_⟩
  obtain ⟨c, hc⟩ := hstem a ha
  obtain ⟨d, hd⟩ := hstem b hb
  obtain ⟨tail, htail⟩ := getLast?_of_locate stem
  rw [hc, Slot.path_eq] at hka
  rw [hd, Slot.path_eq] at hkb
  have hslash (b : Backend) (k : Slot) : '/' ∉ (k.extension b).toList ∧ 2 < (k.extension b).length := by
    cases b <;> cases k <;> decide
  have hlast := htail w _ p (hslash c k).1 (hslash c k).2 hka
  rw [htail w _ p (hslash d k').1 (hslash d k').2 hkb, Option.some_inj, String.append_right_inj] at hlast
  obtain ⟨rfl, rfl⟩ := Slot.extension_inj hlast
  exact ⟨List.inj_on_of_nodup_map hnodup ha hb (hc.trans hd.symm), rfl⟩

/-- A null character stands in all paths or in none. -/
theorem checkPath_of_plan {config : Config} {w : Workspace} {dir : String} {outs : List (String × String)}
    (h : plan config w = .ok (dir, outs)) :
    (∀ o ∈ outs, checkPath (stagedPath o.1) = .ok ()) ∨
      ∀ o ∈ outs, checkPath (stagedPath o.1) = .error (.misfit .nullCharacter) := by
  obtain ⟨stem, -, hstem⟩ := exists_stem h
  have hnull (b : Backend) : (stagedPath (stem ++ b.extension)).toList.contains '\x00' =
      stem.toList.contains '\x00' := by
    have hext : (b.extension ++ ".tmp").toList.contains '\x00' = false := by cases b <;> decide
    rw [stagedPath, String.append_assoc, String.toList_append, List.contains_append, hext, Bool.or_false]
  cases hstemnull : stem.toList.contains '\x00' with
  | false =>
    refine .inl fun o ho => ?_
    obtain ⟨b, hb⟩ := hstem o ho
    rw [checkPath, hb, hnull, hstemnull]
    rfl
  | true =>
    refine .inr fun o ho => ?_
    obtain ⟨b, hb⟩ := hstem o ho
    rw [checkPath, hb, hnull, hstemnull]
    rfl

/-! ## Runs -/

/-- The outputs that a run plans; none if it cannot render them. -/
def planned (config : Config) (w : Workspace) : List (String × String) :=
  match plan config w with
  | .ok (_, outs) => outs
  | .error _ => []

/-- Every output holds what it held before the run. No staged file is left of the outputs that the run has
tried to stage, and nothing has happened to the others. Directories are as they were, but for new ones on the way
to `dir` where nothing stood. -/
def Undone (w : Workspace) (dir : String) (outs : List (String × String)) (w' : Workspace) : Prop :=
  ∃ tried rest, outs = tried ++ rest ∧
    Leaves w dir outs (fun o => if o ∈ tried then .cleared else .untouched) w'

theorem undone_of_furnishes {w' : Workspace} (h : Furnishes (withWaypoints dir) w w') : Undone w dir outs w' :=
  ⟨[], outs, rfl, (Leaves.untouched h).congr fun _ _ => rfl⟩

/-- **Before the first move** a run that fails undoes what it has done to files. -/
theorem ensures_prepare (config : Config) (hremove : ∀ path, s.workspace.denied (.remove path) = none) :
    Ensures (prepare config) s
      (fun r s' => plan config s.workspace = .ok r ∧
        Leaves s.workspace config.outputDir.shown r.2 (fun _ => .staged) s'.workspace)
      fun _ s' => Undone s.workspace config.outputDir.shown (planned config s.workspace) s'.workspace := by
  unfold prepare
  apply Ensures.bind
  apply Ensures.print
  apply Ensures.get
  apply Ensures.bind
  refine Ensures.pureStep (fun r hr => ?_) fun e he => undone_of_furnishes (refl_of (Furnishes _) s.workspace)
  obtain ⟨dir, outs⟩ := r
  have hplan : plan config s.workspace = .ok (dir, outs) := hr
  have hplanned : planned config s.workspace = outs := by rw [planned, hplan]
  rw [hplanned, shown_of_plan hplan]
  apply Ensures.bind
  refine (within_makeDirectories dir _).mono (fun _ t ht => ?_) fun _ _ ht => undone_of_furnishes ht
  have hstage : Ensures (stageAll [] outs) t
      (fun _ t' => Leaves s.workspace dir outs (fun _ => .staged) t'.workspace)
      fun _ t' => Undone s.workspace dir outs t'.workspace := by
    rcases checkPath_of_plan hplan with hclean | hnull
    · refine ensures_stageAll (apart_of_plan hplan) hclean (show outs = [] ++ outs from rfl) (fun path => ?_) ?_
      · rw [ht.denied]
        exact hremove path
      · exact (Leaves.untouched ht).congr fun _ _ => rfl
    · -- the first output is refused before anything is staged
      cases outs with
      | nil => exact (Leaves.untouched ht).congr (by simp)
      | cons o rest =>
        unfold stageAll
        apply Ensures.bind
        refine Ensures.pureStep (fun _ hok => ?_) fun _ _ => undone_of_furnishes ht
        rw [hnull o (by simp)] at hok
        cases hok
  apply Ensures.bind
  exact hstage.mono (fun _ t' ht' => ⟨hplan, ht'⟩) fun _ _ ht' => ht'

/-- The formatter and the report change nothing. -/
theorem within_finish (config : Config) (dir : String) (outs : List (String × String)) :
    Within Eq (finish config dir outs) := by
  refine (within_forM fun path => within_print _).bind fun _ s => ?_
  apply Ensures.get
  exact (within_pureStep _).bind (fun _ => within_pure _) s

/-- **Runs.** A run that fails before the first move leaves every output as it was, and no file that it has
staged. It is not so for one that fails when it moves: the outputs before the one at fault are replaced, it and
those behind it are as they were, and their staged files are left. Every other run ends with all outputs in place
and no staged file; only then is the formatter started. -/
theorem generate_leaves {config : Config} {s s' : State} {result : Except Error (List String)}
    (hremove : ∀ path, s.workspace.denied (.remove path) = none)
    (h : (generate config).run s = (result, s')) :
    (∃ e, (prepare config).run s = (.error e, s') ∧ result = .error e ∧
      Undone s.workspace config.outputDir.shown (planned config s.workspace) s'.workspace) ∨
    (∃ dir done o rest t code, planned config s.workspace = done ++ o :: rest ∧
      (prepare config).run s = (.ok (dir, done ++ o :: rest), t) ∧
      result = .error (.system ⟨code, stagedPath o.1, some o.1⟩) ∧
      (moveAll ((done ++ o :: rest).map (·.1))).run t =
        (.error (.system ⟨code, stagedPath o.1, some o.1⟩), s') ∧
      Leaves s.workspace config.outputDir.shown (done ++ o :: rest)
        (fun x => if x ∈ done then .placed else .staged) s'.workspace) ∨
    ∃ dir outs t u, planned config s.workspace = outs ∧ (prepare config).run s = (.ok (dir, outs), t) ∧
      (moveAll (outs.map (·.1))).run t = (.ok (), u) ∧ (finish config dir outs).run u = (result, s') ∧
      Leaves s.workspace config.outputDir.shown outs (fun _ => .placed) s'.workspace := by
  -- the run in three parts: up to the staged files, the moves, and what comes after them
  have hprepare := ensures_prepare config hremove
  rw [generate_eq, run_bind] at h
  split at h
  · rename_i r t hr
    obtain ⟨dir, outs⟩ := r
    obtain ⟨hplan, hstaged⟩ := hprepare.of_ok hr
    have hplanned : planned config s.workspace = outs := by rw [planned, hplan]
    have hmove := ensures_moveAll (apart_of_plan hplan) (show outs = [] ++ outs from rfl)
      (hstaged.congr fun _ _ => rfl)
    rw [run_bind] at h
    split at h
    · rename_i u hu
      have hplaced := hmove.of_ok hu
      -- printing and formatting change no file
      have hkept : u.workspace = s'.workspace := by
        have hfinish := within_finish config dir outs u
        rw [Ensures, h] at hfinish
        cases result <;> exact hfinish
      exact .inr (.inr ⟨dir, outs, t, u, hplanned, hr, hu, h, hkept ▸ hplaced⟩)
    · rename_i e u hu
      cases h
      -- the only error that leaves some outputs placed and others staged
      obtain ⟨done, o, rest, code, rfl, rfl, hleft⟩ := hmove.of_error hu
      exact .inr (.inl ⟨dir, done, o, rest, t, code, hplanned, hr, rfl, hu, hleft⟩)
  · rename_i e t hr
    cases h
    exact .inl ⟨e, hr, rfl, hprepare.of_error hr⟩

/-- A run over one specification. -/
def plainRun : Config where
  specPaths := [.text "spec.yml"]

/-- An empty specification and an earlier output, where the other output cannot be written. -/
def guarded : Workspace where
  nodes := [(["spec.yml"], .file (.document (.map []))), (["gen"], .directory),
    (["gen", "bindings.cpp"], .file (.text "earlier"))]
  denied a := if a = .write "gen/bindings.lua.tmp" then some .permissionDenied else none

theorem generate_leaves_guarded :
    ∃ e s', (∀ path, guarded.denied (.remove path) = none) ∧
      (generate plainRun).run { workspace := guarded } = (.error e, s') ∧
      (planned plainRun guarded).length = 2 ∧ Undone guarded "gen" (planned plainRun guarded) s'.workspace := by
  have hremove : ∀ path, guarded.denied (.remove path) = none := fun _ => rfl
  have hfails : ((prepare plainRun).run { workspace := guarded }).1.isOk = false := by decide +kernel
  have hlength : (planned plainRun guarded).length = 2 := by decide +kernel
  rcases hrun : (generate plainRun).run { workspace := guarded } with ⟨result, s'⟩
  rcases generate_leaves hremove hrun with ⟨e, -, hresult, hundone⟩ |
    ⟨dir, done, o, rest, t, code, -, hprepare, -⟩ | ⟨dir, outs, t, u, -, hprepare, -⟩
  · exact ⟨e, s', hremove, by rw [hresult], hlength, hundone⟩
  · rw [hprepare] at hfails
    cases hfails
  · rw [hprepare] at hfails
    cases hfails

/-- An empty specification, and a directory in the place of the second output. -/
def occupied : Workspace where
  nodes := [(["spec.yml"], .file (.document (.map []))), (["gen"], .directory),
    (["gen", "bindings.lua"], .directory)]

/-- The refused operation that a run ends with, if it ends so. -/
def refusal? : Except Error (List String) → Option SystemError
  | .error (.system e) => some e
  | _ => none

theorem eq_error_of_refusal? {result : Except Error (List String)} {e : SystemError}
    (h : refusal? result = some e) : result = .error (.system e) := by
  unfold refusal? at h
  split at h
  · cases h
    rfl
  · cases h

/-- The run fails when it moves the second output, and the first one is in place then. -/
theorem not_undone_occupied :
    ∃ e s', e = .system ⟨.isDirectory, "gen/bindings.lua.tmp", some "gen/bindings.lua"⟩ ∧
      (generate plainRun).run { workspace := occupied } = (.error e, s') ∧
      ¬Undone occupied "gen" (planned plainRun occupied) s'.workspace := by
  have hplanned : (planned plainRun occupied).any (·.1 == "gen/bindings.cpp") = true := by decide +kernel
  have hrefused : refusal? ((generate plainRun).run { workspace := occupied }).1 =
      some ⟨.isDirectory, "gen/bindings.lua.tmp", some "gen/bindings.lua"⟩ := by decide +kernel
  have hlocate : (((generate plainRun).run { workspace := occupied }).2.workspace.locate
      "gen/bindings.cpp").toOption = some ["gen", "bindings.cpp"] := by decide +kernel
  have hfile : (((generate plainRun).run { workspace := occupied }).2.workspace.file?
      ["gen", "bindings.cpp"]).isSome := by decide +kernel
  rcases hrun : (generate plainRun).run { workspace := occupied } with ⟨result, s'⟩
  rw [hrun] at hrefused hlocate hfile
  refine ⟨_, s', rfl, Prod.ext (eq_error_of_refusal? hrefused) rfl, ?_⟩
  rintro ⟨tried, rest, -, hleaves⟩
  obtain ⟨o, ho, hpath⟩ := List.any_eq_true.mp hplanned
  have hplace : s'.workspace.locate o.1 = .ok ["gen", "bindings.cpp"] := by
    rw [beq_iff_eq.mp hpath]
    cases hend : s'.workspace.locate "gen/bindings.cpp" with
    | ok p =>
      rw [hend] at hlocate
      cases hlocate
      rfl
    | error code =>
      rw [hend] at hlocate
      cases hlocate
  have hkept := hleaves.slots o ho .place _ hplace
  have hnone : s'.workspace.file? ["gen", "bindings.cpp"] = none := by
    rw [hkept]
    split <;> rfl
  rw [hnone] at hfile
  cases hfile

end LuaGlue.Run
