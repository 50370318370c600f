import LuaGlue.Lua.Call
import LuaGlue.Proofs.Text.Lines

/-!
# Statements read as calls

A unit holds the calls that set up tables as statements. `Call.ofText?` reads a statement apart from `Call.text`,
which writes it.

- **Texts** (`between?`): what stands between a head and an end, whatever that is.
- **Arguments** (`natural?`, `integer?`, `quoted?`, `pair?`): numbers, texts in quotes, and two arguments around
  the first comma.
- **Statements** (`Call.ofText?`): the name of the function, then the arguments behind the state.
  `Call.ofText?_text` says that each call is read back from its statement.
-/

namespace LuaGlue.Lua

/-! ## Texts -/

/-- What stands between a head and an end. -/
def between? (head tail cs : List Char) : Option (List Char) :=
  let rest := cs.drop head.length
  if head.isPrefixOf cs && tail.isSuffixOf rest then some (rest.take (rest.length - tail.length)) else none

theorem between?_append (head tail cs : List Char) : between? head tail (head ++ (cs ++ tail)) = some cs := by
  simp [between?]

/-- What comes before a character that the text before it does not hold. -/
theorem span_append {c : Char} {before : List Char} (h : c ∉ before) (rest : List Char) :
    (before ++ c :: rest).takeWhile (· != c) = before ∧ (before ++ c :: rest).dropWhile (· != c) = c :: rest := by
  have hbefore : ∀ a ∈ before, (a != c) = true := fun a ha => bne_iff_ne.mpr fun heq => h (heq ▸ ha)
  rw [List.takeWhile_append_of_pos hbefore, List.dropWhile_append_of_pos hbefore]
  simp

/-! ## Arguments -/

/-- The number that digits spell. -/
def natural? (cs : List Char) : Option Nat :=
  if !cs.isEmpty && cs.all Char.isDigit then some (Nat.ofDigitChars 10 cs 0) else none

/-- The number that digits spell, with a sign or without. -/
def integer? : List Char → Option Int
  | '-' :: cs => (natural? cs).map fun n => -(n : Int)
  | cs => (natural? cs).map fun n => (n : Int)

/-- The text in quotes. -/
def quoted? (cs : List Char) : Option String := (between? ['"'] ['"'] cs).map String.ofList

/-- Two arguments, read before and behind the first comma. -/
def pair? {α β : Type} (first : List Char → Option α) (second : List Char → Option β) (cs : List Char) :
    Option (α × β) := do
  let a ← first (cs.takeWhile (· != ','))
  let b ← between? [',', ' '] [] (cs.dropWhile (· != ',')) >>= second
  return (a, b)

theorem isDigit_of_mem_toString {n : Nat} {c : Char} (hc : c ∈ (toString n).toList) : c.isDigit := by
  rw [Nat.toString_eq_repr, Nat.toList_repr] at hc
  exact Nat.isDigit_of_mem_toDigits (by decide) (by decide) hc

theorem natural?_toString (n : Nat) : natural? (toString n).toList = some n := by
  have hdigits : (toString n).toList.all Char.isDigit = true :=
    List.all_eq_true.mpr fun _ => isDigit_of_mem_toString
  have hsome : (toString n).toList.isEmpty = false := by
    rw [Nat.toString_eq_repr, Nat.toList_repr, List.isEmpty_eq_false_iff]
    exact List.ne_nil_of_length_pos Nat.length_toDigits_pos
  rw [natural?, hdigits, hsome, Bool.not_false, Bool.and_self, if_pos rfl, Nat.toString_eq_repr, Nat.toList_repr]
  exact congrArg some (Nat.ofDigitChars_toDigits (by decide) (by decide))

theorem integer?_toString (i : Int) : integer? (toString i).toList = some i := by
  cases i with
  | ofNat n =>
    show integer? (toString n).toList = some (n : Int)
    -- a digit is no sign
    unfold integer?
    split
    · rename_i cs hsign
      exact absurd (isDigit_of_mem_toString (n := n) (hsign ▸ List.mem_cons_self)) (by decide)
    · rw [natural?_toString]
      rfl
  | negSucc n =>
    have hsign : (toString (Int.negSucc n)).toList = '-' :: (toString (n + 1)).toList := by
      show ("-" ++ toString (n + 1)).toList = _
      simp
    rw [hsign, integer?, natural?_toString]
    rfl

theorem quoted?_quoted (s : String) : quoted? ('"' :: (s.toList ++ ['"'])) = some s := by
  have hbetween : between? ['"'] ['"'] ('"' :: (s.toList ++ ['"'])) = some s.toList := between?_append _ _ _
  rw [quoted?, hbetween]
  simp

theorem comma_notMem_toString (n : Nat) : ',' ∉ (toString n).toList :=
  fun h => absurd (isDigit_of_mem_toString h) (by decide)

theorem comma_notMem_toString_int (i : Int) : ',' ∉ (toString i).toList := by
  cases i with
  | ofNat n => exact comma_notMem_toString n
  | negSucc n =>
    show ',' ∉ ("-" ++ toString (n + 1)).toList
    rw [String.toList_append, List.mem_append, not_or]
    exact ⟨by decide, comma_notMem_toString _⟩

theorem pair?_append {α β : Type} {first : List Char → Option α} {second : List Char → Option β}
    {before after : List Char} {x : α} {y : β} (hcomma : ',' ∉ before) (hfirst : first before = some x)
    (hsecond : second after = some y) : pair? first second (before ++ ',' :: ' ' :: after) = some (x, y) := by
  obtain ⟨htake, hdrop⟩ := span_append hcomma (' ' :: after)
  have hafter : between? [',', ' '] [] (',' :: ' ' :: after) = some after := by
    have hbetween := between?_append [',', ' '] [] after
    rwa [List.append_nil] at hbetween
  simp [pair?, htake, hdrop, hafter, hfirst, hsecond]

/-! ## Statements -/

namespace Call

/-- The call of a function with the arguments behind the state. -/
def make? (function : String) (args : List Char) : Option Call :=
  match function with
  | "luaL_newmetatable" => (quoted? args).map .newMetatable
  | "luaL_newlib" => some (.newLib (String.ofList args))
  | "lua_createtable" => (pair? natural? natural? args).map fun p => .createTable p.1 p.2
  | "luaL_getmetatable" => (quoted? args).map .getMetatable
  | "lua_getfield" => (pair? integer? quoted? args).map fun p => .getField p.1 p.2
  | "lua_setfield" => (pair? integer? quoted? args).map fun p => .setField p.1 p.2
  | "lua_setmetatable" => (integer? args).map .setMetatable
  | "lua_pushcfunction" => some (.pushFunction (String.ofList args))
  | "lua_pop" => (natural? args).map .pop
  | _ => none

/-- The call that a statement makes. -/
def ofText? (statement : String) : Option Call := do
  let cs := statement.toList
  let args ← between? "(L, ".toList ");".toList (cs.dropWhile (· != '('))
  make? (String.ofList (cs.takeWhile (· != '('))) args

theorem ofText?_eq_make? {statement f : String} {a : List Char} (hfunction : '(' ∉ f.toList)
    (h : statement.toList = f.toList ++ ("(L, ".toList ++ (a ++ ");".toList))) :
    ofText? statement = make? f a := by
  obtain ⟨htake, hdrop⟩ := span_append hfunction ("L, ".toList ++ (a ++ ");".toList))
  have hcs : statement.toList = f.toList ++ '(' :: ("L, ".toList ++ (a ++ ");".toList)) := h
  have hargs := between?_append "(L, ".toList ");".toList a
  rw [ofText?, hcs, htake, hdrop, String.ofList_toList]
  show (between? _ _ ("(L, ".toList ++ (a ++ ");".toList)) >>= _) = _
  rw [hargs]
  rfl

/-- **Each call is read back from its statement.** -/
theorem ofText?_text (call : Call) : ofText? call.text = some call := by
  unfold Call.text
  -- each statement is its function around its arguments; what is left is to read the arguments
  cases call with
  | newMetatable name =>
    rw [ofText?_eq_make? (f := "luaL_newmetatable") (a := '"' :: (name.toList ++ ['"'])) (by decide) (by simp)]
    exact congrArg (Option.map _) (quoted?_quoted name)
  | newLib array =>
    rw [ofText?_eq_make? (f := "luaL_newlib") (a := array.toList) (by decide) (by simp)]
    exact congrArg (some ∘ newLib) String.ofList_toList
  | createTable sequence fields =>
    rw [ofText?_eq_make? (f := "lua_createtable")
      (a := (toString sequence).toList ++ ',' :: ' ' :: (toString fields).toList) (by decide) (by simp)]
    exact congrArg (Option.map _)
      (pair?_append (comma_notMem_toString sequence) (natural?_toString sequence) (natural?_toString fields))
  | getMetatable name =>
    rw [ofText?_eq_make? (f := "luaL_getmetatable") (a := '"' :: (name.toList ++ ['"'])) (by decide) (by simp)]
    exact congrArg (Option.map _) (quoted?_quoted name)
  | getField index key =>
    rw [ofText?_eq_make? (f := "lua_getfield")
      (a := (toString index).toList ++ ',' :: ' ' :: '"' :: (key.toList ++ ['"'])) (by decide) (by simp)]
    exact congrArg (Option.map _)
      (pair?_append (comma_notMem_toString_int index) (integer?_toString index) (quoted?_quoted key))
  | setField index key =>
    rw [ofText?_eq_make? (f := "lua_setfield")
      (a := (toString index).toList ++ ',' :: ' ' :: '"' :: (key.toList ++ ['"'])) (by decide) (by simp)]
    exact congrArg (Option.map _)
      (pair?_append (comma_notMem_toString_int index) (integer?_toString index) (quoted?_quoted key))
  | setMetatable index =>
    rw [ofText?_eq_make? (f := "lua_setmetatable") (a := (toString index).toList) (by decide) (by simp)]
    exact congrArg (Option.map _) (integer?_toString index)
  | pushFunction function =>
    rw [ofText?_eq_make? (f := "lua_pushcfunction") (a := function.toList) (by decide) (by simp)]
    exact congrArg (some ∘ pushFunction) String.ofList_toList
  | pop count =>
    rw [ofText?_eq_make? (f := "lua_pop") (a := (toString count).toList) (by decide) (by simp)]
    exact congrArg (Option.map _) (natural?_toString count)

/-- Statements of calls are read as the calls, one by one. -/
theorem mapM_ofText?_text (calls : List Call) : (calls.map text).mapM ofText? = some calls := by
  induction calls with
  | nil => rfl
  | cons call calls ih => simp [List.mapM_cons, ofText?_text, ih]

end Call

end LuaGlue.Lua
