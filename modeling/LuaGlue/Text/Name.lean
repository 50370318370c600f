import LuaGlue.Text.Lower
import LuaGlue.Text.Word

/-!
# Names

* `snakeCase`: a name in camel case as lower-case words joined by underscores.
* `identifier`: a qualified name flattened into one identifier.

Word boundaries in camel case are found among the ASCII letters and digits alone; lower case is that
of every script.
-/

namespace LuaGlue.Text

/-- An ASCII capital. -/
def isCapital (c : Char) : Bool := 'A' ≤ c && c ≤ 'Z'

/-- An ASCII small letter. -/
def isSmall (c : Char) : Bool := 'a' ≤ c && c ≤ 'z'

/-- An ASCII digit. -/
def isDigit (c : Char) : Bool := '0' ≤ c && c ≤ '9'

/-! ## Snake case -/

/-- A run of at least two capitals gives its last one to the word that follows it. -/
def breakRun (run rest : List Char) : List Char :=
  if 2 ≤ run.length && rest.head?.any isSmall then
    run.dropLast ++ '_' :: run.drop (run.length - 1)
  else run

/-- Separates each run of capitals from a word that follows it (`URLString` to `URL_String`). -/
def splitRuns : List Char → List Char
  | [] => []
  | c :: cs =>
    if isCapital c then
      breakRun (c :: cs.takeWhile isCapital) (cs.dropWhile isCapital)
        ++ splitRuns (cs.dropWhile isCapital)
    else c :: splitRuns cs
termination_by cs => cs.length
decreasing_by
  · have := (List.dropWhile_suffix isCapital (l := cs)).length_le
    simp only [List.length_cons]
    omega
  · simp

/-- Separates a capital from the small letter or digit in front of it (`getAny` to `get_Any`). -/
def splitHumps : List Char → List Char
  | a :: b :: rest =>
    if (isSmall a || isDigit a) && isCapital b then a :: '_' :: splitHumps (b :: rest)
    else a :: splitHumps (b :: rest)
  | cs => cs

/-- A name in snake case: `insertAny_withIndex` is `insert_any_with_index`, `URLString` is
`url_string`. -/
def snakeCase (name : String) : String :=
  String.ofList (lower (splitHumps (splitRuns name.toList)))

/-! ## Identifiers -/

/-- Each gap between words becomes one underscore; `gap` says that one is being crossed. -/
def joinWords (gap : Bool) : List Char → List Char
  | [] => []
  | c :: cs =>
    if isWord c then c :: joinWords false cs
    else if gap then joinWords true cs
    else '_' :: joinWords true cs

/-- The characters without the underscores at either end. -/
def trimUnderscores (cs : List Char) : List Char :=
  (((cs.dropWhile (· == '_')).reverse).dropWhile (· == '_')).reverse

/-- A qualified name as one identifier: `std::shared_ptr` is `std_shared_ptr`. -/
def identifier (name : String) : String :=
  String.ofList (trimUnderscores (joinWords false name.toList))

end LuaGlue.Text
