/-
  Text functions of Go's `strings` package on Unicode text.

  The tables that the package consults are parameters (`Unicode`): the lower
  case of a character, and a representative of its simple folding orbit.
-/
import Mathlib.Data.List.Basic

namespace Lib

structure Unicode where
  toLower : Char → Char
  /-- `EqualFold` compares characters up to this -/
  simpleFold : Char → Char

namespace Unicode

/-- The tables restricted to ASCII. -/
def ascii : Unicode := ⟨Char.toLower, Char.toLower⟩

/-- `strings.ToLower` -/
def lower (u : Unicode) (s : String) : String := String.ofList (s.toList.map u.toLower)

/-- `strings.EqualFold` -/
def equalFold (u : Unicode) (s t : String) : Bool :=
  decide (s.toList.map u.simpleFold = t.toList.map u.simpleFold)

end Unicode

/-- `unicode.IsSpace` -/
def isSpace (c : Char) : Bool :=
  let n := c.toNat
  (9 ≤ n && n ≤ 13) || n = 0x20 || n = 0x85 || n = 0xA0 || n = 0x1680 ||
    (0x2000 ≤ n && n ≤ 0x200A) || n = 0x2028 || n = 0x2029 || n = 0x202F || n = 0x205F || n = 0x3000

/-- `strings.TrimRightFunc` -/
def trimRight (p : Char → Bool) (cs : List Char) : List Char := (cs.reverse.dropWhile p).reverse

/-- `strings.TrimSpace` -/
def trimSpace (s : String) : String := String.ofList (trimRight isSpace (s.toList.dropWhile isSpace))

/-- `strings.Split` with a separator of one character. -/
def split (sep : Char) (s : String) : List String := (s.toList.splitOn sep).map String.ofList

def cutChars (sep : Char) : List Char → Option (List Char × List Char)
  | [] => none
  | c :: cs =>
    if c = sep then some ([], cs)
    else (cutChars sep cs).map fun (before, after) => (c :: before, after)

theorem cutChars_append_cons {sep : Char} {cs : List Char} (h : sep ∉ cs) (ds : List Char) :
    cutChars sep (cs ++ sep :: ds) = some (cs, ds) := by
  induction cs with
  | nil => simp [cutChars]
  | cons c cs ih =>
    rw [List.mem_cons, not_or] at h
    rw [List.cons_append, cutChars, if_neg (Ne.symm h.1), ih h.2]
    rfl

/-- `strings.Cut`: the text before and after the first `sep`. -/
def cut (sep : Char) (s : String) : Option (String × String) :=
  (cutChars sep s.toList).map fun (before, after) => (String.ofList before, String.ofList after)

/-- `strings.Index` of a text: the characters before and after the first `sep`. -/
def cutText (sep : List Char) : List Char → Option (List Char × List Char)
  | [] => if sep = [] then some ([], []) else none
  | c :: cs =>
    if sep.isPrefixOf (c :: cs) then some ([], (c :: cs).drop sep.length)
    else (cutText sep cs).map fun (before, after) => (c :: before, after)

/-- `strings.HasPrefix`, and the text after the prefix. -/
def afterPrefix? (pre s : String) : Option String :=
  if pre.toList.isPrefixOf s.toList then some (String.ofList (s.toList.drop pre.toList.length))
  else none

end Lib
