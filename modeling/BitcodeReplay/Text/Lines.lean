/-!
Lines of a text, and its white space. A line ends at a line feed, and a carriage return right before
that line feed is not part of it; what follows the last line feed is a line unless it is empty. A
character is blank when it has the Unicode property `White_Space`, so the no-break spaces and the
line and paragraph separators are blank, and the zero-width space is not.
-/

namespace BitcodeReplay.Text

/-- Drops one carriage return at the end. -/
def dropReturn : List Char → List Char
  | [] => []
  | ['\r'] => []
  | c :: r => c :: dropReturn r

/-- Reads on with `line` as the part of the current line seen so far. -/
def linesFrom (line : List Char) : List Char → List (List Char)
  | [] => if line = [] then [] else [line]
  | c :: r => if c = '\n' then dropReturn line :: linesFrom [] r else linesFrom (line ++ [c]) r

/-- The lines of a text. -/
def lines (text : String) : List String := (linesFrom [] text.toList).map String.ofList

/-- The twenty-five characters with the property `White_Space`. -/
def isBlank (c : Char) : Bool :=
  let n := c.toNat
  (9 ≤ n && n ≤ 13) || n == 0x20 || n == 0x85 || n == 0xA0 || n == 0x1680 ||
    (0x2000 ≤ n && n ≤ 0x200A) || n == 0x2028 || n == 0x2029 || n == 0x202F || n == 0x205F ||
    n == 0x3000

/-- The text without the blanks it starts with. -/
def trimStart (s : List Char) : List Char := s.dropWhile isBlank

/-- The text without the blanks it ends with. -/
def trimEnd (s : List Char) : List Char := (s.reverse.dropWhile isBlank).reverse

/-- The text without the blanks at either end. -/
def trim (s : List Char) : List Char := trimEnd (trimStart s)

/-- Nothing but blanks. -/
def allBlank (s : List Char) : Bool := s.all isBlank

/-- The first character is a blank. -/
def startsBlank : List Char → Bool
  | [] => false
  | c :: _ => isBlank c

theorem isBlank_of_isWhitespace {c : Char} (h : c.isWhitespace = true) : isBlank c = true := by
  simp only [Char.isWhitespace, Bool.or_eq_true, decide_eq_true_eq] at h
  rcases h with ((rfl | rfl) | rfl) | rfl <;> decide

end BitcodeReplay.Text
