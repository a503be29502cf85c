import DegreeAudit.Text.CharSet

/-!
# White space

A character is blank if it is one of the 29 white space characters: the ASCII controls from tab to
carriage return, the four information separators, the space, and the spaces and line separators of
the other scripts. The zero-width space and the byte order mark are not blank.

`trim` removes blanks at both ends and `squeeze` removes them everywhere.
-/

namespace DegreeAudit.Text

/-- The ranges of white space characters, in order. -/
def blankRanges : CharSet :=
  [(0x9, 0xD), (0x1C, 0x20), (0x85, 0x85), (0xA0, 0xA0), (0x1680, 0x1680), (0x2000, 0x200A),
   (0x2028, 0x2029), (0x202F, 0x202F), (0x205F, 0x205F), (0x3000, 0x3000)]

/-- Whether a character is white space. -/
def isBlank (c : CodePoint) : Bool := blankRanges.has c

/-- The text without the blanks it starts with. -/
def trimLeft (cs : Text) : Text := cs.dropWhile isBlank

/-- The text without the blanks it ends with. -/
def trimRight (cs : Text) : Text := (cs.reverse.dropWhile isBlank).reverse

/-- The text without the blanks at its two ends. -/
def trim (cs : Text) : Text := trimRight (trimLeft cs)

/-- The text without its blanks. -/
def squeeze (cs : Text) : Text := cs.filter fun c => !isBlank c

theorem isBlank_of_isWhitespace {c : Char} (h : c.isWhitespace = true) :
    isBlank (.scalar c) = true := by
  simp only [Char.isWhitespace, Bool.or_eq_true, decide_eq_true_eq] at h
  rcases h with ((h | h) | h) | h <;> subst h <;> rfl

theorem squeeze_append (xs ys : Text) : squeeze (xs ++ ys) = squeeze xs ++ squeeze ys := by
  simp [squeeze]

theorem squeeze_squeeze (cs : Text) : squeeze (squeeze cs) = squeeze cs := by
  simp [squeeze]

end DegreeAudit.Text
