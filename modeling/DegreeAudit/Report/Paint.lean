import DegreeAudit.Text.Basic

/-!
# Coloured text

Terminal text is coloured by escape sequences. A painted text ends with the sequence that resets
the terminal.
-/

namespace DegreeAudit

/-- The styles of terminal text. -/
inductive Paint where
  | bold
  | dim
  | green
  | yellow
  | red
  | cyan
  | white
  | onGreen
  | onRed

namespace Paint

/-- The number of a style in escape sequences. -/
def code : Paint → Text
  | bold => "1"
  | dim => "2"
  | green => "92"
  | yellow => "93"
  | red => "91"
  | cyan => "96"
  | white => "97"
  | onGreen => "42"
  | onRed => "41"

/-- The escape sequence that starts a style. -/
def start (p : Paint) : Text := "\x1b[" ++ p.code ++ "m"

/-- The escape sequence that ends all styles. -/
def reset : Text := "\x1b[0m"

/-- A text in some styles. -/
def on (styles : List Paint) (s : Text) : Text :=
  styles.flatMap start ++ s ++ reset

end Paint

end DegreeAudit
