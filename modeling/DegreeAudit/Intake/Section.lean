import DegreeAudit.Intake.Page
import DegreeAudit.Text.Blank
import DegreeAudit.Text.Split

/-!
# The prerequisite section of a page

The prerequisites of a course stand in the tag after the first heading that mentions them. Without
such text, they stand in the first block that mentions them and has no inner block. The text ends
where co- and antirequisites begin.

`Site.visit` puts this after the fetching of a page, so a link has its prerequisites, a failure or a
fault.
-/

namespace DegreeAudit

namespace PrereqSection

open Text

/-- The word that marks the section. -/
def marker : Text := "Prerequisites"

/-- The names of headings. -/
def headingNames : List Text := ["h2", "h3", "h4", "strong"]

/-- The names of blocks. -/
def blockNames : List Text := ["div", "p", "section"]

/-- The names of blocks that are too large if they stand inside another one. -/
def innerNames : List Text := ["div", "section"]

section

variable (r : PageReader)

/-- Whether a tag mentions prerequisites. -/
def isMarked (tag : r.Tag) : Bool := mentions marker (r.text tag)

/-- Whether a tag is a heading that mentions prerequisites. -/
def isHeading (tag : r.Tag) : Bool := headingNames.contains (r.name tag) && isMarked r tag

/-- Whether a tag is a block that mentions prerequisites and has no inner block. -/
def isBlock (tag : r.Tag) : Bool :=
  blockNames.contains (r.name tag) && isMarked r tag &&
    (r.find? tag fun inner => innerNames.contains (r.name inner)).isNone

/-- The text of the tag after the heading. -/
def headed (page : r.Tag) : Text :=
  match (r.find? page (isHeading r)).bind r.next? with
  | some tag => r.plainText tag
  | none => []

/-- The text of the block. -/
def blocked (page : r.Tag) : Text :=
  match r.find? page (isBlock r) with
  | some tag => r.plainText tag
  | none => []

end

/-- The text up to the co- and antirequisites. -/
def clip (s : Text) : Text := trim (before "Antirequisites" (before "Corequisites" s))

/-- The prerequisite text of a page, empty if it has none. -/
def read (r : PageReader) (html : Text) : Except Fault Text := do
  let page ← r.read html
  let text := headed r page
  return clip (if text.isEmpty then blocked r page else text)

end PrereqSection

/-- Where pages are had and how they are read. -/
structure Site where
  fetch : Json → Visit
  reader : PageReader

/-- What comes of following a link to its prerequisite text. -/
def Site.visit (site : Site) (url : Json) : Visit :=
  match site.fetch url with
  | .page html =>
    match PrereqSection.read site.reader html with
    | .ok text => .page text
    | .error why => .fault why
  | .failure why => .failure why
  | .fault why => .fault why

end DegreeAudit
