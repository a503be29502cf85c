import DegreeAudit.Fault

/-!
# Pages

How a page is had and how marked-up text is taken apart is not told here. Both are given from
outside: what comes of following a link, and a reader that tells what stands in a page.

Following a link has one of three outcomes. There is a page, or there is none for a reason that is
told, or a fault stops everything.
-/

namespace DegreeAudit

/-- What comes of following a link. -/
inductive Visit where
  | page (text : Text)
  /-- There is no page, and this is why. -/
  | failure (why : Text)
  /-- Everything stops. -/
  | fault (why : Fault)

/-- What a reader of marked-up pages tells. -/
structure PageReader where
  Tag : Type
  /-- The tag that holds a whole page. -/
  read : Text → Except Fault Tag
  name : Tag → Text
  /-- All text inside a tag. -/
  text : Tag → Text
  /-- The pieces of text inside a tag, each trimmed, with a space between those that are not
  empty. -/
  plainText : Tag → Text
  /-- The next tag in the same tag. -/
  next? : Tag → Option Tag
  /-- The first tag inside a tag, in the order of the page, that satisfies a condition. -/
  find? : Tag → (Tag → Bool) → Option Tag

end DegreeAudit
