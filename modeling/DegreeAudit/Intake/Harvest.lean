import DegreeAudit.Folder.Basic
import DegreeAudit.Intake.Section
import DegreeAudit.Json.Writer
import DegreeAudit.Prereq.Mention

/-!
# Collecting prerequisites

A harvest goes through the links of the courses in order. A course that has an entry is skipped;
for any other the link is followed and the prerequisites on its page are entered, unless there is no
page. Every tenth link the entries are saved, so an interrupted harvest can be resumed from what was
saved; a tenth link that is skipped saves nothing. All entries are saved at the end.

**Faults.** A link can stop the harvest. What was saved before stays.

**Entries.** What was saved should be an object of entries. A list or a text in its place holds the
codes that occur in it, but takes no entry: a page that arrives stops the harvest. So does a folder
in its place, as soon as entries are saved.
-/

namespace DegreeAudit

/-- A harvest under way. -/
structure Harvest where
  /-- The document of entries. -/
  kept : Json
  /-- What this harvest saved last. -/
  saved : Option Json
  /-- Whether a folder stands in the place of the saved entries. -/
  blocked : Bool
  /-- The links followed, in order. -/
  followed : List Json
  printed : Text

namespace Harvest

/-! ## Documents of entries -/

/-- How much a document holds, if it can be counted. -/
def size? : Json → Option Nat
  | .object fields => some fields.length
  | .list items => some items.length
  | .text s => some s.length
  | _ => none

/-- Whether a document holds a code. -/
def holds (code : Text) : Json → Bool
  | .object fields => Fields.has fields code
  | .list items => items.any fun
    | .text s => s == code
    | _ => false
  | .text s => Text.mentions code s
  | _ => false

/-- A document with the entry of a code. -/
def enter (code : Text) (entry : Json) : Json → Except Fault Json
  | .object fields => .ok (.object (Fields.put fields code entry))
  | _ => .error .wrongKind

/-- The entry of a course with its prerequisite text, from a link and at a time. -/
def entryOf (time code text : Text) (url : Json) : Json :=
  .object
    [("prereq_text", .text text),
      ("prereq_codes", Json.ofTexts (Prereq.mentioned text (some code))),
      ("scraped_at", .text time), ("source", url)]

/-! ## Going through the links -/

/-- A harvest that starts from a document of entries. -/
def start (blocked : Bool) (kept : Json) : Harvest := ⟨kept, none, blocked, [], ""⟩

/-- After how many links the entries are saved. -/
def checkpointEvery : Nat := 10

/-- Prints a text. -/
def print (h : Harvest) (s : Text) : Harvest := { h with printed := h.printed ++ s }

/-- Saves the entries. -/
def save (h : Harvest) : Except Fault Harvest :=
  if h.blocked then .error .folderRead else .ok { h with saved := some h.kept }

/-- Saves the entries after every tenth link. -/
def checkpoint (h : Harvest) (number : Nat) : Except Fault Harvest :=
  if number % checkpointEvery = 0 then do
    let h ← h.save
    return h.print ("  … checkpoint saved (" ++ Text.decimal number ++ " done)\n")
  else .ok h

section

variable (site : Site) (clock : Text → Text)

/-- Follows the link of a course and enters the prerequisites on its page. -/
def collect (rawCode code : Text) (url : Json) (h : Harvest) : Except Fault Harvest :=
  let h := { h with followed := h.followed ++ [url] }
  match site.visit url with
  | .page text => do
    let kept ← enter code (entryOf (clock rawCode) code text url) h.kept
    let count := (Prereq.mentioned text (some code)).length
    return { h with kept }.print ("✅ " ++ Text.decimal count ++ " prereq code(s)\n")
  | .failure why => .ok (h.print ("❌ " ++ why ++ "\n"))
  | .fault why => .error why

/-- Goes through one link, the one of a number out of a total. The clock tells when the link of a
course is followed. -/
def step (total : Nat) (h : Harvest) (number : Nat) (rawCode : Text) (url : Json) :
    Except Fault Harvest :=
  let code := Code.canonical rawCode
  if holds code h.kept then .ok h
  else do
    let count := Text.decimal number ++ "/" ++ Text.decimal total
    let h ← (h.print ("[" ++ count ++ "] " ++ code ++ "... ")).collect site clock rawCode code url
    h.checkpoint number

/-- Goes through links, the first of them of a number. -/
def steps (total : Nat) (h : Harvest) (number : Nat) : Fields → Except Fault Harvest
  | [] => .ok h
  | (rawCode, url) :: rest => do
    let h ← step site clock total h number rawCode url
    steps total h (number + 1) rest

/-- Goes through all links and saves the entries. -/
def run (links : Fields) (h : Harvest) : Except Fault Harvest := do
  let h ← steps site clock links.length h 1 links
  h.save

end

/-! ## Data folders -/

/-- The document at a path, an empty object if there is none that can be read. -/
def readOrEmpty (d : Folder) (p : Path) : Except Fault Json :=
  match d.read p with
  | .ok v => .ok v
  | .error (.missing _) => .ok (.object [])
  | .error (.malformed _) => .ok (.object [])
  | .error .folderRead => .ok (.object [])
  | .error .nameTooLong => .ok (.object [])
  | .error e => .error e

/-- Where the links are kept in a data folder. -/
def linksName : List Text := ["course-data", "course-links.json"]

/-- Where the entries are kept in a data folder. -/
def entriesName : List Text := ["course-data", "prereqs.json"]

/-- The path of a file in a data folder. -/
def pathOf (d : Folder) (parts : List Text) : Path := ⟨d.base.slashes, d.base.parts ++ parts⟩

/-- What a harvest that has come so far leaves in a data folder. -/
def leave (d : Folder) (h : Harvest) : Folder :=
  match h.saved with
  | some kept => d.write entriesName kept.write.toUTF8
  | none => d

/-- What a harvest over a data folder leaves behind. -/
structure Outcome where
  folder : Folder
  output : Text
  /-- The links followed, in order. -/
  asked : List Json

/-- A harvest over the links of a data folder, from the entries kept there. Without links nothing
is saved. A folder in the place of the entries reads as no entries. -/
def runIn (d : Folder) (site : Site) (clock : Text → Text) : Except Fault Outcome := do
  let links ← readOrEmpty d (pathOf d linksName)
  let kept ← readOrEmpty d (pathOf d entriesName)
  match links, size? kept with
  | .object [], _ =>
    return ⟨d, "❌ No course links found in " ++ (pathOf d linksName).toText ++ "\n", []⟩
  | .object links, some size =>
    let h ← run site clock links (start (d.isFolder (pathOf d entriesName)) kept)
    let output := "🔎 Found " ++ Text.decimal links.length ++ " courses in course-links.json\n" ++
      "📂 " ++ Text.decimal size ++ " already scraped in prereqs.json\n" ++ h.printed ++
      "✨ Finished. Saved " ++ Text.decimal ((size? h.kept).getD 0) ++ " courses → " ++
      (pathOf d entriesName).toText ++ "\n"
    return ⟨h.leave d, output, h.followed⟩
  | .object _, none => throw .wrongKind
  | _, _ => throw .noFields

end Harvest

end DegreeAudit
