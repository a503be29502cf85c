import DegreeAudit.Audit.Major

/-!
# Auditing an entered course list

A student enters courses as one text with commas. Every course must be in the catalog before the
list is audited against a major.
-/

namespace DegreeAudit

namespace CourseList

/-- The entries of a course list, trimmed and in upper case. Empty entries are dropped. -/
def read (s : Text) : List Text :=
  (((Text.split ',' s).map Text.trim).filter (!·.isEmpty)).map Text.upper

end CourseList

namespace Major

/-- Audits an entered course list against a major. -/
def check (major courses : Text) : Load Progress := do
  let codes := CourseList.read courses
  let catalog ← Load.catalog
  Load.ofExcept (catalog.requireAll codes)
  audit major codes

end Major

end DegreeAudit
