import DegreeAudit.Main
import DegreeAudit.Intake.Harvest
import DegreeAudit.Intake.Offerings
import DegreeAudit.Proofs.Crediting
import DegreeAudit.Proofs.Derivation
import DegreeAudit.Proofs.Consumption
import DegreeAudit.Proofs.Counting
import DegreeAudit.Proofs.DepthSearch
import DegreeAudit.Proofs.Comparison
import DegreeAudit.Proofs.Monotone
import DegreeAudit.Proofs.CanonicalForm
import DegreeAudit.Proofs.Trimming
import DegreeAudit.Proofs.Reporting
import DegreeAudit.Proofs.Spelling
import DegreeAudit.Proofs.CourseOrder
import DegreeAudit.Proofs.FixedForm
import DegreeAudit.Proofs.NeverCounted
import DegreeAudit.Proofs.Documents
import DegreeAudit.Session
import DegreeAudit.Proofs.Needs
import DegreeAudit.Proofs.Snapshot
import DegreeAudit.Proofs.Following
import DegreeAudit.Proofs.Places
import DegreeAudit.Proofs.Locality
import DegreeAudit.Proofs.Mentions
import DegreeAudit.Proofs.NamedPrereqs
import DegreeAudit.Proofs.SoundGraph
import DegreeAudit.Proofs.Gathering
import DegreeAudit.Proofs.Confinement
import DegreeAudit.Proofs.Collecting
import DegreeAudit.Proofs.Resuming
import DegreeAudit.Proofs.Checkpoints
import DegreeAudit.Proofs.Refusal
import DegreeAudit.Proofs.Filling
import DegreeAudit.Proofs.Listing
import DegreeAudit.Proofs.DistinctKeys
import DegreeAudit.Proofs.WellFormed
import DegreeAudit.Proofs.Walkable
import DegreeAudit.Proofs.ReadBack
import DegreeAudit.Proofs.OfferedCatalog
import DegreeAudit.Proofs.Footprint
import DegreeAudit.Proofs.Alternatives
import DegreeAudit.Proofs.FirstWitness
import DegreeAudit.Proofs.HandOut
import DegreeAudit.Proofs.MentionedOnce
import DegreeAudit.Proofs.FirstOfKey
import DegreeAudit.Proofs.Tokens
import DegreeAudit.Proofs.Selection
import DegreeAudit.Proofs.Windows
import DegreeAudit.Proofs.DistinctCourses
import DegreeAudit.Proofs.EnteredCourses
import DegreeAudit.Proofs.Lookup
import DegreeAudit.Proofs.WrittenCodes
import DegreeAudit.Proofs.CourseEntries
