import WireModules.Main
import WireModules.Session.Host
import WireModules.Proofs.Annotation
import WireModules.Proofs.AutomaticExports
import WireModules.Proofs.ClosedSessions
import WireModules.Proofs.Delivery
import WireModules.Proofs.DirectiveReading
import WireModules.Proofs.Duplicates
import WireModules.Proofs.EnumValues
import WireModules.Proofs.ExportedTypes
import WireModules.Proofs.FileSpellings
import WireModules.Proofs.FirstCollisions
import WireModules.Proofs.FirstCompilation
import WireModules.Proofs.FullyQualified
import WireModules.Proofs.GlueOutcome
import WireModules.Proofs.HostNames
import WireModules.Proofs.ImportedFiles
import WireModules.Proofs.InputOrder
import WireModules.Proofs.LoadOutcome
import WireModules.Proofs.ModuleRoundTrip
import WireModules.Proofs.NameReports
import WireModules.Proofs.OffendingDirectives
import WireModules.Proofs.Positions
import WireModules.Proofs.ProgramUnits
import WireModules.Proofs.ReadingOutcome
import WireModules.Proofs.RecordedReferences
import WireModules.Proofs.RenderedReferences
import WireModules.Proofs.ReportedCollisions
import WireModules.Proofs.ReportedCycles
import WireModules.Proofs.ResolvedPaths
import WireModules.Proofs.SessionFaults
import WireModules.Proofs.StrictNames
import WireModules.Proofs.SyntaxErrors
import WireModules.Proofs.UnitOrder
import WireModules.Proofs.WordBoundary
