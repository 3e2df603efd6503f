import LittlePascal.Main
import LittlePascal.Workload.Commands
import LittlePascal.Proofs.Derivation
import LittlePascal.Proofs.Rule
import LittlePascal.Proofs.Recognition
import LittlePascal.Proofs.Declaredness
import LittlePascal.Proofs.Scoping
import LittlePascal.Proofs.Verdict
import LittlePascal.Proofs.DigitLimits
import LittlePascal.Proofs.Calculation
import LittlePascal.Proofs.Layout
import LittlePascal.Proofs.CallSites
import LittlePascal.Proofs.Resolution
import LittlePascal.Proofs.Distinctness
import LittlePascal.Proofs.SessionScopes
import LittlePascal.Proofs.Rendering
import LittlePascal.Proofs.Extension
import LittlePascal.Proofs.Refusal
import LittlePascal.Proofs.Simulation
import LittlePascal.Proofs.Fitting
import LittlePascal.Proofs.Succession
import LittlePascal.Proofs.Depiction
import LittlePascal.Proofs.Grouping
import LittlePascal.Proofs.PrintedTables
import LittlePascal.Proofs.Journal
import LittlePascal.Proofs.ScopeAnalyses
import LittlePascal.Proofs.Strictness
import LittlePascal.Proofs.Isolation
import LittlePascal.Proofs.Conversion
import LittlePascal.Proofs.Respelling
import LittlePascal.Proofs.Migration
import LittlePascal.Proofs.Resumption
import LittlePascal.Proofs.Containment
import LittlePascal.Proofs.FrontEnd
import LittlePascal.Proofs.Assignedness
import LittlePascal.Proofs.Omission
import LittlePascal.Proofs.Tracking
import LittlePascal.Proofs.Iteration
import LittlePascal.Proofs.Routines
import LittlePascal.Proofs.Descent
import LittlePascal.Proofs.Conformance
import LittlePascal.Proofs.Tabulation
import LittlePascal.Proofs.RunMemories
import LittlePascal.Proofs.SessionMemory
import LittlePascal.Proofs.Repetition
import LittlePascal.Proofs.Doubling
import LittlePascal.Proofs.Copies
import LittlePascal.Proofs.Integers
import LittlePascal.Proofs.Transcript
import LittlePascal.Proofs.LeadingExpressions
import LittlePascal.Proofs.Regrouping
import LittlePascal.Proofs.Series
import LittlePascal.Proofs.Nesting
import LittlePascal.Proofs.Actions
import LittlePascal.Proofs.Typedness
import LittlePascal.Proofs.Joining
import LittlePascal.Proofs.Shallow
import LittlePascal.Proofs.Generated
import LittlePascal.Proofs.GeneratedTree
import LittlePascal.Proofs.GeneratedRun
