import Lantern.CommandLine
import Lantern.Golden.Report
import Lantern.Main
import Lantern.Proofs.NormalForms
import Lantern.Proofs.Labels
import Lantern.Proofs.MethodTables
import Lantern.Proofs.Passing
import Lantern.Proofs.Progress
import Lantern.Proofs.Pool
import Lantern.Proofs.Printing
import Lantern.Proofs.References
import Lantern.Proofs.Scanning
import Lantern.Proofs.Structured
import Lantern.Proofs.Unwinding
import Lantern.Proofs.Checking
import Lantern.Proofs.Remarks
import Lantern.Proofs.Storage
import Lantern.Proofs.Spelling
import Lantern.Proofs.Fingerprints
import Lantern.Proofs.Returns
import Lantern.Proofs.Copies
import Lantern.Proofs.Fields
import Lantern.Proofs.Initials
import Lantern.Proofs.Inputs
import Lantern.Proofs.Flight
import Lantern.Proofs.Hierarchy
import Lantern.Proofs.Objects
import Lantern.Proofs.Ending
import Lantern.Proofs.Temporaries
import Lantern.Proofs.Directives
import Lantern.Proofs.Numerals
import Lantern.Proofs.Collections
import Lantern.Proofs.Operations
import Lantern.Proofs.Requests
import Lantern.Proofs.CompoundAssignments
import Lantern.Proofs.Given
import Lantern.Proofs.Records
import Lantern.Proofs.Powers
import Lantern.Proofs.Targets
import Lantern.Proofs.Settling
import Lantern.Proofs.Coverage
import Lantern.Proofs.Concord
