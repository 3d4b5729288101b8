import SurfaceTree.Canonical.Packed
import SurfaceTree.Proofs.Canonical.Edited
import SurfaceTree.Proofs.Canonical.Fingerprint
import SurfaceTree.Proofs.Canonical.Relabelled
import SurfaceTree.Proofs.Canonical.Total
import SurfaceTree.Proofs.Codec.OtherPhase
import SurfaceTree.Proofs.Codec.Rearranged
import SurfaceTree.Proofs.Codec.Renamed
import SurfaceTree.Proofs.Codec.Stored
import SurfaceTree.Proofs.FieldFaults
import SurfaceTree.Proofs.Hashed.History
import SurfaceTree.Proofs.Printing.OneLine
import SurfaceTree.Proofs.RegistryOrder
import SurfaceTree.Proofs.Report.Repeated
import SurfaceTree.Proofs.Report.Resolution
import SurfaceTree.Proofs.ScopeCalls
import SurfaceTree.Proofs.Source.Positions
import SurfaceTree.Proofs.Traversal.Bare
