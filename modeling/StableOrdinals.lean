import StableOrdinals.Main
import StableOrdinals.Block.Workload
import StableOrdinals.Proofs.Allocation.Boundary
import StableOrdinals.Proofs.Allocation.Members
import StableOrdinals.Proofs.Allocation.ScaleOut
import StableOrdinals.Proofs.Allocation.Rescaling
import StableOrdinals.Proofs.Allocation.Ends
import StableOrdinals.Proofs.Allocation.Removal
import StableOrdinals.Proofs.Allocation.Release
import StableOrdinals.Proofs.Allocation.FixedPoint
import StableOrdinals.Proofs.Allocation.Locality
import StableOrdinals.Proofs.Allocation.Words
import StableOrdinals.Proofs.Allocation.Failure
import StableOrdinals.Proofs.Reservations.Grammar
import StableOrdinals.Proofs.Reservations.RoundTrip
import StableOrdinals.Proofs.Reservations.Edits
import StableOrdinals.Proofs.Reservations.Commutation
import StableOrdinals.Proofs.Stability
import StableOrdinals.Proofs.Files.Tree
import StableOrdinals.Proofs.Files.Children
import StableOrdinals.Proofs.Files.Places
import StableOrdinals.Proofs.Files.Paths
import StableOrdinals.Proofs.Files.Depth
import StableOrdinals.Proofs.Files.Making
import StableOrdinals.Proofs.Store.Load
import StableOrdinals.Proofs.Store.Save
import StableOrdinals.Proofs.Store.Saving
import StableOrdinals.Proofs.Store.Outcomes
import StableOrdinals.Proofs.Store.Modify
import StableOrdinals.Proofs.Store.Attempts
import StableOrdinals.Proofs.Store.Others
import StableOrdinals.Proofs.Store.Contents
import StableOrdinals.Proofs.Store.Success
import StableOrdinals.Proofs.Store.History
import StableOrdinals.Proofs.Store.ConditionalWrites
import StableOrdinals.Proofs.Store.Atomicity
import StableOrdinals.Proofs.Store.Contention
import StableOrdinals.Proofs.Store.Clients
import StableOrdinals.Proofs.Store.Writers
import StableOrdinals.Proofs.CommandLine.Procedures
import StableOrdinals.Proofs.CommandLine.Failure
import StableOrdinals.Proofs.CommandLine.Home
import StableOrdinals.Proofs.CommandLine.Registry
import StableOrdinals.Proofs.CommandLine.Simulation
import StableOrdinals.Proofs.CommandLine.Scaling
import StableOrdinals.Proofs.Ordinal.Entered
import StableOrdinals.Proofs.Store.Listing
import StableOrdinals.Proofs.Files.Footprint
import StableOrdinals.Proofs.Store.Confinement
import StableOrdinals.Proofs.Files.AllOrNothing
import StableOrdinals.Proofs.Store.MissingDirectory
import StableOrdinals.Proofs.Store.Independence
import StableOrdinals.Proofs.Text.Numerals
import StableOrdinals.Proofs.Ordinal.Printed
import StableOrdinals.Proofs.CommandLine.Arguments
import StableOrdinals.Proofs.Config.StoreDirectory
import StableOrdinals.Proofs.CommandLine.Initialization
import StableOrdinals.Proofs.CommandLine.Pointers
import StableOrdinals.Proofs.CommandLine.Computation
