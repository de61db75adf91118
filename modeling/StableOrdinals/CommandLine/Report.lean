import StableOrdinals.Allocation
import StableOrdinals.CommandLine.Style
import StableOrdinals.Ordinal.Notation

/-!
# Reports

The rows that show how the ordinals of a workload are allocated.
-/

namespace StableOrdinals.CommandLine.Report

def ordinalOrDash (o : Option Ordinal) : Text := o.elim "-" fun o => Text.ofInt o.toInt

/-- The rows of an allocation, where `ends` are its least and greatest ordinal. -/
def rows (replicas : Int32) (reserved : OrdinalSet) (r : Resolution) : Text :=
  Style.row "replicas" (Text.ofInt replicas.toInt)
    ++ Style.row "reserved" (Text.ofOrdinalSet reserved)
    ++ Style.row "consumed" (Text.ofOrdinalSet r.consumed)
    ++ Style.row "latent" (Text.ofOrdinalSet (reserved \ r.consumed))
    ++ Style.row "boundary" (Text.ofNat r.boundary)
    ++ Style.row "ordinals" (Style.colored Style.blue (Text.ofOrdinalSet r.active))
    ++ Style.row "min / max" (ordinalOrDash r.minActive ++ " / " ++ ordinalOrDash r.maxActive)

def allocation (replicas : Int32) (reserved : OrdinalSet) : Except AllocationError Text :=
  (Allocation.resolve replicas reserved).map (rows replicas reserved)

end StableOrdinals.CommandLine.Report
