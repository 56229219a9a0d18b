import EufyNvr.Lib.Machine
import EufyNvr.Lib.Dict

/-!
# Time and bytes

The code reads `time.monotonic()` and compares and adds floats. Here a time
is an `Int`, a whole number of nanoseconds of that clock, so sums are exact;
rounding of floats is not modelled.
-/

namespace EufyNvr

def seconds (n : Int) : Int := n * 1000000000

def milliseconds (n : Int) : Int := n * 1000000

abbrev Bytes := List UInt8

end EufyNvr
