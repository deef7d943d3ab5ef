/-
The temperature of the DS1820, from the levels on its line to the number the
database gets.

A node with this thermometer tells one of three things, and the bridge posts it:
the temperature, that the thermometer had none yet, or that it was not read. The
number posted is the measurement to the hundredth, cut off, as far as 256 degrees;
readings of 85 degrees, what the thermometer says when it has none, are not told
(`ds1820_metrics`).
-/
import OflMetrics.Bridge.Posted
import OflMetrics.Thermometer.Reading

namespace OflMetrics

open Embed Embed.KeyValue Embed.Lfsr Embed.Printf Embed.Traced

/-! ## The items of the thermometer -/

end OflMetrics
