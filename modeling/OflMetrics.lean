import OflMetrics.Bme280.Humidity
import OflMetrics.Bridge.Battery
import OflMetrics.Bridge.LoopCount
import OflMetrics.Bridge.Message
import OflMetrics.Bridge.SpecialChar
import OflMetrics.Bridge.Thermometer
import OflMetrics.Bridge.Timing
import OflMetrics.Bridge.ToldApart
import OflMetrics.Buffers
import OflMetrics.CommandString
import OflMetrics.ConfigSigned
import OflMetrics.Delay
import OflMetrics.Dongle.Crlf
import OflMetrics.Dongle.Hopping
import OflMetrics.MyItoa
import OflMetrics.Node.Ping
import OflMetrics.Node.ReportLength
import OflMetrics.Node.Wait
import OflMetrics.Omniradio.MsgRoom
import OflMetrics.Omniradio.Pulses
import OflMetrics.PaquetCodec
import OflMetrics.System
import OflMetrics.Thermometer.Line
