import Sketchbook.Arduino.Text
import Sketchbook.Foundation.BigEndian
import Sketchbook.Foundation.BitWord
import Sketchbook.Foundation.CyclicSlot
import Sketchbook.Foundation.LevelRun
import Sketchbook.Foundation.Memory
import Sketchbook.Foundation.RingIndex
import Sketchbook.Foundation.TransitionSystem
import Sketchbook.Sensor.BinaryReading
import Sketchbook.Sensor.ParityCheck
import Sketchbook.Receiver.RingReceiver
import Sketchbook.Receiver.FramePairing
import Sketchbook.Receiver.ReceiverRun
import Sketchbook.Receiver.FrameLength
import Sketchbook.Receiver.FrameLoss
import Sketchbook.Receiver.WindowDecoding
import Sketchbook.Receiver.WindowIntegrity
import Sketchbook.Receiver.RoundTrip
import Sketchbook.Receiver.TemperatureReport
import Sketchbook.Receiver.SignedDecoder
import Sketchbook.PulseScan.FrameScan
import Sketchbook.PulseScan.ScanAcceptance
import Sketchbook.PulseScan.LostPulse
import Sketchbook.PulseScan.CorruptedPulse
import Sketchbook.Station.AlertStation
import Sketchbook.Station.AlertProtocol
import Sketchbook.Station.WifiPower
import Sketchbook.Station.ReceiverSwitch
import Sketchbook.Station.AlertWrites
import Sketchbook.PulseScan.LoopPass
import Sketchbook.PulseScan.PassIndependence
import Sketchbook.PulseScan.SignedTemperature
import Sketchbook.PulseScan.PulseCapture
import Sketchbook.PulseScan.CaptureFidelity
import Sketchbook.PulseScan.CaptureGate
import Sketchbook.Transmitter.CodeTransmitter
import Sketchbook.Transmitter.WireFormat
import Sketchbook.Timer.TimerScheduler
import Sketchbook.Timer.NextMinutes
import Sketchbook.Timer.ActivationSpacing
import Sketchbook.Timer.NtpTime
import Sketchbook.PulseScan.ScanMemory
import Sketchbook.PulseScan.ScanCompleteness
import Sketchbook.Receiver.PairIndependence
import Sketchbook.Receiver.FahrenheitReport
import Sketchbook.NetMicros.FrameReport
import Sketchbook.NetMicros.GapCapture
import Sketchbook.BufferBounds
import Sketchbook.Recorder.RecordPin
import Sketchbook.Foundation.WrappedClock
import Sketchbook.Receiver.EdgeTiming
import Sketchbook.Foundation.Delimited
import Sketchbook.Bridge.LineForwarding
import Sketchbook.Transmitter.SerialCommands
import Sketchbook.Recorder.RunLengths
import Sketchbook.OneWire.DeviceEnumeration
import Sketchbook.OneWire.TargetSearch
import Sketchbook.OneWire.CheckSum
import Sketchbook.OneWire.RegisterStore
import Sketchbook.OneWire.BusSurvey
import Sketchbook.OneWire.AlarmHandling
import Sketchbook.OneWire.ThermometerSketch
import Sketchbook.TimeLibrary.TimeElements
import Sketchbook.TimeLibrary.SystemClock
import Sketchbook.Blynk.VirtualPins
import Sketchbook.Blynk.MessageLimit
