import Mindone.CMux.Framer
import Mindone.Mux.SessionFailure
import Mindone.Mux.SessionFlow
import Mindone.Mux.Uplink
import Mindone.Mux.RuntimeTokens
import Mindone.Mux.RuntimeDownlink
import Mindone.Mux.RuntimePause
import Mindone.Mux.RuntimeBudget
import Mindone.Mux.ServiceCooldown
import Mindone.Mux.MccMessages
import Mindone.Mux.ChatHandOff
import Mindone.Mux.ChatCommands
import Mindone.Mux.ChatDeadline
import Mindone.Radio.At.EngineAttempts
import Mindone.Radio.At.EngineSplit
import Mindone.Radio.At.EngineAnswers
import Mindone.Radio.At.ModemAnswers
import Mindone.Radio.Core.Runs
import Mindone.Radio.Core.SignalAnswer
import Mindone.Radio.Network.Service
import Mindone.Radio.Modem.Service
import Mindone.Radio.Runtime.SharedTokens
import Mindone.Fsd.Dispatch
import Mindone.Fsd.Sandbox
import Mindone.Audio.Routes
import Mindone.Audio.Crossbar
import Mindone.Audio.ScoCapture
import Mindone.Fsd.Accounting
import Mindone.Fingerprint.LockoutHistory
import Mindone.Fingerprint.LockoutPolicy
import Mindone.Wifi.RxFirmware
import Mindone.Wifi.RxCommand
import Mindone.Wifi.RxReads
import Mindone.Wfca.RelayLaws
import Mindone.Wfca.LossReportsLaws
import Mindone.Wfca.ReaderLaws
import Mindone.Power.LocksRuns
import Mindone.Power.ExpiryThreadTables
import Mindone.Sensors.NvcfgJson
import Mindone.Sensors.CalibrationDiscipline
import Mindone.Sensors.CalibrationPayload
import Mindone.Sensors.CalibrationWrites
import Mindone.Rpc.Daemon
import Mindone.Tether.FlowLaws
import Mindone.Fingerprint.RemovalLaws
import Mindone.Fingerprint.SessionLaws
import Mindone.Gauge.Records
import Mindone.Gauge.ShadowLogShape
