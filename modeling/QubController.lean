import QubController.Conversions
import QubController.SeqLocked
import QubController.JointWiring
import QubController.Freshness
import QubController.Shutdown
import QubController.Lifecycle
import QubController.MotorConfig
import QubController.IdCollision
import QubController.SetZero
import QubController.ReadBack
import QubController.Draining
import QubController.DryRun
import QubController.ReceivedBytes
import QubController.Messages
import QubController.HoldTargets
import QubController.StopAtExit
import QubController.Trace
import QubController.PositionRead
import QubController.Delivery
import QubController.FreshTarget
import QubController.Restart
import QubController.ProbeWaits
import QubController.Discovery
import QubController.ImuConnection
import QubController.KeyInput
import QubController.NumericArguments
import QubController.Arguments
import QubController.Pacing
import QubController.SharedShutdown
import QubController.Consent
import QubController.Census
import QubController.Chosen
import QubController.GuiPacing
import QubController.GuiArguments
import QubController.ConnectionReport
import QubController.SeqProgress
import QubController.SeqRegister
import QubController.Protocol
import QubController.CanInit
import QubController.CommandStream
import QubController.Cost
import QubController.Responsive
import QubController.ImuReports
import QubController.BusLoad
import QubController.OneThread
import QubController.HeldRounds
