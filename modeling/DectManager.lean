import DectManager.StopTimers
import DectManager.TransientModes
import DectManager.RadioLaws
import DectManager.Led
import DectManager.StartUpDelay
import DectManager.AutoMode
import DectManager.Writes
import DectManager.Pings
import DectManager.PingTimers
import DectManager.TableAccess
import DectManager.Identities
import DectManager.Refresh
import DectManager.RoundTrip
import DectManager.Allocation
import DectManager.Broadcast
import DectManager.DebugDaemon
import DectManager.System
import DectManager.OutgoingMails
import DectManager.StatusReport
import DectManager.Commands
import DectManager.TypedNumbers
import DectManager.AtohxMain
import DectManager.InfoElements
import DectManager.Rest
import DectManager.RequestOrder
import DectManager.Deployment
import DectManager.Replies
import DectManager.Service
import DectManager.StatusWire
import DectManager.Printed
import DectManager.CommandLine
import DectManager.NvsDump
