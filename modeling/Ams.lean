import Ams.Controller.Recursion
import Ams.Controller.Actions
import Ams.Tractive.Disable
import Ams.Tractive.Recovery
import Ams.Tractive.Timing
import Ams.Tractive.Latch
import Ams.Contactor.Automaton
import Ams.Dispatcher.Status
import Ams.Dispatcher.Shutdown
import Ams.Net.Dispatch
import Ams.Net.Commands
import Ams.Net.Reception
import Ams.Controller.Locks
import Ams.Tractive.Legality
import Ams.Contactor.Settling
import Ams.Tractive.Pairing
import Ams.Tractive.Notifications
import Ams.Lib.Packed
import Ams.Service.Messages
import Ams.Insulation.Reporting
import Ams.Net.Initialisation
import Ams.Dispatcher.Firmware
import Ams.Rtx.Mail
import Ams.Tractive.Callbacks
import Ams.Dispatcher.Telemetry
import Ams.Net.BitTiming
