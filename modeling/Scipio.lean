import Scipio.Time
import Scipio.Reactor
import Scipio.Timer.Basic
import Scipio.Timer.System
import Scipio.Timer.Registration
import Scipio.Timer.Expiry
import Scipio.Repeat.Loop
import Scipio.Repeat.Suspension
import Scipio.Repeat.Schedule
import Scipio.Once.Task
import Scipio.Once.Wakeup
import Scipio.Shared
