import RTuinOS.Arrays
import RTuinOS.Types
import RTuinOS.Kernel
import RTuinOS.Context
import RTuinOS.Init
import RTuinOS.Release
import RTuinOS.Entries
import RTuinOS.Scheduler
import RTuinOS.Reachable
import RTuinOS.Timers
import RTuinOS.TimerInv
import RTuinOS.RoundRobin
import RTuinOS.ReturnCode
import RTuinOS.Frames
import RTuinOS.Switch
import RTuinOS.Machine
import RTuinOS.Simulation
import RTuinOS.Events
import RTuinOS.TaskView
import RTuinOS.Overrun
import RTuinOS.Cadence
