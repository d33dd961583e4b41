import Xv6.Semaphore.Counting
import Xv6.Semaphore.Entries
import Xv6.Semaphore.Arrival
import Xv6.Semaphore.LockOrder
import Xv6.Kernel.SleepWakeup
import Xv6.Log.Reservation
import Xv6.Kernel.Children
import Xv6.Kernel.Kill
import Xv6.Buffer.Capacity
import Xv6.Kernel.Sleeplock
import Xv6.Pipe.Wakeup
import Xv6.File.Lifetime
import Xv6.Kernel.RoundRobin
import Xv6.Kernel.Aging
import Xv6.Kernel.Callers
import Xv6.Shell.RoundTrip
import Xv6.Disk.Refinement
import Xv6.Fs.Resolution
import Xv6.File.Writing
import Xv6.Kernel.InterruptRuns
import Xv6.User.Grep
import Xv6.Console.Suggestions
import Xv6.Kernel.Mp
import Xv6.Memory.Growproc
import Xv6.User.Primes
