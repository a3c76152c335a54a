import Xv6.Bio.Lru
import Xv6.Bio.Space
import Xv6.Bio.Transparent
import Xv6.Fs.Holes
import Xv6.Fs.Info
import Xv6.Fs.Reclaim
import Xv6.Fs.Resolve
import Xv6.Fs.Short
import Xv6.Itable.Free
import Xv6.Log.Crash
import Xv6.Log.GroupCommit
import Xv6.Log.Reserve
import Xv6.Mkfs.Agree
import Xv6.Proc.Clean
import Xv6.Proc.Lifecycle
import Xv6.Proc.Pid
import Xv6.Sched.Exclude
import Xv6.Sched.Intr
import Xv6.Sched.Wakeup
import Xv6.Sh.Accept
import Xv6.Sys.Append
import Xv6.Umalloc.Client
import Xv6.User.Grep
import Xv6.User.Memmove
import Xv6.User.Printf
import Xv6.Vm.Fork
import Xv6.Vm.Ownership
import Xv6.Vm.Sbrk
import Xv6.Vm.SysExec
import Xv6.Wait.Killed
import Xv6.Wait.Peers
