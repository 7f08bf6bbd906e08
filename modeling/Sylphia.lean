import Sylphia.Disk.Durability
import Sylphia.Fat.Append
import Sylphia.Fat.Converters
import Sylphia.Fat.CopyPaths
import Sylphia.Fat.Crash
import Sylphia.Fat.DataLoops
import Sylphia.Fat.Delete
import Sylphia.Fat.EnsureDirectory
import Sylphia.Fat.ReadDelete
import Sylphia.Fat.ReadFile
import Sylphia.Fat.SameSlot
import Sylphia.Fat.Transfers
import Sylphia.Memory.Initialize
import Sylphia.Memory.Ownership
import Sylphia.Nvme.BlockStore
import Sylphia.Paging.IdentityMap
import Sylphia.Pci.Configuration
import Sylphia.Screen.Numbers
import Sylphia.Shell.Typing
import Sylphia.Sys.FileCalls
import Sylphia.Sys.KernelApi
import Sylphia.Sys.KernelRange
import Sylphia.Sys.LoadMemory
import Sylphia.Sys.LoadersAgree
import Sylphia.Sys.LogLeftover
import Sylphia.Sys.StackLayout
import Sylphia.Sys.Write
import Sylphia.Task.CreateApp
import Sylphia.Task.ExitApp
import Sylphia.Task.SyscallHistory
import Sylphia.Task.Turns
import Sylphia.Usb.CommandRing
import Sylphia.Usb.ControlIn
import Sylphia.Usb.Descriptors
import Sylphia.Usb.MassStorage
import Sylphia.Usb.Resubmission
import Sylphia.Usb.TransferRing
