import JamVM.Alloc.ProcessList
import JamVM.Alloc.ThreadMarked
import JamVM.Thread.SuspendSafety
import JamVM.Lock.Notification
import JamVM.Lock.InterruptSafety
import JamVM.Lock.ThinLockWakeup
import JamVM.Class.InitSafety
import JamVM.Class.ResolveSafety
import JamVM.Class.InterfaceTable
import JamVM.Class.DefaultSelection
import JamVM.Class.Invoke
import JamVM.Class.Cast
import JamVM.Interp.StackCache
import JamVM.Alloc.MarkLeast
import JamVM.Alloc.AllocateTotal
import JamVM.Alloc.Header
import JamVM.Alloc.JavaStack
import JamVM.Amiga.NativeLib
import JamVM.Class.Annotations
import JamVM.Class.Bootstrap
import JamVM.Lock.ThinLockStranger
import JamVM.Thread.Attach
import JamVM.Thread.Timeout
import JamVM.Interp.Passes
import JamVM.Interp.Operands
import JamVM.Interp.Tables
import JamVM.Zip.Safety
import JamVM.Jni.GlobalRefs
import JamVM.Interp.GetfieldThis
import JamVM.Amiga.Process
import JamVM.Class.RuntimePackage
import JamVM.Alloc.GcMem
