/-
  Kernel.Filesystem — descriptors, contexts and opened files
  (`kernel/filesystem.cc`, `kernel/filesystem_private.h`).

  Every process has a context, a pool of 16 descriptors. A descriptor is the handle
  of an entry of `opened_files`, which all contexts share and which counts its
  descriptors. The driver of its device opens the file before the entry is made and
  closes it when the last descriptor is gone.

  The driver for the file system's own directories is modelled with its pool. What
  other drivers answer, which device a path leads to and which node it names are
  parameters, and so is whether they fail an assertion on the way; the calls made to
  drivers are recorded.
-/
import Peos2.Support.Pool

namespace Peos2.Kernel

open Peos2.Lib Peos2.Support

/-! ## The state -/

/-- `struct opened_file`; a device is its index among the drivers. -/
structure OpenedFile where
  device : Nat
  deviceLocalHandle : Int
  flags : UInt32
  refCount : Int
  deriving DecidableEq

/-- `struct locally_opened_file` -/
structure LocallyOpenedFile where
  node : Nat
  position : Int
  deriving DecidableEq

/-- `struct context` -/
structure Context where
  descriptors : Pool Nat 16 0xFFFF

inductive DriverCall where
  | opened (device : Nat) (handle : Int)
  | closed (device : Nat) (handle : Int)
  deriving DecidableEq

/-- The global state of the file system; `drivers` is the state of the device
drivers, `calls` the successful opens and the closes they have seen. -/
structure Vfs (σ : Type) where
  contexts : Pool Context 64 0xFFFF
  openedFiles : Pool OpenedFile 64 0xFFFF
  locallyOpenedFiles : Pool LocallyOpenedFile 64 0xFFFF
  drivers : σ
  calls : List DriverCall

/-- What lies outside: the tree of nodes and the device drivers. -/
structure Devices (σ : Type) where
  /-- `find_first_driver`: the device of a path and the rest of the path. -/
  locate : String → Checked (Nat × String)
  /-- `vfs_lookup`: the node of a path. -/
  lookup : String → Checked (Option Nat)
  /-- Whether `driver->open` is set. -/
  hasOpen : Nat → Bool
  /-- `driver->open`. That of the terminal asserts that the rest of the path is empty, that of
  the ramfs has a pool of its own. -/
  openFile : σ → Nat → String → UInt32 → Checked (Int × σ)
  /-- Whether `driver->close` is set. -/
  hasClose : Nat → Bool
  /-- `driver->close`, of a file the driver has opened: there no driver has an assertion that
  can fail. -/
  closeFile : σ → Nat → Int → Int × σ

/-- The driver set by `vfs_init`, the first one. -/
def localDriver : Nat := 0

def ENOSUPPORT : Int := -100
def ENOENT : Int := -200
def ENOSPACE : Int := -203

/-- Conversion to `vfs_fd` and `opened_file_handle`, both `uint16_t`. -/
def toHandle (i : Int) : Nat := (i % 65536).toNat

namespace Vfs

variable {σ : Type} (dev : Devices σ)

/-! ## Drivers -/

/-- `int open_locally(vfs_device *, const char *path, uint32_t)` -/
def openLocally (s : Vfs σ) (path : String) : Checked (Int × Vfs σ) := do
  match ← dev.lookup path with
  | none => .ok (ENOENT, s)
  | some node => do
      let (handle, files) ← s.locallyOpenedFiles.emplaceAnywhere ⟨node, 0⟩
      .ok (handle, { s with
        locallyOpenedFiles := files
        calls := s.calls ++ [.opened localDriver handle] })

/-- `int close_locally(int handle)` -/
def closeLocally (s : Vfs σ) (handle : Int) : Checked (Int × Vfs σ) := do
  let files ← s.locallyOpenedFiles.erase (toHandle handle)
  .ok (0, { s with
    locallyOpenedFiles := files
    calls := s.calls ++ [.closed localDriver handle] })

/-- `device_node.driver->open(&device_node, driver->rest_path, flags)` -/
def driverOpen (s : Vfs σ) (device : Nat) (path : String) (flags : UInt32) :
    Checked (Int × Vfs σ) :=
  if device = localDriver then s.openLocally dev path
  else do
    let (handle, drivers) ← dev.openFile s.drivers device path flags
    .ok (handle, { s with
      drivers := drivers
      calls := if handle < 0 then s.calls else s.calls ++ [.opened device handle] })

/-- Whether closing a file of the device calls its driver. -/
def closes (device : Nat) : Bool := device = localDriver || dev.hasClose device

/-- `if (driver->close) retval = driver->close(handle)` -/
def driverClose (s : Vfs σ) (device : Nat) (handle : Int) : Checked (Int × Vfs σ) :=
  if device = localDriver then s.closeLocally handle
  else if dev.hasClose device then
    let (retval, drivers) := dev.closeFile s.drivers device handle
    .ok (retval, { s with
      drivers := drivers
      calls := s.calls ++ [.closed device handle] })
  else .ok (0, s)

/-! ## Opening, closing and duplicating -/

/-- The end of `vfs_close`: with the last reference the driver closes the file. -/
def release (s : Vfs σ) (fileHandle : Nat) (fileInfo : OpenedFile) : Checked (Int × Vfs σ) :=
  if fileInfo.refCount = 0 then do
    let (retval, s) ← s.driverClose dev fileInfo.device fileInfo.deviceLocalHandle
    let openedFiles ← s.openedFiles.erase fileHandle
    .ok (retval, { s with openedFiles := openedFiles })
  else .ok (0, s)

/-- `int vfs_close(vfs_context context_handle, vfs_fd local_fd)` -/
def close (s : Vfs σ) (contextHandle localFd : Nat) : Checked (Int × Vfs σ) := do
  let context ← s.contexts.get contextHandle
  let fileHandle ← context.descriptors.get localFd
  let fileInfo ← s.openedFiles.get fileHandle
  let descriptors ← context.descriptors.erase localFd
  let contexts ← s.contexts.set contextHandle ⟨descriptors⟩
  let fileInfo := { fileInfo with refCount := fileInfo.refCount - 1 }
  let openedFiles ← s.openedFiles.set fileHandle fileInfo
  { s with contexts := contexts, openedFiles := openedFiles }.release dev fileHandle fileInfo

/-- The end of `vfs_open`, with what the driver answered. -/
def addOpened (s : Vfs σ) (contextHandle device : Nat) (flags : UInt32) (handle : Int) :
    Checked (Except Int Nat × Vfs σ) :=
  if handle < 0 then .ok (.error handle, s)
  else do
    let (ofh, openedFiles) ← s.openedFiles.emplaceAnywhere ⟨device, handle, flags, 1⟩
    let context ← s.contexts.get contextHandle
    let (fd, descriptors) ← context.descriptors.emplaceAnywhere ofh
    let contexts ← s.contexts.set contextHandle ⟨descriptors⟩
    .ok (.ok fd, { s with contexts := contexts, openedFiles := openedFiles })

/-- `p2::res<vfs_fd> vfs_open(vfs_context context_handle, const char *filename,
uint32_t flags)`; `find_first_driver` falls back to the local driver, so there
always is one. -/
def openPath (s : Vfs σ) (contextHandle : Nat) (filename : String) (flags : UInt32) :
    Checked (Except Int Nat × Vfs σ) := do
  let _ ← s.contexts.get contextHandle
  let (device, restPath) ← dev.locate filename
  if device ≠ localDriver ∧ dev.hasOpen device = false then .ok (.error ENOSUPPORT, s)
  else do
    let (handle, s) ← s.driverOpen dev device restPath flags
    s.addOpened contextHandle device flags handle

def refersTo (context : Context) (fd file : Nat) : Checked Bool :=
  if context.descriptors.valid fd then do
    let other ← context.descriptors.get fd
    .ok (other == file)
  else .ok false

/-- The last two statements of `vfs_alias_fd`. -/
def link (s : Vfs σ) (srcContext srcFd dstContext dstFd : Nat) : Checked (Vfs σ) := do
  let source ← s.contexts.get srcContext
  let file ← source.descriptors.get srcFd
  let dest ← s.contexts.get dstContext
  let descriptors ← dest.descriptors.emplace dstFd file
  let contexts ← s.contexts.set dstContext ⟨descriptors⟩
  let source ← contexts.get srcContext
  let file ← source.descriptors.get srcFd
  let fileInfo ← s.openedFiles.get file
  let openedFiles ← s.openedFiles.set file { fileInfo with refCount := fileInfo.refCount + 1 }
  .ok { s with contexts := contexts, openedFiles := openedFiles }

/-- `int vfs_alias_fd(vfs_context src_ctx_handle, vfs_fd src_fd, vfs_context
dst_ctx_handle, vfs_fd dst_fd)` -/
def aliasFd (s : Vfs σ) (srcContext srcFd dstContext dstFd : Nat) : Checked (Int × Vfs σ) := do
  let source ← s.contexts.get srcContext
  let dest ← s.contexts.get dstContext
  if source.descriptors.valid srcFd = false then .ok (ENOENT, s)
  else do
    let file ← source.descriptors.get srcFd
    if ← refersTo dest dstFd file then .ok (0, s)
    else if dest.descriptors.valid dstFd then do
      let (_, s) ← s.close dev dstContext dstFd
      let s ← s.link srcContext srcFd dstContext dstFd
      .ok (0, s)
    else do
      let s ← s.link srcContext srcFd dstContext dstFd
      .ok (0, s)

/-! ## Contexts -/

/-- `for (int i = 0; i < context_.descriptors.watermark(); ++i) if
(context_.descriptors.valid(i)) body(i);`, from `i` on. -/
def forDescriptorsFrom (contextHandle : Nat) (body : Nat → Vfs σ → Checked (Vfs σ)) :
    Nat → Nat → Vfs σ → Checked (Vfs σ)
  | 0, _, _ => .error .outOfFuel
  | fuel + 1, i, s => do
      let context ← s.contexts.get contextHandle
      if i < context.descriptors.watermark then do
        let s ← if context.descriptors.valid i then body i s else .ok s
        forDescriptorsFrom contextHandle body fuel (i + 1) s
      else .ok s

/-- The loop; a context has 16 descriptors. -/
def forDescriptors (contextHandle : Nat) (body : Nat → Vfs σ → Checked (Vfs σ)) (s : Vfs σ) :
    Checked (Vfs σ) :=
  forDescriptorsFrom contextHandle body 17 0 s

/-- `p2::res<vfs_context> vfs_create_context()` -/
def createContext (s : Vfs σ) : Checked (Except Int Nat × Vfs σ) :=
  if s.contexts.full then .ok (.error ENOSPACE, s)
  else do
    let (handle, contexts) ← s.contexts.emplaceAnywhere ⟨Pool.blank⟩
    .ok (.ok handle, { s with contexts := contexts })

/-- `vfs_close(context_handle, i);` -/
def closeEach (contextHandle i : Nat) (s : Vfs σ) : Checked (Vfs σ) := do
  let (_, s) ← s.close dev contextHandle i
  .ok s

/-- `void vfs_destroy_context(vfs_context context_handle)` -/
def destroyContext (s : Vfs σ) (contextHandle : Nat) : Checked (Vfs σ) := do
  let s ← forDescriptors contextHandle (closeEach dev contextHandle) s
  let contexts ← s.contexts.erase contextHandle
  .ok { s with contexts := contexts }

/-- `if (!(file.flags & flags)) vfs_close(context_handle, i);` -/
def closeUnflagged (contextHandle : Nat) (flags : UInt32) (i : Nat) (s : Vfs σ) :
    Checked (Vfs σ) := do
  let context ← s.contexts.get contextHandle
  let fileHandle ← context.descriptors.get i
  let file ← s.openedFiles.get fileHandle
  if file.flags &&& flags = 0 then closeEach dev contextHandle i s else .ok s

/-- `void vfs_close_not_matching(vfs_context context_handle, uint32_t flags)` -/
def closeNotMatching (s : Vfs σ) (contextHandle : Nat) (flags : UInt32) : Checked (Vfs σ) :=
  forDescriptors contextHandle (closeUnflagged dev contextHandle flags) s

/-- `vfs_alias_fd(context_handle, i, new_context, i);` -/
def aliasEach (contextHandle newContext i : Nat) (s : Vfs σ) : Checked (Vfs σ) := do
  let (_, s) ← s.aliasFd dev contextHandle i newContext i
  .ok s

/-- `p2::res<vfs_context> vfs_fork_context(vfs_context context_handle)` -/
def forkContext (s : Vfs σ) (contextHandle : Nat) : Checked (Except Int Nat × Vfs σ) := do
  let (created, s) ← s.createContext
  match created with
  | .error e => .ok (.error e, s)
  | .ok newContext => do
      let s ← forDescriptors contextHandle (aliasEach dev contextHandle newContext) s
      .ok (.ok newContext, s)

/-! ## System calls, in the context of the caller -/

/-- `int syscall_open(const char *filename, uint32_t flags)`, for a valid
pointer. -/
def syscallOpen (s : Vfs σ) (contextHandle : Nat) (filename : String) (flags : UInt32) :
    Checked (Int × Vfs σ) := do
  let (result, s) ← s.openPath dev contextHandle filename flags
  match result with
  | .ok fd => .ok (fd, s)
  | .error e => do
      check (e < 0) "open_res.error() < 0"
      .ok (e, s)

/-- `int syscall_close(int fd)` -/
def syscallClose (s : Vfs σ) (contextHandle : Nat) (fd : Int) : Checked (Int × Vfs σ) :=
  s.close dev contextHandle (toHandle fd)

/-- `int syscall_dup2(int fd, int alias_fd)` -/
def syscallDup2 (s : Vfs σ) (contextHandle : Nat) (fd aliasFd : Int) : Checked (Int × Vfs σ) :=
  s.aliasFd dev contextHandle (toHandle fd) contextHandle (toHandle aliasFd)

end Vfs

end Peos2.Kernel
