import QubController.Interaction
import QubController.SharedState

/-! # Calls of the programs

`Sys` lists what the programs of the repository ask of their surroundings: the PCAN driver,
the clocks, the slots and the flag of `SharedState`, threads, and the terminal.  A slot is
read or written by one call, as its seqlock makes it.  `rt_utils.hpp`'s time arithmetic
stands here too. -/

namespace Qub

open Interaction

/-! ### Time -/

structure Timespec where
  tvSec : ℤ
  tvNsec : ℤ
deriving DecidableEq

def nsPerSec : ℤ := 1000000000

/-- The carry loop of `timespec_add_ns`, which runs at most `n` times. -/
def timespecCarry : ℕ → Timespec → Timespec
  | 0, ts => ts
  | n + 1, ts =>
      if nsPerSec ≤ ts.tvNsec then timespecCarry n ⟨ts.tvSec + 1, ts.tvNsec - nsPerSec⟩ else ts

def timespecAddNs (ts : Timespec) (ns : ℤ) : Timespec :=
  let ts := { ts with tvNsec := ts.tvNsec + ns }
  timespecCarry (ts.tvNsec / nsPerSec).toNat ts

def timespecDiffNs (a b : Timespec) : ℤ :=
  (a.tvSec - b.tvSec) * nsPerSec + (a.tvNsec - b.tvNsec)

/-- `uint64_t(ts.tv_sec) * NS_PER_SEC + uint64_t(ts.tv_nsec)`. -/
def Timespec.toNs (ts : Timespec) : UInt64 :=
  UInt64.ofInt ts.tvSec * 1000000000 + UInt64.ofInt ts.tvNsec

/-- `CLOCK_MONOTONIC` at `t` nanoseconds. -/
def timespecOf (t : ℕ) : Timespec := ⟨(t / 1000000000 : ℕ), (t % 1000000000 : ℕ)⟩

theorem toNat_ofInt_natCast (n : ℕ) : (UInt64.ofInt n).toNat = n % 2 ^ 64 := by
  simp only [UInt64.ofInt, UInt64.toNat_ofNat']
  omega

theorem toNs_timespecOf {t : ℕ} (h : t < 2 ^ 64) : (timespecOf t).toNs.toNat = t := by
  unfold timespecOf Timespec.toNs
  rw [UInt64.toNat_add, UInt64.toNat_mul, toNat_ofInt_natCast, toNat_ofInt_natCast]
  simp only [UInt64.reduceToNat]
  omega

/-! ### The IMU's packets -/

/-- What the extractors that are registered with the `mip` SDK have filled in so far. -/
structure MipData where
  quat : Fin 4 → CFloat := fun _ => .rat 0
  quatValidFlags : UInt16 := 0
  gyro : Fin 3 → CFloat := fun _ => .rat 0
  gyroValidFlags : UInt16 := 0
  accel : Fin 3 → CFloat := fun _ => .rat 0
  accelValidFlags : UInt16 := 0
  filterState : UInt16 := 0

/-! ### Calls -/

inductive SysCall
  /-- `CAN_Initialize` in the constructor of `PcanChannel`. -/
  | canInitialize (ch : Fin numChannels)
  /-- `CAN_Write`. -/
  | canWrite (ch : Fin numChannels) (msg : TPCANMsg)
  /-- `CAN_Read`: the status and, when it is `PCAN_ERROR_OK`, the frame. -/
  | canRead (ch : Fin numChannels)
  /-- `clock_gettime(CLOCK_MONOTONIC)`. -/
  | clockGettime
  /-- `clock_nanosleep(CLOCK_MONOTONIC, TIMER_ABSTIME)`. -/
  | clockNanosleep (wake : Timespec)
  /-- `steady_clock::now()`, in nanoseconds. -/
  | steadyNow
  /-- `this_thread::sleep_for` or `sleep_until`, in nanoseconds. -/
  | sleepFor (ns : ℤ)
  | loadAction
  | storeChannel (ch : Fin numChannels) (state : ChannelState)
  | loadShutdown
  | storeShutdown (value : Bool)
  | pthreadCreate
  | pthreadJoin
  /-- `mip::Interface::update(0, false)`: did it succeed, and what the extractors hold then. -/
  | imuUpdate
  | storeImu (state : ImuState)
  /-- Is the standard input a terminal? -/
  | isatty
  /-- One line of the standard input. -/
  | getline
  /-- A line `DRY-RUN ch.. id data` on the standard output. -/
  | printDryRun (ch : Fin numChannels) (rawId : UInt32) (data : Fin 8 → UInt8)
  /-- `g_running`, which a signal handler may clear. -/
  | loadRunning
  /-- At most eight bytes of the terminal's input. -/
  | readStdin
  | render
  /-- Does the allocation made here throw? -/
  | allocThrows

@[reducible] def SysCall.Resp : SysCall → Type
  | canInitialize _ => TPCANStatus
  | canWrite _ _ => TPCANStatus
  | canRead _ => TPCANStatus × TPCANMsg
  | clockGettime => Timespec
  | clockNanosleep _ => Unit
  | steadyNow => ℤ
  | sleepFor _ => Unit
  | loadAction => ActionState
  | storeChannel _ _ => Unit
  | loadShutdown => Bool
  | storeShutdown _ => Unit
  | pthreadCreate => ℤ
  | pthreadJoin => Unit
  | imuUpdate => Bool × MipData
  | storeImu _ => Unit
  | isatty => Bool
  | getline => String
  | printDryRun _ _ _ => Unit
  | loadRunning => Bool
  | readStdin => List Char
  | render => Unit
  | allocThrows => Bool

/-- The interface of the repository's programs to their surroundings. -/
abbrev Sys : Interface := ⟨SysCall, SysCall.Resp⟩

/-- Programs over `Sys`. -/
abbrev SysM := Prog Sys

/-- Make a call and return its answer. -/
abbrev sys (c : SysCall) : SysM c.Resp := Prog.perform (I := Sys) c

abbrev canInitialize (ch : Fin numChannels) : SysM TPCANStatus := sys (.canInitialize ch)
abbrev canWrite (ch : Fin numChannels) (msg : TPCANMsg) : SysM TPCANStatus := sys (.canWrite ch msg)
abbrev canRead (ch : Fin numChannels) : SysM (TPCANStatus × TPCANMsg) := sys (.canRead ch)
abbrev clockGettime : SysM Timespec := sys .clockGettime
abbrev clockNanosleep (wake : Timespec) : SysM Unit := sys (.clockNanosleep wake)
abbrev steadyNow : SysM ℤ := sys .steadyNow
abbrev sleepFor (ns : ℤ) : SysM Unit := sys (.sleepFor ns)
abbrev loadAction : SysM ActionState := sys .loadAction
abbrev storeChannel (ch : Fin numChannels) (state : ChannelState) : SysM Unit :=
  sys (.storeChannel ch state)
abbrev loadShutdown : SysM Bool := sys .loadShutdown
abbrev storeShutdown (value : Bool) : SysM Unit := sys (.storeShutdown value)
abbrev pthreadCreate : SysM ℤ := sys .pthreadCreate
abbrev pthreadJoin : SysM Unit := sys .pthreadJoin
abbrev imuUpdate : SysM (Bool × MipData) := sys .imuUpdate
abbrev storeImu (state : ImuState) : SysM Unit := sys (.storeImu state)
abbrev isatty : SysM Bool := sys .isatty
abbrev getline : SysM String := sys .getline
abbrev printDryRun (ch : Fin numChannels) (rawId : UInt32) (data : Fin 8 → UInt8) : SysM Unit :=
  sys (.printDryRun ch rawId data)
abbrev loadRunning : SysM Bool := sys .loadRunning
abbrev readStdin : SysM (List Char) := sys .readStdin
abbrev render : SysM Unit := sys .render
abbrev allocThrows : SysM Bool := sys .allocThrows

section bind
variable {β : Type}

@[simp] theorem canInitialize_bind (ch : Fin numChannels) (f : TPCANStatus → SysM β) :
    (canInitialize ch >>= f) = .call (I := Sys) (.canInitialize ch) f := rfl
@[simp] theorem canWrite_bind (ch : Fin numChannels) (msg : TPCANMsg) (f : TPCANStatus → SysM β) :
    (canWrite ch msg >>= f) = .call (I := Sys) (.canWrite ch msg) f := rfl
@[simp] theorem canRead_bind (ch : Fin numChannels) (f : TPCANStatus × TPCANMsg → SysM β) :
    (canRead ch >>= f) = .call (I := Sys) (.canRead ch) f := rfl
@[simp] theorem clockGettime_bind (f : Timespec → SysM β) :
    (clockGettime >>= f) = .call (I := Sys) .clockGettime f := rfl
@[simp] theorem clockNanosleep_bind (wake : Timespec) (f : Unit → SysM β) :
    (clockNanosleep wake >>= f) = .call (I := Sys) (.clockNanosleep wake) f := rfl
@[simp] theorem steadyNow_bind (f : ℤ → SysM β) :
    (steadyNow >>= f) = .call (I := Sys) .steadyNow f := rfl
@[simp] theorem sleepFor_bind (ns : ℤ) (f : Unit → SysM β) :
    (sleepFor ns >>= f) = .call (I := Sys) (.sleepFor ns) f := rfl
@[simp] theorem loadAction_bind (f : ActionState → SysM β) :
    (loadAction >>= f) = .call (I := Sys) .loadAction f := rfl
@[simp] theorem storeChannel_bind (ch : Fin numChannels) (state : ChannelState)
    (f : Unit → SysM β) :
    (storeChannel ch state >>= f) = .call (I := Sys) (.storeChannel ch state) f := rfl
@[simp] theorem loadShutdown_bind (f : Bool → SysM β) :
    (loadShutdown >>= f) = .call (I := Sys) .loadShutdown f := rfl
@[simp] theorem storeShutdown_bind (value : Bool) (f : Unit → SysM β) :
    (storeShutdown value >>= f) = .call (I := Sys) (.storeShutdown value) f := rfl
@[simp] theorem pthreadCreate_bind (f : ℤ → SysM β) :
    (pthreadCreate >>= f) = .call (I := Sys) .pthreadCreate f := rfl
@[simp] theorem pthreadJoin_bind (f : Unit → SysM β) :
    (pthreadJoin >>= f) = .call (I := Sys) .pthreadJoin f := rfl
@[simp] theorem imuUpdate_bind (f : Bool × MipData → SysM β) :
    (imuUpdate >>= f) = .call (I := Sys) .imuUpdate f := rfl
@[simp] theorem storeImu_bind (state : ImuState) (f : Unit → SysM β) :
    (storeImu state >>= f) = .call (I := Sys) (.storeImu state) f := rfl
@[simp] theorem isatty_bind (f : Bool → SysM β) :
    (isatty >>= f) = .call (I := Sys) .isatty f := rfl
@[simp] theorem getline_bind (f : String → SysM β) :
    (getline >>= f) = .call (I := Sys) .getline f := rfl
@[simp] theorem printDryRun_bind (ch : Fin numChannels) (rawId : UInt32) (data : Fin 8 → UInt8)
    (f : Unit → SysM β) :
    (printDryRun ch rawId data >>= f) = .call (I := Sys) (.printDryRun ch rawId data) f := rfl
@[simp] theorem loadRunning_bind (f : Bool → SysM β) :
    (loadRunning >>= f) = .call (I := Sys) .loadRunning f := rfl
@[simp] theorem readStdin_bind (f : List Char → SysM β) :
    (readStdin >>= f) = .call (I := Sys) .readStdin f := rfl
@[simp] theorem render_bind (f : Unit → SysM β) :
    (render >>= f) = .call (I := Sys) .render f := rfl
@[simp] theorem allocThrows_bind (f : Bool → SysM β) :
    (allocThrows >>= f) = .call (I := Sys) .allocThrows f := rfl

end bind

/-- An answer to every call: writes succeed, queues are empty, and nothing else happens. -/
def SysCall.quiet : (c : SysCall) → c.Resp
  | canInitialize _ => pcanErrorOk
  | canWrite _ _ => pcanErrorOk
  | canRead _ => (pcanErrorQrcvEmpty, {})
  | clockGettime => ⟨1, 0⟩
  | clockNanosleep _ => ()
  | steadyNow => (0 : ℤ)
  | sleepFor _ => ()
  | loadAction => ({} : ActionState)
  | storeChannel _ _ => ()
  | loadShutdown => false
  | storeShutdown _ => ()
  | pthreadCreate => (0 : ℤ)
  | pthreadJoin => ()
  | imuUpdate => (true, ({} : MipData))
  | storeImu _ => ()
  | isatty => false
  | getline => ""
  | printDryRun _ _ _ => ()
  | loadRunning => true
  | readStdin => ([] : List Char)
  | render => ()
  | allocThrows => false

/-- `sleep_until_next_period`: the next wake-up time. -/
def sleepUntilNextPeriod (next : Timespec) (periodNs : ℤ) : SysM Timespec := do
  let next := timespecAddNs next periodNs
  clockNanosleep next
  return next

end Qub
