import QubController.System

/-! # The IMU thread

`ImuDriver::poll_and_publish` and `ImuThread::run` of `imu_driver.cpp`.  The driver's state is
threaded through; the two loops of `run` take a bound on the number of their iterations. -/

namespace Qub

open Interaction

/-- `FilterMode::AHRS`. -/
def filterModeAhrs : UInt32 := 3

structure ImuDriver where
  data : MipData := {}
  connected : Bool := false
  updateCount : UInt64 := 0
  filterMode : UInt32 := 0

structure ImuThread where
  driver : ImuDriver
  loopCount : UInt64 := 0
  lastPeriodNs : ℤ := 0
  missedDeadlines : ℕ := 0

namespace ImuDriver

/-- The state that `poll_and_publish` stores: identity and zeros where the data are not valid. -/
def imuState (data : MipData) (now : UInt64) : ImuState :=
  let filterValid := filterModeAhrs ≤ data.filterState.toUInt32
  { quat := if filterValid ∧ data.quatValidFlags ≠ 0 then data.quat
      else ![.rat 1, .rat 0, .rat 0, .rat 0]
    gyro := if filterValid ∧ data.gyroValidFlags ≠ 0 then data.gyro else fun _ => .rat 0
    accel := if filterValid ∧ data.accelValidFlags ≠ 0 then data.accel else fun _ => .rat 0
    timestampNs := now }

/-- `poll_and_publish`; a connected driver has a device. -/
def pollAndPublish (d : ImuDriver) : SysM (Bool × ImuDriver) := do
  if !d.connected then
    return (false, d)
  else
    let (ok, data) ← imuUpdate
    if !ok then
      return (false, { d with data })
    else
      let ts ← clockGettime
      storeImu (imuState data ts.toNs)
      return (true, { d with
        data, updateCount := d.updateCount + 1, filterMode := data.filterState.toUInt32 })

end ImuDriver

namespace ImuThread

/-- The longest wait for AHRS mode, thirty seconds. -/
def ahrsTimeoutNs : ℤ := 30 * nsPerSec

/-- The loop that waits for AHRS mode. -/
def waitLoop (waitStart : ℤ) : ℕ → ImuDriver → SysM ImuDriver
  | 0, _ => .cut
  | n + 1, d => do
      if d.filterMode < filterModeAhrs then
        let (_, d) ← d.pollAndPublish
        let now ← steadyNow
        if ahrsTimeoutNs < now - waitStart then
          return d
        else
          sleepFor 10000000
          waitLoop waitStart n d
      else
        return d

/-- The loop at 200 Hz. -/
def mainLoop : ℕ → ImuThread → Timespec → Timespec → SysM ImuThread
  | 0, _, _, _ => .cut
  | n + 1, t, next, prevWake => do
      let (ok, driver) ← t.driver.pollAndPublish
      if !ok then
        return { t with driver }
      else
        let now ← clockGettime
        let period := timespecDiffNs now prevWake
        let next ← sleepUntilNextPeriod next imuPeriodNs
        mainLoop n
          { driver
            lastPeriodNs := period
            missedDeadlines :=
              if imuPeriodNs * 3 / 2 < period then t.missedDeadlines + 1 else t.missedDeadlines
            loopCount := t.loopCount + 1 }
          next now

/-- `run`, with at most `n` iterations of each loop. -/
def run (n : ℕ) (t : ImuThread) : SysM ImuThread := do
  let next ← clockGettime
  let waitStart ← steadyNow
  let driver ← waitLoop waitStart n t.driver
  mainLoop n { t with driver } next next

end ImuThread

end Qub
