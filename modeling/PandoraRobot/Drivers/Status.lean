/-! # Status codes of the drivers -/

namespace PandoraRobot.Drivers

/-- `RT_EINVAL`. -/
def rtEinval : Int := 10

/-- `HAL_StatusTypeDef`. -/
inductive HalStatus where
  | ok
  | error
  | busy
  | timeout
  deriving DecidableEq, Repr

end PandoraRobot.Drivers
