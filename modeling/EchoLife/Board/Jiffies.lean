import Mathlib.Tactic

/-!
The clock of the kernel.
-/

namespace EchoLife

/-- `HZ`, the ticks of `jiffies` in a second. -/
def hz : Nat := 200

/-- `INITIAL_JIFFIES`: the counter wraps five minutes after the start. -/
def initialJiffies : Nat := 2 ^ 32 - 300 * hz

end EchoLife
