import EchoLife.Bridge.FrameFinish

/-!
The vendor class of DHCP packets that pass the bridge: how far `get_option60` reads.
-/

namespace EchoLife.Bridge

open Dhcp

section
variable {code : Int} {field : Nat → UInt8} {length : Nat}

end

variable {data : Nat → UInt8} {n : Nat}

end EchoLife.Bridge
