import EchoLife.Base.Buffer
import EchoLife.Base.SoftState
import EchoLife.Board.Jiffies

/-!
IGMP snooping in the bridge: the table of group members, how IGMP frames change
it and how multicast frames are sent along it. Ports are referred to by number;
the table keeps the references, the ports keep their own state.
-/

namespace EchoLife.Bridge

abbrev Mac := BitVec 48

inductive PortState where
  | disabled
  | listening
  | learning
  | forwarding
  | blocking
  deriving DecidableEq

structure NetDevice where
  ifindex : Nat
  name : List UInt8
  deriving DecidableEq

structure Port where
  dev : NetDevice
  state : PortState
  deriving DecidableEq

/-- The ports behind the references, and the ports of the bridge in order. -/
structure NetBridge where
  port : Nat → Port
  portList : List Nat

/-- The device it came in on with that device's bridge port, the Ethernet header and the bytes
behind it. -/
structure Frame where
  dev : NetDevice
  brPort : Option Nat
  protocol : Nat
  hDest : Mac
  hSource : Mac
  data : Nat → UInt8

structure Entry where
  devDst : Option Nat
  grpMac : Mac
  hostMac : Mac
  time : Nat
  deriving DecidableEq

/-- `igmp_snooping_list`, newest entry first. -/
structure Table where
  entries : List Entry
  enable : Int

/-- The clock, of which `jiffies` shows the low word, and whether there is memory for an entry. -/
structure Env where
  jiffies : Nat
  kmallocOk : Bool

def igmpQueryTimeout : Nat := 150

variable (env : Env) (devPort : Nat) (grpMac hostMac : Mac)

/-- `jiffies + IGMP_QUERY_TIMEOUT*HZ`, an `unsigned long`. -/
def Env.expiry : Nat :=
  SoftState.word (env.jiffies + igmpQueryTimeout * hz)

def upnpMac : Mac := 0x01005e7ffffa

def ripv2Mac : Mac := 0x01005e000009

def broadcastMac : Mac := 0xffffffffffff

def ethPIp : Nat := 0x0800

def ipprotoIgmp : UInt8 := 2

/-- `*(dev->name + i)`. -/
def NetDevice.char (dev : NetDevice) (i : Nat) : UInt8 :=
  dev.name.getD i 0

/-- Not back to where the frame came from, not to a port that does not forward, and not from one
WAN interface (`'n'`) to another. -/
def shouldDeliver (p : Port) (skb : Frame) : Bool :=
  !(skb.dev.ifindex == p.dev.ifindex || p.state != .forwarding) &&
    !(p.dev.char 0 == 0x6E && skb.dev.char 0 == 0x6E)

/-- `should_eth_deliver`: broadcasts aside, not between the interfaces of one
Ethernet port. -/
def shouldEthDeliver (p : Port) (skb : Frame) : Bool :=
  skb.hDest == broadcastMac ||
    !(p.dev.char 0 == 0x65 && p.dev.char 1 == 0x74 && p.dev.char 2 == 0x68 &&
      skb.dev.char 0 == 0x65 && skb.dev.char 1 == 0x74 && skb.dev.char 2 == 0x68 &&
      skb.dev.char 3 == p.dev.char 3)

variable (br : NetBridge) (skb : Frame)

/-- `br_forward` and `br_deliver`: the port that a copy is handed to. -/
def brForward (dst : Nat) (skb : Frame) : List Nat :=
  if shouldDeliver (br.port dst) skb then [dst] else []

/-- `br_deliver_nonas` drops UDP multicast towards an interface `nas...`. -/
def deliverNonas (dst : Nat) : Bool :=
  !(skb.data 9 == 17 && (skb.hDest >>> 24) == 0x01005e &&
    (br.port dst).dev.char 0 == 0x6E && (br.port dst).dev.char 1 == 0x61 &&
    (br.port dst).dev.char 2 == 0x73)

/-- `br_flood_forward` and `br_flood_deliver`. -/
def brFlood (forward : Bool) : List Nat :=
  br.portList.filter (fun p => shouldDeliver (br.port p) skb &&
    shouldEthDeliver (br.port p) skb && (forward || deliverNonas br skb p))

def Entry.isFor (e : Entry) (devPort : Nat) (grpMac hostMac : Mac) : Bool :=
  e.grpMac == grpMac && e.hostMac == hostMac && e.devDst == some devPort

variable (entries : List Entry)

/-- `br_igmp_snooping_update`: the entries with new times, and whether there
were any. -/
def brIgmpSnoopingUpdate : List Entry × Bool :=
  (entries.map (fun e => if e.isFor devPort grpMac hostMac then
      { e with time := env.expiry } else e),
    entries.any (fun e => e.isFor devPort grpMac hostMac))

def brIgmpSnoopingAdd : List Entry :=
  if grpMac = upnpMac ∨ grpMac = ripv2Mac then entries
  else
    let (entries, updated) := brIgmpSnoopingUpdate env devPort grpMac hostMac entries
    if updated then entries
    else if env.kmallocOk then
      ⟨some devPort, grpMac, hostMac, env.expiry⟩ :: entries
    else entries

def brIgmpSnoopingDel : List Entry :=
  entries.eraseP (fun e => e.isFor devPort grpMac hostMac)

def brIgmpSnoopingEmpty : Bool :=
  !entries.any (fun e => e.grpMac == grpMac)

def groupMac (second third fourth : UInt8) : Mac :=
  BitVec.ofNat 48 (0x01005e000000 + (second.toNat % 128) * 65536 + third.toNat * 256 + fourth.toNat)

def applyGrec (grec : Nat) (entries : List Entry) : List Entry :=
  let nsrcs := (skb.data (grec + 2)).toNat * 256 + (skb.data (grec + 3)).toNat
  let mcMac := groupMac (skb.data (grec + 5)) (skb.data (grec + 6)) (skb.data (grec + 7))
  let grecType := skb.data grec
  if grecType = 2 ∨ grecType = 4 ∨ (nsrcs ≠ 0 ∧ grecType = 1) ∨
      (nsrcs ≠ 0 ∧ grecType = 3) ∨ grecType = 5 then
    brIgmpSnoopingAdd env devPort mcMac skb.hSource entries
  else if (grecType = 3 ∧ nsrcs = 0) ∨ (nsrcs = 0 ∧ grecType = 1) ∨ grecType = 6 then
    brIgmpSnoopingDel devPort mcMac skb.hSource entries
  else entries

def applyGrecs (env : Env) (devPort : Nat) (skb : Frame) : Nat → Nat → List Entry → List Entry
  | 0, _, entries => entries
  | ngrec + 1, grec, entries =>
    let nsrcs := (skb.data (grec + 2)).toNat * 256 + (skb.data (grec + 3)).toNat
    applyGrecs env devPort skb ngrec (grec + 8 + nsrcs * 4) (applyGrec env devPort skb grec entries)

/-- The entries that are left, the ports that get a copy, the result, and whether the frame itself
is freed. -/
structure Outcome where
  entries : List Entry
  copies : List Nat
  status : Int
  freed : Bool

def snoopIgmp (env : Env) (br : NetBridge) (skb : Frame) (forward : Bool) (devPort : Nat)
    (entries : List Entry) (dest : Mac) : Outcome :=
  let ipHeadLen := (skb.data 0).toNat % 16 * 4
  let type := skb.data ipHeadLen
  if type = 0x16 ∨ type = 0x12 then
    ⟨brIgmpSnoopingAdd env devPort dest skb.hSource entries, [], 0, false⟩
  else if type = 0x22 then
    let ngrec := (skb.data (ipHeadLen + 6)).toNat * 256 + (skb.data (ipHeadLen + 7)).toNat
    ⟨applyGrecs env devPort skb ngrec (ipHeadLen + 8) entries, [], 0, false⟩
  else if type = 0x17 then
    let mcMac := groupMac (skb.data (ipHeadLen + 5)) (skb.data (ipHeadLen + 6))
      (skb.data (ipHeadLen + 7))
    let entries := brIgmpSnoopingDel devPort mcMac skb.hSource entries
    ⟨entries, if brIgmpSnoopingEmpty mcMac entries then brFlood br skb forward else [], 1, false⟩
  else ⟨entries, [], 0, false⟩

/-- The ports that get a copy, in order, and whether an entry with a port matched. -/
def forwardLoop (br : NetBridge) (skb : Frame) (dest : Mac) : List Entry → List Nat × Bool
  | [] => ([], false)
  | e :: rest =>
    let (copies, matched) := forwardLoop br skb dest rest
    if e.grpMac = dest then
      match e.devDst with
      | none => (copies, matched)
      | some dst => (brForward br dst skb ++ copies, true)
    else (copies, matched)

/-- Copies go through `br_forward` for a frame that is forwarded and through `br_deliver` for one
of the host itself, which choose the ports alike. -/
def brIgmpSnoopingForward (table : Table) (skb : Frame) (dest : Mac) (forward : Bool) : Outcome :=
  if table.enable = 0 ∨ skb.protocol ≠ ethPIp then ⟨table.entries, [], 0, false⟩
  else if table.enable = 1 ∧ (dest = upnpMac ∨ dest = ripv2Mac) then
    ⟨table.entries, [], 0, false⟩
  else if skb.data 9 = ipprotoIgmp then
    match skb.brPort with
    | none => ⟨table.entries, [], 0, false⟩
    | some devPort => snoopIgmp env br skb forward devPort table.entries dest
  else
    let (copies, matched) := forwardLoop br skb dest table.entries
    let status : Int :=
      if matched ∨ (table.enable = 1 ∧ skb.hDest ≠ broadcastMac) then 1 else 0
    ⟨table.entries, copies, status, !forward && status ≠ 0⟩

def brIgmpSnoopingQueryTimeout : List Entry :=
  entries.filter (fun e => !SoftState.overdue (igmpQueryTimeout * hz)
    (SoftState.word env.jiffies) e.time)

end EchoLife.Bridge
