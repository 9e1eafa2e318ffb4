import EchoLife.Base.Buckets
import EchoLife.Base.Run

/-!
Restriction of the devices that may send from the LAN to the WAN (`ip_acc_restric.c`): the allowed
and the current devices in two hash tables that link to the same counted objects, the timers of a
device, and the requests, packets and timeouts that change them. An event runs to its end before
the next one starts. `refcnt` is unbounded here; one event adds at most two to it. Built without
`CONFIG_BUG`, so that `add_timer` on a pending timer sets it again, and without
`CONFIG_ATP_BRIDGE_BIND`.
-/

namespace EchoLife.Access

open Buckets Function Run

abbrev Addr := BitVec 32

def accDevaddrBufMax : Nat := 16

variable (addr : Addr)

/-- `ACC_DEVADDR_HASH_KEY`; the index keeps the low four bits. -/
def accDevaddrHashKey : Fin accDevaddrBufMax :=
  Fin.ofNat 16 (addr ^^^ (addr >>> 8) ^^^ (addr >>> 16) ^^^ (addr >>> 24)).toNat

def accDevLiveAlways : Nat := 0

def accArpProbeTimesMax : Nat := 3

def accStaticIp : Nat := 0

def accDynamicIp : Nat := 1

def accDevtypePc : Nat := 1

def accDevtypeOther : Nat := 4

def accDevtypeButt : Nat := 5

def accModeDisable : Nat := 0

def accModeBytotal : Nat := 1

def accModeBytype : Nat := 2

def accWanBridge : Nat := 0

/-- `acc_device`. `devType` is the header that `dev_type` points to; `timer` and `probe` say that
the two timers are pending. -/
structure Device where
  addr : Addr
  liveTime : Nat
  ipFlg : Nat
  devType : Fin accDevtypeButt
  refcnt : Int
  dirty : Bool
  timer : Bool
  times : Nat
  probe : Bool
  deriving DecidableEq

/-- `acc_devtype_hdr`. The value of `type` comes from the configuration. -/
structure DevtypeHdr where
  enable : Nat
  type : Nat
  totalAllow : Nat
  totalCrnt : Nat
  deriving DecidableEq

/-- `acc_rstric_wantype`. -/
structure Wantype where
  wanName : String
  wanType : Nat
  deriving DecidableEq

abbrev Table := Fin accDevaddrBufMax → List Nat

/-- `g_AccRestric` and `g_allWan`, with the device objects by number of allocation. `freed` lists
the objects given to `kfree`, `twice` those whose probe timer was pending at `add_timer`. -/
structure State where
  inited : Bool
  enable : Nat
  totalAllow : Nat
  totalCrnt : Nat
  lanHost : Addr
  lanMask : Addr
  types : Fin accDevtypeButt → DevtypeHdr
  allowDevs : Table
  crntDevs : Table
  allWan : List Wantype
  devs : Nat → Device
  next : Nat
  freed : List Nat
  twice : List Nat

/-- What `kmalloc` leaves: every field that is read is set first, except `ip_flg` in
`ipacc_add2crnt`. -/
def Device.blank : Device where
  addr := 0
  liveTime := 0
  ipFlg := 0
  devType := ⟨0, by decide⟩
  refcnt := 0
  dirty := false
  timer := false
  times := 0
  probe := false

def ipaccInit : State where
  inited := true
  enable := accModeDisable
  totalAllow := 0
  totalCrnt := 0
  lanHost := 0
  lanMask := 0
  types := fun i => { enable := 0, type := i, totalAllow := 0, totalCrnt := 0 }
  allowDevs := fun _ => []
  crntDevs := fun _ => []
  allWan := []
  devs := fun _ => Device.blank
  next := 0
  freed := []
  twice := []

def State.setDev (s : State) (id : Nat) (d : Device) : State :=
  { s with devs := update s.devs id d }

def State.setType (s : State) (i : Fin accDevtypeButt) (hdr : DevtypeHdr) : State :=
  { s with types := update s.types i hdr }

/-! ### References -/

/-- `atomic_inc(&dev->refcnt)`. -/
def hold (id : Nat) (s : State) : State :=
  s.setDev id { s.devs id with refcnt := (s.devs id).refcnt + 1 }

def ipaccPutDev (id : Nat) (s : State) : State :=
  { s.setDev id { s.devs id with refcnt := (s.devs id).refcnt - 1 } with
    freed := if (s.devs id).dirty ∧ (s.devs id).refcnt - 1 = 0 then id :: s.freed
      else s.freed }

def findAllow (s : State) : Option Nat :=
  (s.allowDevs (accDevaddrHashKey addr)).find? fun id => (s.devs id).addr == addr

def findCrnt (s : State) : Option Nat :=
  if s.inited then
    (s.crntDevs (accDevaddrHashKey addr)).find? fun id => (s.devs id).addr == addr
  else none

def ipaccGetFromAllow (s : State) : Option (Nat × State) :=
  (findAllow addr s).map fun id => (id, hold id s)

def ipaccGetFromCrnt (s : State) : Option (Nat × State) :=
  (findCrnt addr s).map fun id => (id, hold id s)

/-! ### The current devices -/

def ipaccDevRetimer (id : Nat) (s : State) : State :=
  if (s.devs id).liveTime = accDevLiveAlways then s
  else s.setDev id { s.devs id with timer := true }

def Device.leave (d : Device) : Device :=
  if d.liveTime = accDevLiveAlways then { d with refcnt := d.refcnt - 1 }
  else { d with refcnt := d.refcnt - 1 - 1, timer := false }

def Device.stopProbe (d : Device) : Device :=
  if 0 < d.times then { d with probe := false, times := 0 } else d

/-- The section under `lock_crnt` in `ipacc_rm_from_crnt` and
`ipacc_clear_from_crnt`. -/
def unlinkCrnt (id : Nat) (s : State) : State :=
  { s.setDev id (s.devs id).leave with
    crntDevs := remove s.crntDevs (accDevaddrHashKey (s.devs id).addr) id
    totalCrnt := s.totalCrnt - 1
    types := update s.types (s.devs id).devType
      { s.types (s.devs id).devType with
        totalCrnt := (s.types (s.devs id).devType).totalCrnt - 1 } }

def dropCrnt (id : Nat) (s : State) : State :=
  let unlinked := unlinkCrnt id s
  ipaccPutDev id (unlinked.setDev id (unlinked.devs id).stopProbe)

def ipaccRmFromCrnt (s : State) : State × Bool :=
  match ipaccGetFromCrnt addr s with
  | none => (s, false)
  | some (id, held) => (dropCrnt id held, true)

/-- The scan of a list starts again after each removal. -/
def ipaccClearFromCrnt (type : Nat) (s : State) : State × Bool :=
  if accDevtypeButt ≤ type ∨ s.inited = false then (s, false)
  else
    (((entries s.crntDevs).filter fun id => (s.types (s.devs id).devType).type == type).foldl
      (fun now id => dropCrnt id (hold id now)) s, true)

def ipaccRmFromAllow (s : State) : State × Bool :=
  match ipaccGetFromAllow addr s with
  | none => (s, false)
  | some (id, held) =>
    let unlinked :=
      { held.setDev id
          { held.devs id with refcnt := (held.devs id).refcnt - 1, dirty := true } with
        allowDevs := remove held.allowDevs (accDevaddrHashKey (held.devs id).addr) id }
    (ipaccPutDev id unlinked, true)

/-- `acc_dev_desc`. -/
structure DevDesc where
  type : Nat
  addr : Addr
  liveTime : Nat
  deriving DecidableEq

/-- `mem` says that `kmalloc` succeeds. -/
def ipaccAdd2allow (desc : DevDesc) (ipFlg : Nat) (mem : Bool) (s : State) : State × Bool :=
  if htype : desc.type < accDevtypeButt then
    match ipaccGetFromAllow desc.addr s with
    | some (id, held) => (ipaccPutDev id held, false)
    | none =>
      if mem then
        ({ s.setDev s.next
            { Device.blank with
              addr := desc.addr
              liveTime := desc.liveTime
              ipFlg := ipFlg
              devType := ⟨desc.type, htype⟩
              refcnt := 1 } with
            allowDevs := insert s.allowDevs (accDevaddrHashKey desc.addr) s.next
            next := s.next + 1 }, true)
      else (s, false)
  else (s, false)

/-- The section under `lock_crnt` in `ipacc_add2crnt`. -/
def linkCrnt (id : Nat) (s : State) : State :=
  { s.setDev id (if (s.devs id).liveTime = accDevLiveAlways then
        { s.devs id with refcnt := (s.devs id).refcnt + 1 }
      else
        { s.devs id with refcnt := (s.devs id).refcnt + 1 + 1, timer := true }) with
    crntDevs := insert s.crntDevs (accDevaddrHashKey (s.devs id).addr) id
    totalCrnt := s.totalCrnt + 1
    types := update s.types (s.devs id).devType
      { s.types (s.devs id).devType with
        totalCrnt := (s.types (s.devs id).devType).totalCrnt + 1 } }

variable (saddr : Addr) (mem : Option Nat)

/-- `mem` is what `kmalloc` returns: nothing, or a block with some value for `ip_flg`. The
reference that `ipacc_get_from_allow` takes is kept. -/
def ipaccAdd2crnt (s : State) : State × Bool :=
  match ipaccGetFromCrnt addr s with
  | some (id, held) => (ipaccPutDev id held, false)
  | none =>
    match ipaccGetFromAllow addr s with
    | some (id, held) => (linkCrnt id held, true)
    | none =>
      match mem with
      | none => (s, false)
      | some junk =>
        (linkCrnt s.next
          { s.setDev s.next
              { Device.blank with
                addr := addr
                liveTime := accDevLiveAlways
                ipFlg := junk
                devType := ⟨accDevtypeOther, by decide⟩ } with
            next := s.next + 1 }, true)

/-! ### ARP probes -/

def ipaccArpProbeReply (s : State) : State :=
  match ipaccGetFromCrnt addr s with
  | none => s
  | some (id, held) =>
    if (held.devs id).times = 0 then ipaccPutDev id held
    else ipaccPutDev id (held.setDev id { held.devs id with times := 0, probe := false })

/-- `add_timer(&dev->arp_probe.timer)`. -/
def addProbeTimer (id : Nat) (s : State) : State :=
  { s.setDev id { s.devs id with probe := true } with
    twice := if (s.devs id).probe then id :: s.twice else s.twice }

/-- The loop of `ipacc_kick_idle_outoff` and `ipacc_lan_port_up_down` over the `wanted` current
devices. -/
def probeIdle (wanted : Fin accDevtypeButt → Bool) (s : State) : State :=
  (entries s.crntDevs).foldl (fun now id =>
      if wanted (now.devs id).devType ∧ (now.devs id).times = 0 then addProbeTimer id now
      else now) s

/-- Devices of the type, or all without one. The result is always `ACC_FALSE`. -/
def ipaccKickIdleOutoff (type : Option Nat) (s : State) : State × Bool :=
  match type with
  | none => (probeIdle (fun _ => true) s, false)
  | some type => (probeIdle (fun i => (s.types i).type == type) s, false)

def ipaccLanPortUpDown (s : State) : State :=
  probeIdle (fun _ => true) s

def ipaccDevTimeout (id : Nat) (s : State) : State :=
  if (s.devs id).timer then
    (ipaccRmFromCrnt (s.devs id).addr (s.setDev id { s.devs id with timer := false })).1
  else s

def ipaccArpProbeTimeout (id : Nat) (s : State) : State :=
  if (s.devs id).probe then
    if accArpProbeTimesMax < (s.devs id).times then
      let fired := s.setDev id { s.devs id with probe := false }
      let removed := (ipaccRmFromCrnt (s.devs id).addr fired).1
      if (s.devs id).ipFlg = accStaticIp then
        (ipaccRmFromAllow (s.devs id).addr removed).1
      else removed
    else s.setDev id { s.devs id with times := (s.devs id).times + 1 }
  else s

/-! ### The check of a packet -/

/-- The name of the device the packet leaves by and the source address, if it has an IP header.
`mem` is what `kmalloc` returns during the check. -/
structure Packet where
  wan : String
  iph : Option Addr
  mem : Option Nat
  deriving DecidableEq

def ipaccRstricFindwanbyname (name : String) (s : State) : Option Wantype :=
  s.allWan.find? fun w => w.wanName == name

def lanSource (s : State) (saddr : Addr) : Bool :=
  saddr &&& s.lanMask == s.lanHost &&& s.lanMask

def bridgeWan (s : State) (name : String) : Bool :=
  (ipaccRstricFindwanbyname name s).any fun w => w.wanType == accWanBridge

def checkBytotal (s : State) : State × Bool :=
  let kicked := ipaccKickIdleOutoff none s
  if kicked.2 = false ∧ kicked.1.totalAllow ≤ kicked.1.totalCrnt then (kicked.1, false)
  else ((ipaccAdd2crnt saddr mem kicked.1).1, true)

def fullByType (hdr : DevtypeHdr) : Bool :=
  hdr.enable == 1 && decide (hdr.totalAllow ≤ hdr.totalCrnt)

/-- The limit of the device's type; both branches of `ACC_MODE_BYTYPE` have it. -/
def admitByType (id : Nat) (saddr : Addr) (mem : Option Nat) (s : State) : State × Bool :=
  if fullByType (s.types (s.devs id).devType) then
    let kicked := ipaccKickIdleOutoff (some (s.types (s.devs id).devType).type) s
    if kicked.2 = false then (kicked.1, false)
    else ((ipaccAdd2crnt saddr mem kicked.1).1, true)
  else ((ipaccAdd2crnt saddr mem s).1, true)

/-- A registered device is put back after the check. Another one is registered as a computer with
a static address, and not put back. -/
def checkBytype (s : State) : State × Bool :=
  match ipaccGetFromAllow saddr s with
  | some (id, held) =>
    if (held.types (held.devs id).devType).type < accDevtypeOther then
      let checked := admitByType id saddr mem held
      (ipaccPutDev id checked.1, checked.2)
    else (ipaccPutDev id held, false)
  | none =>
    let added := (ipaccAdd2allow ⟨accDevtypePc, saddr, accDevLiveAlways⟩ accStaticIp mem.isSome s).1
    match ipaccGetFromAllow saddr added with
    | some (id, held) => admitByType id saddr mem held
    | none => (added, false)

def ipaccRestricCheck (p : Packet) (s : State) : State × Bool :=
  if s.inited = false then (s, true)
  else if s.enable = accModeDisable then (s, true)
  else
    match p.iph with
    | none => (s, true)
    | some saddr =>
      if lanSource s saddr = false then (s, true)
      else if bridgeWan s p.wan then (s, true)
      else
        match ipaccGetFromCrnt saddr s with
        | some (id, held) => (ipaccPutDev id (ipaccDevRetimer id held), true)
        | none =>
          if s.enable = accModeBytotal then checkBytotal saddr p.mem s
          else if s.enable = accModeBytype then checkBytype saddr p.mem s
          else (s, true)

/-! ### Requests -/

/-- `acc_dev_type`. -/
structure TypeDesc where
  enable : Nat
  type : Nat
  totalAllow : Nat
  deriving DecidableEq

/-- `acc_restric_desc`. -/
structure RestricDesc where
  enable : Nat
  totalAllow : Nat
  lanHost : Addr
  lanMask : Addr
  accDevtype : Fin accDevtypeButt → TypeDesc

/-- One turn of the loop in `ipacc_set_restric`. -/
def setDevtype (desc : RestricDesc) (s : State) (i : Fin accDevtypeButt) : State :=
  let named := s.setType i
    { s.types i with
      enable := (desc.accDevtype i).enable
      type := (desc.accDevtype i).type }
  let cleared :=
    if (desc.accDevtype i).totalAllow < (s.types i).totalAllow then
      (ipaccClearFromCrnt (desc.accDevtype i).type named).1
    else named
  cleared.setType i { cleared.types i with totalAllow := (desc.accDevtype i).totalAllow }

def ipaccSetRestric (desc : RestricDesc) (s : State) : State :=
  (List.finRange accDevtypeButt).foldl (setDevtype desc)
    { s with
      enable := desc.enable
      totalAllow := desc.totalAllow
      lanHost := desc.lanHost
      lanMask := desc.lanMask }

def ipaccRstricRegdev (desc : DevDesc) (mem : Bool) (s : State) : State :=
  if s.inited then (ipaccAdd2allow desc accDynamicIp mem s).1 else s

def ipaccRstricUnregdev (s : State) : State :=
  if s.inited then (ipaccRmFromCrnt addr (ipaccRmFromAllow addr s).1).1 else s

/-- `ipacc_rstric_updatewan` on the first entry with the name. -/
def ipaccRstricUpdatewan (wan : Wantype) : List Wantype → List Wantype
  | [] => []
  | w :: rest =>
    if w.wanName = wan.wanName then { w with wanType := wan.wanType } :: rest
    else w :: ipaccRstricUpdatewan wan rest

def ipaccRstricAddwan (wan : Wantype) (mem : Bool) (s : State) : State :=
  if (ipaccRstricFindwanbyname wan.wanName s).isSome then
    { s with allWan := ipaccRstricUpdatewan wan s.allWan }
  else if mem then { s with allWan := wan :: s.allWan }
  else s

def ipaccRstricDelwan (name : String) (s : State) : State :=
  { s with allWan := s.allWan.eraseP fun w => w.wanName == name }

/-- What can happen. A timeout names the device object of the timer. -/
inductive Event
  | packet (p : Packet)
  | regdev (desc : DevDesc) (mem : Bool)
  | unregdev (addr : Addr)
  | set (desc : RestricDesc)
  | addwan (wan : Wantype) (mem : Bool)
  | delwan (name : String)
  | restart
  | lanPortUpDown
  | arpReply (addr : Addr)
  | devTimeout (id : Nat)
  | probeTimeout (id : Nat)

def step : Event → State → State
  | .packet p, s => (ipaccRestricCheck p s).1
  | .regdev desc mem, s => ipaccRstricRegdev desc mem s
  | .unregdev addr, s => ipaccRstricUnregdev addr s
  | .set desc, s => ipaccSetRestric desc s
  | .addwan wan mem, s => ipaccRstricAddwan wan mem s
  | .delwan name, s => ipaccRstricDelwan name s
  | .restart, s => (ipaccKickIdleOutoff none s).1
  | .lanPortUpDown, s => ipaccLanPortUpDown s
  | .arpReply addr, s => ipaccArpProbeReply addr s
  | .devTimeout id, s => ipaccDevTimeout id s
  | .probeTimeout id, s => ipaccArpProbeTimeout id s

end EchoLife.Access
