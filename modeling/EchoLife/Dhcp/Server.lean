import EchoLife.Dhcp.Leases

/-!
The DHCP server: how one message is answered. The second address pool is served
by swapping its settings and its lease table into the variables of the first
one for the time of a message, and back afterwards.
-/

namespace EchoLife.Dhcp

/-- The fields of `struct server_config_t` that decide about addresses; `router` is the option in
`options`. The range stops below the broadcast address, so that the search through it ends. -/
structure ServerConfig where
  server : Nat
  start : Nat
  stop : Nat
  stop_lt : stop < 2 ^ 32 - 1
  reservedAddr : List Nat
  router : Option Nat
  vendorid : Option (List UInt8)
  lease : Nat
  maxLeases : Nat
  declineTime : Nat
  offerTime : Nat
  minLease : Nat

inductive MessageType where
  | discover
  | request
  | decline
  | release
  deriving DecidableEq

structure Message where
  kind : MessageType
  chaddr : Chaddr
  ciaddr : Nat
  requested : Option Nat
  serverId : Option Nat
  leaseTime : Option Nat
  vendorid : Option (List UInt8)

inductive Reply where
  | offer (yiaddr leaseTime : Nat)
  | ack (yiaddr leaseTime : Nat)
  | nak
  deriving DecidableEq

/-- What the server meets: the uptime, the answers of `arpping` (`true` for a free address), the
address `read_interface` reads, and whether `send_packet` succeeds. -/
structure Env where
  now : Nat
  arpping : Nat → Bool
  readInterface : Option Nat
  sendOk : Bool

structure Server where
  config : ServerConfig
  config2 : ServerConfig
  leases : Nat → Lease
  leases2 : Nat → Lease
  enblSrv1 : Bool
  enblSrv2 : Bool

def maxReservedIp : Nat := 8

/-- `reservedIp`, which returns 0 for a reserved address. -/
def reservedIp (config : ServerConfig) (ip : Nat) : Bool :=
  !((config.reservedAddr.take maxReservedIp).takeWhile (· ≠ 0)).contains ip

variable (env : Env) (m : Message)

/-- `check_ip`, with the server address that `read_interface` leaves behind. -/
def checkIp (config : ServerConfig) (addr : Nat) : ServerConfig × Bool :=
  ({ config with server := env.readInterface.getD config.server }, !env.arpping addr)

/-- The lease of `addr` is not taken, or it expired and that is asked for. -/
def untaken (now maxLeases : Nat) (leases : Nat → Lease) (checkExpired : Bool)
    (addr : Nat) : Bool :=
  match findLeaseByYiaddr maxLeases leases addr with
  | none => true
  | some i => checkExpired && leaseExpired now (leases i)

def findAddressLoop (env : Env) (leases : Nat → Lease) (checkExpired : Bool) :
    Nat → Nat → ServerConfig → Nat × ServerConfig
  | 0, _, config => (0, config)
  | count + 1, addr, config =>
    if addr % 256 = 0 ∨ addr % 256 = 255 ∨ reservedIp config addr = false ∨
        addr = config.server ∨ addr = config.router.getD 0 then
      findAddressLoop env leases checkExpired count (addr + 1) config
    else if untaken env.now config.maxLeases leases checkExpired addr then
      let (config, taken) := checkIp env config addr
      if taken then
        findAddressLoop env leases checkExpired count (addr + 1) config
      else (addr, config)
    else findAddressLoop env leases checkExpired count (addr + 1) config

/-- `find_address`: 0 when there is none. -/
def findAddress (leases : Nat → Lease) (checkExpired : Bool)
    (config : ServerConfig) : Nat × ServerConfig :=
  findAddressLoop env leases checkExpired (config.stop + 1 - config.start) config.start config

def requestable (now : Nat) (config : ServerConfig) (leases : Nat → Lease) (req : Nat) : Bool :=
  config.start ≤ req && req ≤ config.stop && reservedIp config req &&
    untaken now config.maxLeases leases true req

def offerAddress (leases : Nat → Lease) (config : ServerConfig) : Nat × ServerConfig :=
  match findLeaseByChaddr config.maxLeases leases m.chaddr with
  | some i => ((leases i).yiaddr, config)
  | none =>
    let req := m.requested.filter (requestable env.now config leases)
    match req with
    | some req =>
      if req ≠ config.server ∧ req ≠ config.router.getD 0 then (req, config)
      else findAddress env leases false config
    | none =>
      let (yiaddr, config) := findAddress env leases false config
      if yiaddr = 0 then findAddress env leases true config
      else (yiaddr, config)

def offerLeaseTime (now : Nat) (m : Message) (leases : Nat → Lease) (config : ServerConfig) : Nat :=
  let remaining := match findLeaseByChaddr config.maxLeases leases m.chaddr with
    | none => config.lease
    | some i =>
      if leaseExpired now (leases i) then config.lease
      else (leases i).expires - now
  let leaseTime := match m.leaseTime with
    | none => remaining
    | some t => if config.lease < t then config.lease else t
  if leaseTime < config.minLease then config.lease else leaseTime

def sendOffer (srv : Server) : Server × Option Reply :=
  let leaseTime := offerLeaseTime env.now m srv.leases srv.config
  let (yiaddr, config) := offerAddress env m srv.leases srv.config
  let srv := { srv with config := config }
  if yiaddr = 0 then (srv, none)
  else
    let (leases, added) := addLease env.now config.maxLeases srv.leases m.chaddr
      yiaddr config.offerTime
    ({ srv with leases := leases },
      if added && env.sendOk then some (.offer yiaddr leaseTime) else none)

def ackLeaseTime (config : ServerConfig) : Nat :=
  match m.leaseTime with
  | none => config.lease
  | some t =>
    if config.lease < t then config.lease
    else if t < config.minLease then config.lease
    else t

/-- `sendACK`. It does not look whether the lease could be entered. -/
def sendACK (yiaddr : Nat) (srv : Server) : Server × Option Reply :=
  if env.sendOk then
    let leaseTime := ackLeaseTime m srv.config
    ({ srv with
        leases := (addLease env.now srv.config.maxLeases srv.leases m.chaddr yiaddr leaseTime).1 },
      some (.ack yiaddr leaseTime))
  else (srv, none)

def sendNAK (srv : Server) : Server × Option Reply :=
  (srv, if env.sendOk then some .nak else none)

/-- Where `lease` of the main loop points. -/
inductive LeaseRef where
  | one (i : Nat)
  | two (i : Nat)
  deriving DecidableEq

def Server.entry (srv : Server) : LeaseRef → Lease
  | .one i => srv.leases i
  | .two i => srv.leases2 i

def Server.setEntry (srv : Server) (lease : Lease) : LeaseRef → Server
  | .one i => { srv with leases := Function.update srv.leases i lease }
  | .two i => { srv with leases2 := Function.update srv.leases2 i lease }

def Server.findLease (srv : Server) (chaddr : Chaddr) : Option LeaseRef :=
  match findLeaseByChaddr srv.config.maxLeases srv.leases chaddr with
  | some i => some (.one i)
  | none =>
    (findLeaseByChaddr srv.config2.maxLeases srv.leases2 chaddr).map .two

def answerRequest (lease : Lease) (srv : Server) : Server × Option Reply :=
  match m.serverId with
  | some serverId =>
    if serverId = srv.config.server ∧ m.requested = some lease.yiaddr then
      sendACK env m lease.yiaddr srv
    else (srv, none)
  | none =>
    match m.requested with
    | some requested =>
      if lease.yiaddr = requested then sendACK env m lease.yiaddr srv
      else sendNAK env srv
    | none =>
      if lease.yiaddr = m.ciaddr then sendACK env m lease.yiaddr srv
      else sendNAK env srv

/-- The `switch` of the main loop. -/
def serve (srv : Server) : Server × Option Reply :=
  match m.kind, srv.findLease m.chaddr with
  | .discover, _ => sendOffer env m srv
  | .request, some ref => answerRequest env m (srv.entry ref) srv
  | .request, none => sendNAK env srv
  | .decline, some ref =>
    (srv.setEntry { srv.entry ref with
      chaddr := 0
      expires := (env.now + srv.config.declineTime) % 2 ^ 32 } ref, none)
  | .release, some ref =>
    (srv.setEntry { srv.entry ref with expires := env.now % 2 ^ 32 } ref, none)
  | .decline, none => (srv, none)
  | .release, none => (srv, none)

def strstr (needle : List UInt8) : List UInt8 → Nat → Option Nat
  | [], pos => if needle = [] then some pos else none
  | c :: rest, pos =>
    if needle.isPrefixOf (c :: rest) then some pos
    else strstr needle rest (pos + 1)

/-- One of the configured vendor classes, which `%` separates. Only the first place of the text is
looked at. -/
def isOption60Correct (configured vendorid : List UInt8) : Bool :=
  if 0 < vendorid.length ∧ vendorid.length < 128 then
    let szVendID := vendorid.takeWhile (· ≠ 0)
    match strstr szVendID configured 0 with
    | none => false
    | some pos =>
      let after := configured.getD (pos + szVendID.length) 0
      (after == 0x25 || after == 0) && (pos == 0 || configured.getD (pos - 1) 0 == 0x25)
  else false

def matchesSecond (srv : Server) (m : Message) : Bool :=
  match srv.config2.vendorid, m.vendorid with
  | some configured, some vendorid =>
    srv.enblSrv2 && isOption60Correct configured vendorid
  | _, _ => false

def Server.swapIn (srv : Server) : Server :=
  { srv with
    config := { srv.config with
      server := srv.config2.server
      start := srv.config2.start
      stop := srv.config2.stop
      stop_lt := srv.config2.stop_lt
      vendorid := srv.config2.vendorid
      router := srv.config2.router }
    leases := srv.leases2 }

def Server.swapBack (srv before : Server) : Server :=
  { srv with
    config2 := srv.config
    config := before.config
    leases2 := srv.leases
    leases := before.leases }

def handle (srv : Server) : Server × Option Reply :=
  if matchesSecond srv m then
    let (served, reply) := serve env m srv.swapIn
    (served.swapBack srv, reply)
  else if srv.enblSrv1 then serve env m srv
  else (srv, none)

end EchoLife.Dhcp
