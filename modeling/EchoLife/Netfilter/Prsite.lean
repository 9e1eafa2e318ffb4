import EchoLife.Base.Buckets
import EchoLife.Base.Run
import EchoLife.Base.Text

/-!
Redirection of the hosts of the LAN to a portal site (`nf_nat_prsite.c`). A host has an entry in
one of two hash tables: of the hosts that a request names, or of those that a response was seen
for. A response to a new host is replaced by a redirection; the next one starts a timer that
traces how long the host is idle. An event runs to its end before the next one starts. A port
number is below the size of the arrays it indexes. Built without `CONFIG_BUG`, so that `add_timer`
on a pending timer sets it again.
-/

namespace EchoLife.Netfilter.Prsite

open Buckets Function Run Text

abbrev Addr := BitVec 32

abbrev affinedAddrBufMax : Nat := 16

instance : NeZero affinedAddrBufMax :=
  ⟨Nat.succ_ne_zero 15⟩

abbrev Port := Fin affinedAddrBufMax

def httpTraceCheckTimeout : Nat := 5

def httpTraceTimeout : Nat := 30

def httpProtoHeadBufMax : Nat := 16

/-- `AFFINED_ADDR_HASH_KEY`; the index keeps the low four bits. -/
def affinedAddrHashKey (addr : Addr) : Fin affinedAddrBufMax :=
  Fin.ofNat 16 (addr ^^^ (addr >>> 8) ^^^ (addr >>> 16) ^^^ (addr >>> 24)).toNat

inductive AddrState where
  | init
  | unforce
  | forcing
  | forced
  deriving DecidableEq

/-- `affined_addr`. `timer` says that the trace timer is pending; `forceTo` is the number
of the site. -/
structure AffinedAddr where
  refcnt : Int
  dirty : Bool
  state : AddrState
  addr : Addr
  mask : Addr
  portNo : Port
  idle : Nat
  timer : Bool
  forceTo : Option Nat
  deriving DecidableEq

/-- `power_site`. A URL is what stands before the terminator. -/
structure PowerSite where
  refcnt : Int
  dirty : Bool
  url : List UInt8
  deriving DecidableEq

/-- `g_allSite`, with the site objects under the numbers they were allocated with. -/
structure Sites where
  all : List Nat
  objs : Nat → PowerSite
  next : Nat

/-- `prsite_url_info`, as far as it is read. -/
structure PrsiteUrlInfo where
  lEnable : Bool
  ulLanAddr : Addr
  ulLanMask : Addr
  acComputerUrl : List UInt8
  deriving DecidableEq

/-- `affined_bind`. The mask of a request is replaced by that of the LAN. -/
structure AffinedBind where
  addr : Addr
  url : List UInt8
  deriving DecidableEq

abbrev Table := Fin affinedAddrBufMax → List Nat

/-- The global variables, with the host entries by number of allocation. A port without an entry
has no hash key. `freed` lists the entries given to `kfree`, `twice` those whose timer was pending
at `add_timer`, `late` those whose timer went off after they were freed. -/
structure State where
  sites : Sites
  allAddr : Table
  stAllStaticAddr : Table
  addrs : Nat → AffinedAddr
  next : Nat
  portHashkey : Port → Option (Fin affinedAddrBufMax)
  lStaticPortHashKey : Port → Option (Fin affinedAddrBufMax)
  lPortToAddr : Port → Addr
  stPrsiteUrlInfo : PrsiteUrlInfo
  freed : List Nat
  twice : List Nat
  late : List Nat

def AffinedAddr.blank : AffinedAddr where
  refcnt := 0
  dirty := false
  state := .init
  addr := 0
  mask := 0
  portNo := 0
  idle := 0
  timer := false
  forceTo := none

/-- The state after `nf_nat_http_init`; the later calls of `http_nat_comm_init` do
nothing. -/
def nfNatHttpInit : State where
  sites := { all := [], objs := fun _ => ⟨0, false, []⟩, next := 0 }
  allAddr := fun _ => []
  stAllStaticAddr := fun _ => []
  addrs := fun _ => AffinedAddr.blank
  next := 0
  portHashkey := fun _ => none
  lStaticPortHashKey := fun _ => none
  lPortToAddr := fun _ => 0
  stPrsiteUrlInfo := ⟨false, 0, 0, []⟩
  freed := []
  twice := []
  late := []

def State.setAddr (s : State) (id : Nat) (a : AffinedAddr) : State :=
  { s with addrs := update s.addrs id a }

variable (url : List UInt8) (sites : Sites)

def Sites.set (site : Nat) (psite : PowerSite) : Sites :=
  { sites with objs := update sites.objs site psite }

/-! ### Sites -/

/-- `atomic_inc(&psite->refcnt)`. -/
def holdSite (site : Nat) (sites : Sites) : Sites :=
  sites.set site { sites.objs site with refcnt := (sites.objs site).refcnt + 1 }

def findSite : Option Nat :=
  sites.all.find? fun site => (sites.objs site).url == url

def httpGetPowerSite : Option (Nat × Sites) :=
  (findSite url sites).map fun site => (site, holdSite site sites)

def httpPutPowerSite (site : Nat) (sites : Sites) : Sites :=
  let left := sites.set site
    { sites.objs site with refcnt := (sites.objs site).refcnt - 1 }
  if (sites.objs site).dirty ∧ (sites.objs site).refcnt - 1 = 0 then
    { left with all := left.all.erase site }
  else left

/-- The site of the URL, a new one if there is none; `mem` says that `kmalloc`
succeeds. -/
def siteFor (mem : Bool) (sites : Sites) : Option (Nat × Sites) :=
  match httpGetPowerSite url sites with
  | some found => some found
  | none =>
    if mem then
      some (sites.next, holdSite sites.next
        { sites.set sites.next ⟨0, false, url⟩ with
          all := sites.next :: sites.all
          next := sites.next + 1 })
    else none

/-! ### Host entries -/

/-- `atomic_inc(&paddr->refcnt)`. -/
def hold (id : Nat) (s : State) : State :=
  s.setAddr id { s.addrs id with refcnt := (s.addrs id).refcnt + 1 }

def findIn (table : Table) (addr : Addr) (s : State) : Option Nat :=
  (table (affinedAddrHashKey addr)).find? fun id => (s.addrs id).addr == addr

variable (link : Nat → State → State) (addr mask : Addr)

def httpGetAffinedAddr (s : State) : Option (Nat × State) :=
  (findIn s.allAddr addr s).map fun id => (id, hold id s)

def httpGetAffinedAddrStatic (s : State) : Option (Nat × State) :=
  (findIn s.stAllStaticAddr addr s).map fun id => (id, hold id s)

def findByPort (hashkey : Port → Option (Fin affinedAddrBufMax)) (table : Table)
    (port : Port) (s : State) : Option Nat :=
  (hashkey port).bind fun key => (table key).find? fun id => (s.addrs id).portNo == port

variable (port : Port)

def httpGetAffinedAddrByPort (s : State) : Option (Nat × State) :=
  (findByPort s.portHashkey s.allAddr port s).map fun id => (id, hold id s)

def httpGetAffinedAddrByPortStatic (s : State) : Option (Nat × State) :=
  (findByPort s.lStaticPortHashKey s.stAllStaticAddr port s).map fun id => (id, hold id s)

def httpGetAffinedStaticPort (addr : Addr) (s : State) : Option Nat :=
  (entries s.stAllStaticAddr).find? fun id =>
    (s.addrs id).addr == addr && (s.addrs id).portNo == port

/-- The entry when it is freed: only the timer of a host in the forced state is
deleted. -/
def AffinedAddr.retire (a : AffinedAddr) : AffinedAddr :=
  if a.state = .forced then { a with forceTo := none, timer := false, state := .init }
  else { a with forceTo := none }

/-- The section of `http_put_affined_addr` that frees the entry. -/
def freeAddr (id : Nat) (s : State) : State :=
  { s.setAddr id (s.addrs id).retire with
    sites := match (s.addrs id).forceTo with
      | some site => httpPutPowerSite site s.sites
      | none => s.sites
    allAddr := unlink s.allAddr id
    stAllStaticAddr := unlink s.stAllStaticAddr id
    freed := id :: s.freed }

def httpPutAffinedAddr (id : Nat) (s : State) : State :=
  let left := s.setAddr id { s.addrs id with refcnt := (s.addrs id).refcnt - 1 }
  if (s.addrs id).dirty ∧ (s.addrs id).refcnt - 1 = 0 then freeAddr id left else left

/-- The last part of both functions that add a host: the entry for a site that is held,
linked into a table and put back, and the site put back. -/
def allocAddr (site : Nat) (s : State) : State :=
  let linked := link s.next
    { s.setAddr s.next
        { AffinedAddr.blank with
          refcnt := 1
          addr := addr
          mask := mask
          forceTo := some site } with
      sites := holdSite site s.sites
      next := s.next + 1 }
  let left := httpPutAffinedAddr s.next linked
  { left with sites := httpPutPowerSite site left.sites }

def httpAddAffinedAddr (id : Nat) (s : State) : State :=
  { s with allAddr := insert s.allAddr (affinedAddrHashKey (s.addrs id).addr) id }

def httpAddAffinedAddrStatic (id : Nat) (s : State) : State :=
  { s with
    stAllStaticAddr := insert s.stAllStaticAddr (affinedAddrHashKey (s.addrs id).addr) id }

structure Memory where
  site : Bool
  addr : Bool
  deriving DecidableEq

def addHost (url : List UInt8)
    (mem : Memory) (s : State) : State × Nat :=
  match siteFor url mem.site s.sites with
  | none => (s, 1)
  | some (site, held) =>
    if mem.addr then (allocAddr link addr mask site { s with sites := held }, 0)
    else ({ s with sites := httpPutPowerSite site held }, 1)

def prsiteAddStatic (daddr : Addr) (mem : Memory) (s : State) : State × Nat :=
  addHost httpAddAffinedAddrStatic daddr s.stPrsiteUrlInfo.ulLanMask
    s.stPrsiteUrlInfo.acComputerUrl mem s

/-! ### Requests -/

def prsiteInitInfo (info : PrsiteUrlInfo) (s : State) : State :=
  { s with stPrsiteUrlInfo := info }

def prsiteAdd (bind : AffinedBind) (mem : Memory) (s : State) : State × Nat :=
  match httpGetAffinedAddr bind.addr s with
  | some (id, held) =>
    (httpPutAffinedAddr id (held.setAddr id { held.addrs id with state := .init }), 1)
  | none => addHost httpAddAffinedAddr bind.addr s.stPrsiteUrlInfo.ulLanMask bind.url mem s

def delAddr (s : State) : State :=
  match httpGetAffinedAddr addr s with
  | some (id, held) =>
    httpPutAffinedAddr id (held.setAddr id { held.addrs id with dirty := true })
  | none => s

def delSite : Sites :=
  match httpGetPowerSite url sites with
  | some (site, held) =>
    httpPutPowerSite site (held.set site { held.objs site with dirty := true })
  | none => sites

def delBoth (url : List UInt8) (s : State) : State :=
  match httpGetAffinedAddr addr s with
  | none => { s with sites := delSite url s.sites }
  | some (id, held) =>
    let marked := held.setAddr id { held.addrs id with dirty := true }
    match httpGetPowerSite url marked.sites with
    | none => httpPutAffinedAddr id marked
    | some (site, sites) =>
      let left := httpPutAffinedAddr id
        { marked with sites := sites.set site { sites.objs site with dirty := true } }
      { left with sites := httpPutPowerSite site left.sites }

def prsiteDel (bind : AffinedBind) (s : State) : State × Nat :=
  if bind.addr ≠ 0 ∧ bind.url = [] then (delAddr bind.addr s, 0)
  else if bind.addr = 0 ∧ bind.url ≠ [] then
    ({ s with sites := delSite bind.url s.sites }, 0)
  else if bind.addr ≠ 0 ∧ bind.url ≠ [] then (delBoth bind.addr bind.url s, 0)
  else (s, 1)

/-- The entry is freed whoever holds it: marked, with the count set to one, and put. -/
def discard (id : Nat) (s : State) : State :=
  httpPutAffinedAddr id (s.setAddr id { s.addrs id with dirty := true, refcnt := 1 })

def prsiteModi (s : State) : State × Nat :=
  let dynamic := match httpGetAffinedAddrByPort port s with
    | some (id, held) => (discard id held, 0)
    | none => (s, 1)
  match httpGetAffinedAddrByPortStatic port dynamic.1 with
  | some (id, held) => (discard id held, 0)
  | none => dynamic

/-! ### Responses -/

/-- The addresses, the mark and the first bytes behind the TCP header, if there are as many as the
buffer takes. `written` says that `http_set_appdata` succeeds, `mem` what `kmalloc` does. -/
structure Packet where
  saddr : Addr
  daddr : Addr
  mark : BitVec 32
  head : Option (List UInt8)
  written : Bool
  mem : Memory

/-- `g_response`. -/
inductive HttpRspns where
  | ok
  | redirPmnt
  | redirTemp
  | redirUnmodified

def HttpRspns.code : HttpRspns → BitVec 32
  | .ok => 200
  | .redirPmnt => 301
  | .redirTemp => 302
  | .redirUnmodified => 304

def HttpRspns.desc : HttpRspns → List UInt8
  | .ok => bytes "OK"
  | .redirPmnt => bytes "Moved Permanently"
  | .redirTemp => bytes "Redirection"
  | .redirUnmodified => bytes "Not Modified"

def httpProtoName : List UInt8 := bytes "HTTP"

/-- The copied bytes up to a terminator. Behind the buffer of `http_get_response_code`
there is taken to be one. -/
def httpGetHttphead (p : Packet) : Option (List UInt8) :=
  p.head.map fun head => (head.take httpProtoHeadBufMax).takeWhile (· ≠ 0)

/-- `strchr(text, ' ')`: what stands before the blank and behind it. -/
def splitBlank (text : List UInt8) : Option (List UInt8 × List UInt8) :=
  match text.dropWhile (· ≠ 32) with
  | [] => none
  | _ :: rest => some (text.takeWhile (· ≠ 32), rest)

def httpIsdigit (text : List UInt8) : Bool :=
  !text.isEmpty && text.all fun c => 0x30 ≤ c && c ≤ 0x39

/-- From the last digit on, in the arithmetic of `int`. -/
def httpAtoi (text : List UInt8) : BitVec 32 :=
  (text.reverse.foldl
    (fun now c => (now.1 * 10, now.2 + BitVec.ofNat 32 (c.toNat - 0x30) * now.1)) (1, 0)).2

def httpGetResponseCode (p : Packet) : Option (BitVec 32) := do
  let head ← httpGetHttphead p
  if head.take httpProtoName.length ≠ httpProtoName then none
  let (_, code) ← splitBlank head
  let (digits, _) ← splitBlank code
  if httpIsdigit digits then some (httpAtoi digits) else none

def strstr (pattern : List UInt8) (text : List UInt8) : Option (List UInt8) :=
  text.tails.find? fun rest => rest.take pattern.length == pattern

def httpChangetoNewurl (p : Packet) (url : List UInt8) : Option (List UInt8) := do
  let head ← httpGetHttphead p
  let found ← strstr httpProtoName head
  let (version, _) ← splitBlank found
  if p.written then
    some (version ++ bytes " " ++ Decimal.decimal HttpRspns.redirTemp.code.toNat ++
      bytes " " ++ HttpRspns.redirTemp.desc ++
      bytes "\r\nContent-length: 0\r\nLocation: " ++ url ++
      bytes "\r\nConnection: Close\r\n\r\n")
  else none

/-- `add_timer(&lan_addr->timer)`. -/
def addTimer (id : Nat) (s : State) : State :=
  { s.setAddr id { s.addrs id with timer := true } with
    twice := if (s.addrs id).timer then id :: s.twice else s.twice }

def httpTracecheckTimeout (id : Nat) (s : State) : State :=
  if (s.addrs id).timer then
    let fired := { s with late := if id ∈ s.freed then id :: s.late else s.late }
    if httpTraceTimeout < (s.addrs id).idle then
      fired.setAddr id { s.addrs id with timer := false, state := .unforce }
    else
      fired.setAddr id { s.addrs id with idle := (s.addrs id).idle + httpTraceCheckTimeout }
  else s

/-- The entry of the host that a response goes to, held. A host of the LAN without one
gets one. -/
def lanAddrOf (p : Packet) (s : State) : State × Option Nat :=
  match httpGetAffinedAddr p.daddr s with
  | some (id, held) => (held, some id)
  | none =>
    if p.saddr = s.stPrsiteUrlInfo.ulLanAddr ∨ p.daddr = s.stPrsiteUrlInfo.ulLanAddr then
      (s, none)
    else if p.daddr &&& s.stPrsiteUrlInfo.ulLanMask =
        s.stPrsiteUrlInfo.ulLanAddr &&& s.stPrsiteUrlInfo.ulLanMask then
      match httpGetAffinedAddrStatic p.daddr s with
      | some (id, held) => (held, some id)
      | none =>
        let added := prsiteAddStatic p.daddr p.mem s
        if added.2 ≠ 0 then (added.1, none)
        else
          match httpGetAffinedAddrStatic p.daddr added.1 with
          | some (id, held) => (held, some id)
          | none => (added.1, none)
    else (s, none)

def traceResponse (id : Nat) (p : Packet) (s : State) : State × Option (List UInt8) :=
  match (s.addrs id).state with
  | .init | .unforce =>
    match httpChangetoNewurl p
        (((s.addrs id).forceTo.map fun site => (s.sites.objs site).url).getD []) with
    | some payload => (s.setAddr id { s.addrs id with state := .forcing }, some payload)
    | none => (s, none)
  | .forcing =>
    (addTimer id (s.setAddr id { s.addrs id with idle := 0, state := .forced }), none)
  | .forced => (s.setAddr id { s.addrs id with idle := 0 }, none)

def httpDoRedirect (p : Packet) (s : State) : State × Option (List UInt8) :=
  match lanAddrOf p s with
  | (s, none) => (s, none)
  | (held, some id) =>
    if p.saddr &&& (held.addrs id).mask = (held.addrs id).addr &&& (held.addrs id).mask then
      (httpPutAffinedAddr id held, none)
    else
      let traced := traceResponse id p held
      (httpPutAffinedAddr id traced.1, traced.2)

/-! ### Requests of a host -/

def markLanMask : BitVec 32 := 0x00F00000

def lan1Mark : BitVec 32 := 0x00100000

def lan2Mark : BitVec 32 := 0x00200000

def lan3Mark : BitVec 32 := 0x00300000

def lan4Mark : BitVec 32 := 0x00400000

def lanPort (mark : BitVec 32) (portNo : Port) : Port :=
  if mark &&& markLanMask = lan1Mark then 5
  else if mark &&& markLanMask = lan2Mark then 4
  else if mark &&& markLanMask = lan3Mark then 3
  else if mark &&& markLanMask = lan4Mark then 2
  else portNo

def notePort (id : Nat) (source : Addr) (mark : BitVec 32) (s : State) : State :=
  if (s.addrs id).state = .forcing ∧ mark ≠ 0 then
    { s.setAddr id { s.addrs id with portNo := lanPort mark (s.addrs id).portNo } with
      portHashkey := update s.portHashkey (lanPort mark (s.addrs id).portNo)
        (some (affinedAddrHashKey source)) }
  else s

def replaceHost (source : Addr) (s : State) : State :=
  if s.lPortToAddr port ≠ 0 ∧ s.lPortToAddr port ≠ source then
    match httpGetAffinedStaticPort port (s.lPortToAddr port) s with
    | some id => discard id s
    | none => s
  else s

def noteStaticPort (id : Nat) (source : Addr) (mark : BitVec 32) (s : State) : State :=
  if (s.addrs id).state = .forcing ∧ mark ≠ 0 then
    let port := lanPort mark (s.addrs id).portNo
    let replaced := replaceHost port source (s.setAddr id { s.addrs id with portNo := port })
    { replaced with
      lStaticPortHashKey := update replaced.lStaticPortHashKey port
        (some (affinedAddrHashKey source))
      lPortToAddr := update replaced.lPortToAddr port source }
  else s

inductive Dir where
  | original
  | reply
  deriving DecidableEq

/-- `source` is the source address of the connection's original direction. -/
def httpHelp (dir : Dir) (source : Addr) (p : Packet) (s : State) : State × Option (List UInt8) :=
  if s.stPrsiteUrlInfo.lEnable = false then (s, none)
  else
    match dir with
    | .reply =>
      match httpGetResponseCode p with
      | some code =>
        if code = HttpRspns.ok.code ∨ code = HttpRspns.redirUnmodified.code then
          httpDoRedirect p s
        else (s, none)
      | none => (s, none)
    | .original =>
      match httpGetAffinedAddr source s with
      | some (id, held) => (httpPutAffinedAddr id (notePort id source p.mark held), none)
      | none =>
        match httpGetAffinedAddrStatic source s with
        | some (id, held) =>
          (httpPutAffinedAddr id (noteStaticPort id source p.mark held), none)
        | none => (s, none)

/-! ### Runs -/

inductive Event where
  | initInfo (info : PrsiteUrlInfo)
  | add (bind : AffinedBind) (mem : Memory)
  | del (bind : AffinedBind)
  | modi (port : Port)
  | help (dir : Dir) (source : Addr) (p : Packet)
  | timeout (id : Nat)

def step : Event → State → State
  | .initInfo info, s => prsiteInitInfo info s
  | .add bind mem, s => (prsiteAdd bind mem s).1
  | .del bind, s => (prsiteDel bind s).1
  | .modi port, s => (prsiteModi port s).1
  | .help dir source p, s => (httpHelp dir source p s).1
  | .timeout id, s => httpTracecheckTimeout id s

end EchoLife.Netfilter.Prsite
