import EchoLife.Dhcp.Allocation

/-!
The server with address segments: within the range of the first pool, up to five are set aside for
vendor classes. The segment is chosen at the first packet of a transaction and left in the
variables of the configuration; later packets of it are answered from what is then in these
variables.
-/

namespace EchoLife.Dhcp

open List

structure AddressRange where
  start : Nat
  stop : Nat
  stop_lt : stop < 2 ^ 32 - 1
  lease : Nat

/-- `struct ipPoolData`: a segment and the vendor class it is for. -/
structure IpPoolData extends AddressRange where
  option60 : List UInt8
  option60_lt : option60.length < 64

structure SegmentConfig where
  master : AddressRange
  ipPool : List IpPoolData
  five : ipPool.length = 5

inductive Inmaster where
  | segment
  | master
  | second
  deriving DecidableEq

/-- An INFORM and a packet of an unknown kind also go through the choice of a range, but touch no
lease. -/
structure Packet extends Message where
  xid : Nat
  inform : Bool

/-- The variables of the server; the range in force is in `srv.config`. -/
structure SegmentServer where
  srv : Server
  xids : List Nat
  inmaster : Inmaster

def ServerConfig.setRange (config : ServerConfig) (range : AddressRange) : ServerConfig :=
  { config with
    start := range.start
    stop := range.stop
    stop_lt := range.stop_lt
    lease := range.lease }

section
variable (cfg : SegmentConfig) (env : Env) (m : Message) (inmaster : Inmaster)

/-- A segment that a client of the vendor class may get an address from. -/
def SegmentConfig.Suits (vendorid : List UInt8) (pool : IpPoolData) : Prop :=
  pool.option60 = vendorid ∧ cfg.master.start ≤ pool.start ∧ pool.stop ≤ cfg.master.stop

instance (cfg : SegmentConfig) (vendorid : List UInt8) : DecidablePred (cfg.Suits vendorid) :=
  fun _ => inferInstanceAs (Decidable (_ ∧ _))

/-- The loop over the segments, with `ismatch`. It stops at a segment that has a
free address. -/
def segmentLoop (cfg : SegmentConfig) (env : Env) (leases : Nat → Lease) (vendorid : List UInt8) :
    List IpPoolData → ServerConfig → Bool → ServerConfig × Bool
  | [], config, ismatch => (config, ismatch)
  | pool :: rest, config, ismatch =>
    if cfg.Suits vendorid pool then
      let found := findAddress env leases true (config.setRange pool.toAddressRange)
      if found.1 ≠ 0 then (found.2, true)
      else segmentLoop cfg env leases vendorid rest found.2 true
    else segmentLoop cfg env leases vendorid rest config ismatch

/-- Enter a transaction in the first free place of the table, if there is one. -/
def storeXid (xid : Nat) : List Nat → List Nat
  | [] => []
  | known :: rest => if known = 0 then xid :: rest else known :: storeXid xid rest

def SegmentServer.chooseRange (p : Packet) (s : SegmentServer) : SegmentServer :=
  if p.xid ≠ 0 ∧ p.xid ∈ s.xids then s
  else
    let xids := storeXid p.xid s.xids
    match p.vendorid with
    | none =>
      { srv := { s.srv with config := s.srv.config.setRange cfg.master }
        xids := xids
        inmaster := .master }
    | some vendorid =>
      let (config, ismatch) := segmentLoop cfg env s.srv.leases vendorid cfg.ipPool
        s.srv.config false
      if ismatch then
        { srv := { s.srv with config := config }
          xids := xids
          inmaster := .segment }
      else
        { srv := { s.srv with config := config.setRange cfg.master }
          xids := xids
          inmaster := .master }

def SegmentServer.choose (p : Packet) (s : SegmentServer) : Option SegmentServer :=
  if matchesSecond s.srv p.toMessage then
    some { s with srv := s.srv.swapIn, inmaster := .second }
  else if s.srv.enblSrv1 then some (s.chooseRange cfg env p)
  else none

def SegmentConfig.inSegment (addr : Nat) : Bool :=
  cfg.ipPool.any (fun pool => pool.start ≤ addr && addr ≤ pool.stop)

/-- The loop of `find_address2`, which leaves out the segments. -/
def findAddress2Loop (cfg : SegmentConfig) (env : Env) (leases : Nat → Lease)
    (checkExpired : Bool) : Nat → Nat → ServerConfig → Nat × ServerConfig
  | 0, _, config => (0, config)
  | count + 1, addr, config =>
    if addr = config.server ∨ reservedIp config addr = false ∨ cfg.inSegment addr = true then
      findAddress2Loop cfg env leases checkExpired count (addr + 1) config
    else if untaken env.now config.maxLeases leases checkExpired addr then
      let (config, taken) := checkIp env config addr
      if taken then
        findAddress2Loop cfg env leases checkExpired count (addr + 1) config
      else (addr, config)
    else findAddress2Loop cfg env leases checkExpired count (addr + 1) config

/-- `find_address2` in the range of the pool, or `find_address` in the range in
force. -/
def findFree (leases : Nat → Lease) (checkExpired : Bool) (config : ServerConfig) :
    Nat × ServerConfig :=
  if inmaster = .master then
    findAddress2Loop cfg env leases checkExpired
      (cfg.master.stop + 1 - cfg.master.start) cfg.master.start config
  else findAddress env leases checkExpired config

/-- The address `sendOffer` chooses. One of a segment is not granted to a client of the whole
range. -/
def segmentOfferAddress (leases : Nat → Lease) (config : ServerConfig) : Nat × ServerConfig :=
  match findLeaseByChaddr config.maxLeases leases m.chaddr with
  | some i => ((leases i).yiaddr, config)
  | none =>
    match m.requested.filter (requestable env.now config leases) with
    | some req =>
      if req ≠ config.server ∧ req ≠ config.router.getD 0 ∧
          ¬(inmaster = .master ∧ cfg.inSegment req = true) then (req, config)
      else findFree cfg env inmaster leases false config
    | none =>
      let (yiaddr, config) := findFree cfg env inmaster leases false config
      if yiaddr = 0 then findFree cfg env inmaster leases true config
      else (yiaddr, config)

/-- The lease time of an address. The second pool is recognized here by its whole
vendor class. -/
def segmentLease (srv : Server) (m : Message) (yiaddr : Nat) : Nat :=
  match srv.config2.vendorid, m.vendorid with
  | some configured, some vendorid =>
    if srv.enblSrv2 ∧ vendorid.length < 128 ∧ vendorid = configured then
      srv.config2.lease
    else ownLease
  | _, _ => ownLease
where
  ownLease : Nat :=
    match cfg.ipPool.find? (fun pool => pool.start ≤ yiaddr && yiaddr ≤ pool.stop) with
    | some pool => pool.lease
    | none => cfg.master.lease

def segmentOffer (srv : Server) : Server × Option Reply :=
  let (yiaddr, config) := segmentOfferAddress cfg env m inmaster srv.leases srv.config
  let srv := { srv with config := config }
  if yiaddr = 0 then (srv, none)
  else
    let (leases, added) := addLease env.now config.maxLeases srv.leases m.chaddr
      yiaddr config.offerTime
    ({ srv with leases := leases }, if added && env.sendOk then
        some (.offer yiaddr (segmentLease cfg srv m yiaddr))
      else none)

def segmentACK (yiaddr : Nat) (srv : Server) : Server × Option Reply :=
  if env.sendOk then
    let leaseTime := match m.leaseTime with
      | none => segmentLease cfg srv m yiaddr
      | some _ => ackLeaseTime m srv.config
    ({ srv with
        leases := (addLease env.now srv.config.maxLeases srv.leases m.chaddr yiaddr leaseTime).1 },
      some (.ack yiaddr leaseTime))
  else (srv, none)

/-- The `switch` of the main loop with segments. A REQUEST is judged as it is
without them. -/
def segmentServe (srv : Server) : Server × Option Reply :=
  match m.kind, srv.findLease m.chaddr with
  | .discover, _ => segmentOffer cfg env m inmaster srv
  | .request, some ref =>
    match (answerRequest { env with sendOk := true } m (srv.entry ref) srv).2 with
    | some (.ack yiaddr _) => segmentACK cfg env m yiaddr srv
    | some _ => sendNAK env srv
    | none => (srv, none)
  | _, _ => serve env m srv

def SegmentServer.round (input : Env × Packet) (s : SegmentServer) : SegmentServer :=
  match s.choose cfg input.1 input.2 with
  | none => s
  | some chosen =>
    let served := if input.2.inform then chosen.srv
      else (segmentServe cfg input.1 input.2.toMessage chosen.inmaster chosen.srv).1
    { chosen with
      srv := if matchesSecond s.srv input.2.toMessage then served.swapBack s.srv
        else served }

section

variable (cfg : SegmentConfig) (env : Env)

theorem findAddress2Loop_samePool (leases : Nat → Lease) (checkExpired : Bool) (count addr : Nat)
    (config : ServerConfig) :
    SamePool config (findAddress2Loop cfg env leases checkExpired count addr config).2 := by
  induction count generalizing addr config with
  | zero => exact SamePool.refl config
  | succ count ih =>
    unfold findAddress2Loop
    split
    · exact ih (addr + 1) config
    split
    · have hchecked := checkIp_samePool env config addr
      simp only
      split
      · exact hchecked.trans (ih (addr + 1) _)
      · exact hchecked
    · exact ih (addr + 1) config

private theorem findFree_samePool (inmaster : Inmaster)
    (leases : Nat → Lease) (checkExpired : Bool) (config : ServerConfig) :
    SamePool config (findFree cfg env inmaster leases checkExpired config).2 := by
  unfold findFree
  split
  · exact findAddress2Loop_samePool cfg env leases checkExpired _ _ config
  · exact (findAddress_spec env leases checkExpired config).1

private theorem segmentOfferAddress_samePool (m : Message)
    (inmaster : Inmaster) (leases : Nat → Lease) (config : ServerConfig) :
    SamePool config (segmentOfferAddress cfg env m inmaster leases config).2 := by
  have hfirst := findFree_samePool cfg env inmaster leases false config
  unfold segmentOfferAddress
  split
  · exact SamePool.refl config
  split
  · split
    · exact SamePool.refl config
    · exact hfirst
  · simp only
    split
    · exact hfirst.trans (findFree_samePool cfg env inmaster leases true _)
    · exact hfirst

theorem segmentServe_framed (m : Message) (inmaster : Inmaster) (srv : Server) :
    Framed srv (segmentServe cfg env m inmaster srv).1 := by
  unfold segmentServe
  split
  · have hpool := segmentOfferAddress_samePool cfg env m inmaster srv.leases srv.config
    unfold segmentOffer
    simp only
    split
    · exact ⟨hpool, rfl, rfl, rfl⟩
    · exact ⟨hpool, rfl, rfl, rfl⟩
  · split
    · unfold segmentACK
      split
      · exact Framed.refl srv
      · exact Framed.refl srv
    · exact Framed.refl srv
    · exact Framed.refl srv
  · exact (serve_served env m srv).framed

end

structure Choice where
  start : Nat
  stop : Nat
  inmaster : Inmaster
  deriving DecidableEq

def SegmentServer.choice (s : SegmentServer) : Choice :=
  ⟨s.srv.config.start, s.srv.config.stop, s.inmaster⟩

def classChoice : Option (List UInt8) → Choice
  | none => ⟨cfg.master.start, cfg.master.stop, .master⟩
  | some vendorid =>
    match cfg.ipPool.find? (fun pool => cfg.Suits vendorid pool) with
    | some pool => ⟨pool.start, pool.stop, .segment⟩
    | none => ⟨cfg.master.start, cfg.master.stop, .master⟩

def SegmentConfig.OnePerClass : Prop :=
  ∀ vendorid, (cfg.ipPool.filter (fun pool => cfg.Suits vendorid pool)).length ≤ 1

end

section

variable {cfg : SegmentConfig} {env : Env} {leases : Nat → Lease} {vendorid : List UInt8}
  {pools : List IpPoolData} {config : ServerConfig} {ismatch : Bool}

theorem segmentLoop_none (hnone : pools.filter (fun pool => cfg.Suits vendorid pool) = []) :
    segmentLoop cfg env leases vendorid pools config ismatch = (config, ismatch) := by
  induction pools with
  | nil => rfl
  | cons pool rest ih =>
    have habsent : ∀ other ∈ pool :: rest, ¬cfg.Suits vendorid other := by
      simpa using filter_eq_nil_iff.mp hnone
    unfold segmentLoop
    rw [if_neg (habsent pool mem_cons_self)]
    apply ih
    apply filter_eq_nil_iff.mpr
    intro other hother
    simpa using habsent other (mem_cons_of_mem pool hother)

private theorem segmentLoop_one {pool : IpPoolData}
    (hone : pools.filter (fun pool => cfg.Suits vendorid pool) = [pool]) :
    (segmentLoop cfg env leases vendorid pools config ismatch).2 = true ∧
      (segmentLoop cfg env leases vendorid pools config ismatch).1.start = pool.start ∧
      (segmentLoop cfg env leases vendorid pools config ismatch).1.stop = pool.stop := by
  induction pools generalizing config with
  | nil => cases hone
  | cons first rest ih =>
    rw [filter_cons] at hone
    unfold segmentLoop
    by_cases hsuits : cfg.Suits vendorid first
    · rw [if_pos (by simpa using hsuits)] at hone
      obtain ⟨rfl, hrest⟩ := cons.inj hone
      have hpool := (findAddress_spec env leases true (config.setRange first.toAddressRange)).1
      obtain ⟨server, hserver⟩ := hpool
      rw [if_pos hsuits]
      simp only
      split
      · rw [hserver]
        exact ⟨rfl, rfl, rfl⟩
      · rw [segmentLoop_none hrest, hserver]
        exact ⟨rfl, rfl, rfl⟩
    · rw [if_neg (by simpa using hsuits)] at hone
      rw [if_neg hsuits]
      exact ih hone

end

variable {cfg : SegmentConfig} {xid : Nat} {xids : List Nat} {srv : Server} {p : Packet}

theorem SegmentServer.chooseRange_spec (hone : cfg.OnePerClass)
    (env : Env) (p : Packet) (s : SegmentServer) :
    (∃ config, (s.chooseRange cfg env p).srv = { s.srv with config := config }) ∧
    ((p.xid ≠ 0 ∧ p.xid ∈ s.xids ∧ s.chooseRange cfg env p = s) ∨
      ((p.xid = 0 ∨ p.xid ∉ s.xids) ∧
        (s.chooseRange cfg env p).xids = storeXid p.xid s.xids ∧
        (s.chooseRange cfg env p).choice = classChoice cfg p.vendorid)) := by
  unfold chooseRange
  split
  next hknown =>
    exact ⟨⟨s.srv.config, rfl⟩, .inl ⟨hknown.1, hknown.2, rfl⟩⟩
  rename_i hnew
  have hnew : p.xid = 0 ∨ p.xid ∉ s.xids := by
    by_contra hboth
    push Not at hboth
    exact hnew hboth
  cases hvendor : p.vendorid with
  | none => exact ⟨⟨_, rfl⟩, .inr ⟨hnew, rfl, rfl⟩⟩
  | some vendorid =>
    simp only
    have hcount := hone vendorid
    match hpools : cfg.ipPool.filter (fun pool => cfg.Suits vendorid pool) with
    | [] =>
      have hfind : cfg.ipPool.find? (fun pool => cfg.Suits vendorid pool) = none := by
        rw [← head?_filter, hpools]
        rfl
      rw [segmentLoop_none hpools]
      exact ⟨⟨_, rfl⟩, .inr ⟨hnew, rfl, by simp only [classChoice, hfind]; rfl⟩⟩
    | [pool] =>
      have hfind : cfg.ipPool.find? (fun pool => cfg.Suits vendorid pool) = some pool := by
        rw [← head?_filter, hpools]
        rfl
      obtain ⟨hmatch, hstart, hstop⟩ := @segmentLoop_one cfg env s.srv.leases
        vendorid cfg.ipPool s.srv.config false pool hpools
      rw [if_pos hmatch]
      refine ⟨⟨_, rfl⟩, .inr ⟨hnew, rfl, ?_⟩⟩
      simp only [choice, classChoice, hfind, hstart, hstop]
    | first :: second :: rest =>
      rw [hpools, length_cons, length_cons] at hcount
      omega

private theorem storeXid_full (hfull : 0 ∉ xids) : storeXid xid xids = xids := by
  induction xids with
  | nil => rfl
  | cons known rest ih =>
    rw [mem_cons, not_or] at hfull
    unfold storeXid
    rw [if_neg (Ne.symm hfull.1), ih hfull.2]

variable {other : Nat} {input : Env × Packet} {s : SegmentServer} {history : List (Env × Packet)}

theorem mem_storeXid (hfree : 0 ∈ xids) (hother : other ≠ 0) :
    other ∈ storeXid xid xids ↔ other = xid ∨ other ∈ xids := by
  induction xids with
  | nil => cases hfree
  | cons known rest ih =>
    unfold storeXid
    split
    next hzero =>
      rw [mem_cons, hzero]
      simp [hother]
    rename_i hused
    have hrest : 0 ∈ rest := by
      rcases mem_cons.mp hfree with hzero | hrest
      · exact absurd hzero.symm hused
      · exact hrest
    rw [mem_cons, mem_cons]
    tauto

theorem mem_storeXid_zero (hother : other ≠ 0) : other ∈ storeXid 0 xids ↔ other ∈ xids := by
  rcases Decidable.em (0 ∈ xids) with hfree | hfull
  · rw [mem_storeXid hfree hother]
    simp [hother]
  · rw [storeXid_full hfull]

/-- The variables after a history, newest packet first. At the start no transaction is known. -/
def after (cfg : SegmentConfig) (srv : Server) : List (Env × Packet) → SegmentServer
  | [] => ⟨srv, replicate 256 0, .segment⟩
  | input :: earlier => (after cfg srv earlier).round cfg input

def firstPool (srv : Server) (p : Packet) : Bool :=
  !matchesSecond srv p.toMessage && srv.enblSrv1

/-- What decides which pool a packet is for, and the range of the second one. -/
structure SameDispatch (a b : Server) : Prop where
  vendorid : b.config2.vendorid = a.config2.vendorid
  start : b.config2.start = a.config2.start
  stop : b.config2.stop = a.config2.stop
  enblSrv1 : b.enblSrv1 = a.enblSrv1
  enblSrv2 : b.enblSrv2 = a.enblSrv2

theorem SameDispatch.matchesSecond_eq {a b : Server} (h : SameDispatch a b)
    (m : Message) : matchesSecond b m = matchesSecond a m := by
  unfold matchesSecond
  rw [h.vendorid, h.enblSrv2]

theorem SegmentServer.round_other (hother : firstPool s.srv input.2 = false) :
    (s.round cfg input).xids = s.xids ∧ SameDispatch s.srv (s.round cfg input).srv := by
  cases hsecond : matchesSecond s.srv input.2.toMessage with
  | false =>
    have hdisabled : s.srv.enblSrv1 = false := by
      simpa [firstPool, hsecond] using hother
    have hround : s.round cfg input = s := by
      simp [round, choose, hsecond, hdisabled]
    rw [hround]
    exact ⟨rfl, rfl, rfl, rfl, rfl, rfl⟩
  | true =>
    have hround : s.round cfg input = { s with
        inmaster := .second
        srv := (if input.2.inform then s.srv.swapIn
          else (segmentServe cfg input.1 input.2.toMessage .second s.srv.swapIn).1).swapBack
            s.srv } := by
      simp [round, choose, hsecond]
    have hframed : Framed s.srv.swapIn (if input.2.inform then s.srv.swapIn
        else (segmentServe cfg input.1 input.2.toMessage .second s.srv.swapIn).1) := by
      split
      · exact Framed.refl _
      · exact segmentServe_framed _ _ _ _ _
    obtain ⟨⟨server, hserver⟩, _, hfirst, hboth⟩ := hframed
    rw [hround]
    refine ⟨rfl, ?_, ?_, ?_, hfirst, hboth⟩
    · simp only [Server.swapBack, hserver]
      rfl
    · simp only [Server.swapBack, hserver]
      rfl
    · simp only [Server.swapBack, hserver]
      rfl

section
variable (hone : cfg.OnePerClass)
include hone

theorem SegmentServer.round_first (hfirst : firstPool s.srv input.2 = true) :
    (s.round cfg input).choice = (s.chooseRange cfg input.1 input.2).choice ∧
      (s.round cfg input).xids = (s.chooseRange cfg input.1 input.2).xids ∧
      SameDispatch s.srv (s.round cfg input).srv := by
  simp only [firstPool, Bool.and_eq_true, Bool.not_eq_true'] at hfirst
  obtain ⟨hother, henabled⟩ := hfirst
  obtain ⟨⟨config, hconfig⟩, _⟩ := chooseRange_spec hone input.1 input.2 s
  have hround : s.round cfg input = { s.chooseRange cfg input.1 input.2 with
      srv := if input.2.inform then (s.chooseRange cfg input.1 input.2).srv
        else (segmentServe cfg input.1 input.2.toMessage
          (s.chooseRange cfg input.1 input.2).inmaster
          (s.chooseRange cfg input.1 input.2).srv).1 } := by
    simp [round, choose, hother, henabled]
  have hframed : Framed (s.chooseRange cfg input.1 input.2).srv (s.round cfg input).srv := by
    rw [hround]
    split
    · exact Framed.refl _
    · exact segmentServe_framed _ _ _ _ _
  obtain ⟨⟨server, hserver⟩, hconfig2, hfirst, hsecond⟩ := hframed
  rw [hconfig] at hconfig2 hfirst hsecond
  refine ⟨?_, by rw [hround], ?_⟩
  · unfold choice
    rw [hserver, hround]
  · exact ⟨by rw [hconfig2], by rw [hconfig2], by rw [hconfig2], hfirst, hsecond⟩

theorem after_sameDispatch (srv : Server) (history : List (Env × Packet)) :
    SameDispatch srv (after cfg srv history).srv := by
  induction history with
  | nil => exact ⟨rfl, rfl, rfl, rfl, rfl⟩
  | cons input earlier ih =>
    have hstep : SameDispatch (after cfg srv earlier).srv
        (after cfg srv (input :: earlier)).srv := by
      cases hfirst : firstPool (after cfg srv earlier).srv input.2 with
      | true => exact (SegmentServer.round_first hone hfirst).2.2
      | false => exact (SegmentServer.round_other hfirst).2
    exact ⟨hstep.vendorid.trans ih.vendorid, hstep.start.trans ih.start,
      hstep.stop.trans ih.stop, hstep.enblSrv1.trans ih.enblSrv1, hstep.enblSrv2.trans ih.enblSrv2⟩

theorem firstPool_after (srv : Server) (history : List (Env × Packet)) (p : Packet) :
    firstPool (after cfg srv history).srv p = firstPool srv p := by
  have hsame := after_sameDispatch hone srv history
  unfold firstPool
  rw [hsame.matchesSecond_eq, hsame.enblSrv1]

end

/-- A packet of the first pool that continues a transaction comes directly after one of the same
transaction and client, and one that begins a transaction finds room in the table. -/
def InTurn (cfg : SegmentConfig) (srv : Server) (earlier : List (Env × Packet))
    (p : Packet) : Prop :=
  firstPool srv p = true → p.xid ≠ 0 →
    if p.xid ∈ (after cfg srv earlier).xids then
      ∃ last rest, earlier = last :: rest ∧ firstPool srv last.2 = true ∧
        last.2.xid = p.xid ∧ last.2.chaddr = p.chaddr
    else 0 ∈ (after cfg srv earlier).xids

theorem InTurn.begins {earlier : List (Env × Packet)} (hnew : p.xid ∉ (after cfg srv earlier).xids)
    (hroom : 0 ∈ (after cfg srv earlier).xids) : InTurn cfg srv earlier p := by
  intro _ _
  rw [if_neg hnew]
  exact hroom

theorem InTurn.continues {last : Env × Packet} {rest : List (Env × Packet)}
    (hfirst : firstPool srv last.2 = true) (hxid : last.2.xid = p.xid)
    (hchaddr : last.2.chaddr = p.chaddr) (hknown : p.xid ∈ (after cfg srv (last :: rest)).xids) :
    InTurn cfg srv (last :: rest) p := by
  intro _ _
  rw [if_pos hknown]
  exact ⟨last, rest, rfl, hfirst, hxid, hchaddr⟩

def Orderly (cfg : SegmentConfig) (srv : Server) : List (Env × Packet) → Prop
  | [] => True
  | input :: earlier => Orderly cfg srv earlier ∧ InTurn cfg srv earlier input.2

/-- `q` is an earlier packet of the client in the transaction of `p`. -/
def sameTransaction (srv : Server) (p q : Packet) : Bool :=
  firstPool srv q && q.xid == p.xid && q.chaddr == p.chaddr && p.xid != 0

def transactionClass (srv : Server) (earlier : List Packet) (p : Packet) : Option (List UInt8) :=
  match (earlier.filter (sameTransaction srv p)).getLast? with
  | some q => q.vendorid
  | none => p.vendorid

section
variable (hone : cfg.OnePerClass)
include hone

section

variable (horderly : Orderly cfg srv history)
include horderly

private theorem mem_xids_after (hxid : xid ≠ 0) :
    xid ∈ (after cfg srv history).xids ↔
      ∃ input ∈ history, firstPool srv input.2 = true ∧ input.2.xid = xid := by
  induction history with
  | nil =>
    simp only [after, mem_replicate, not_mem_nil, false_and, exists_false, iff_false]
    exact fun h => hxid h.2
  | cons input earlier ih =>
    obtain ⟨hearlier, hturn⟩ := horderly
    have hpool := firstPool_after hone srv earlier input.2
    have hafter : after cfg srv (input :: earlier) = (after cfg srv earlier).round cfg input := rfl
    rw [exists_mem_cons_iff, ← ih hearlier, hafter]
    cases hfirst : firstPool srv input.2 with
    | false =>
      rw [(SegmentServer.round_other (hpool.trans hfirst)).1]
      simp
    | true =>
      rw [(SegmentServer.round_first hone (hpool.trans hfirst)).2.1]
      obtain ⟨_, hchosen⟩ := SegmentServer.chooseRange_spec hone input.1 input.2
        (after cfg srv earlier)
      rcases hchosen with ⟨_, hknown, hsame⟩ | ⟨hnew, hstored, _⟩
      · rw [hsame]
        constructor
        · exact .inr
        rintro (⟨_, rfl⟩ | hmem)
        · exact hknown
        · exact hmem
      · rw [hstored]
        rcases Decidable.em (input.2.xid = 0) with hzero | hnonzero
        · rw [hzero, mem_storeXid_zero hxid]
          simp [hxid.symm]
        have hroom := hturn hfirst hnonzero
        rw [if_neg (hnew.resolve_left hnonzero)] at hroom
        rw [mem_storeXid hroom hxid]
        simp [eq_comm]

private theorem transactionClass_new (hnew : p.xid = 0 ∨ p.xid ∉ (after cfg srv history).xids) :
    transactionClass srv (history.map Prod.snd) p = p.vendorid := by
  have hnone : (history.map Prod.snd).filter (sameTransaction srv p) = [] := by
    apply filter_eq_nil_iff.mpr
    intro q hq hsame
    simp only [sameTransaction, Bool.and_eq_true, beq_iff_eq, bne_iff_ne] at hsame
    obtain ⟨⟨⟨hfirst, hxid⟩, _⟩, hnonzero⟩ := hsame
    obtain ⟨input, hinput, rfl⟩ := mem_map.mp hq
    exact hnew.resolve_left hnonzero
      ((mem_xids_after hone horderly hnonzero).mpr ⟨input, hinput, hfirst, hxid⟩)
  unfold transactionClass
  rw [hnone]
  rfl

end

omit hone in
private theorem transactionClass_continued {earlier : List Packet}
    {last : Packet} (hfirst : firstPool srv last = true) (hxid : last.xid = p.xid)
    (hchaddr : last.chaddr = p.chaddr) (hnonzero : p.xid ≠ 0) :
    transactionClass srv (last :: earlier) p = transactionClass srv earlier last := by
  have hlast : sameTransaction srv p last = true := by
    simp [sameTransaction, hfirst, hxid, hchaddr, hnonzero]
  have hothers : sameTransaction srv p = sameTransaction srv last := by
    funext q
    simp [sameTransaction, hxid, hchaddr]
  unfold transactionClass
  rw [filter_cons, if_pos hlast, hothers, getLast?_cons]
  cases (earlier.filter (sameTransaction srv last)).getLast? with
  | none => rfl
  | some q => rfl

/-- In an orderly history a packet is answered from the range for the class that its client sent
first. -/
theorem chooseRange_orderly (horderly : Orderly cfg srv history)
    {env : Env} (hfirst : firstPool srv p = true) (hturn : InTurn cfg srv history p) :
    ((after cfg srv history).chooseRange cfg env p).choice =
      classChoice cfg (transactionClass srv (history.map Prod.snd) p) := by
  induction history generalizing env p with
  | nil =>
    obtain ⟨_, hchosen⟩ := SegmentServer.chooseRange_spec hone env p (after cfg srv [])
    rcases hchosen with ⟨hnonzero, hknown, _⟩ | ⟨hnew, _, hchoice⟩
    · exact absurd (eq_of_mem_replicate hknown) hnonzero
    · exact hchoice
  | cons input earlier ih =>
    obtain ⟨_, hchosen⟩ := SegmentServer.chooseRange_spec hone env p
      (after cfg srv (input :: earlier))
    rcases hchosen with ⟨hnonzero, hknown, hsame⟩ | ⟨hnew, _, hchoice⟩
    · -- The range is still that of the packet before, which is of the transaction.
      have hbefore := hturn hfirst hnonzero
      rw [if_pos hknown] at hbefore
      obtain ⟨last, rest, hhistory, hlast, hxid, hchaddr⟩ := hbefore
      obtain ⟨rfl, rfl⟩ := cons.inj hhistory
      have hkept := (SegmentServer.round_first hone
        ((firstPool_after hone srv earlier input.2).trans hlast)).1
      rw [hsame, map_cons, transactionClass_continued hlast hxid hchaddr hnonzero]
      exact hkept.trans (ih horderly.1 hlast horderly.2)
    · rw [hchoice, transactionClass_new hone horderly hnew]

end

def chosen (cfg : SegmentConfig) (srv : Server) (history : List (Env × Packet))
    (env : Env) (p : Packet) : Option Choice :=
  ((after cfg srv history).choose cfg env p).map SegmentServer.choice

def concerns (p q : Packet) : Bool :=
  q.chaddr == p.chaddr || q.xid == p.xid

def ownChoice (cfg : SegmentConfig) (srv : Server) (own : List Packet) (p : Packet) :
    Option Choice :=
  if matchesSecond srv p.toMessage then
    some ⟨srv.config2.start, srv.config2.stop, .second⟩
  else if srv.enblSrv1 then some (classChoice cfg (transactionClass srv own p))
  else none

private theorem transactionClass_concerns (srv : Server) (earlier : List Packet) (p : Packet) :
    transactionClass srv (earlier.filter (concerns p)) p = transactionClass srv earlier p := by
  have hfilter : (earlier.filter (concerns p)).filter (sameTransaction srv p) =
      earlier.filter (sameTransaction srv p) := by
    rw [filter_filter]
    apply filter_congr
    intro q _
    cases hsame : sameTransaction srv p q with
    | false => rfl
    | true =>
      simp only [sameTransaction, Bool.and_eq_true, beq_iff_eq] at hsame
      simp [concerns, hsame.1.1.2]
  unfold transactionClass
  rw [hfilter]

private theorem chosen_orderly (hone : cfg.OnePerClass) {env : Env}
    (horderly : Orderly cfg srv ((env, p) :: history)) :
    chosen cfg srv history env p =
      ownChoice cfg srv ((history.map Prod.snd).filter (concerns p)) p := by
  obtain ⟨hearlier, hturn⟩ := horderly
  have hsame := after_sameDispatch hone srv history
  unfold chosen ownChoice SegmentServer.choose
  rw [hsame.matchesSecond_eq, hsame.enblSrv1, transactionClass_concerns]
  cases hsecond : matchesSecond srv p.toMessage with
  | true =>
    simp only [if_true, Option.map_some, SegmentServer.choice, Server.swapIn]
    rw [hsame.start, hsame.stop]
  | false =>
    cases henabled : srv.enblSrv1 with
    | false => rfl
    | true =>
      have hfirst : firstPool srv p = true := by
        simp [firstPool, hsecond, henabled]
      simp only [Bool.false_eq_true, if_false, if_true, Option.map_some]
      rw [chooseRange_orderly hone hearlier hfirst hturn]

/-- If no class has two segments, then in all histories in which the packets of a transaction come
one directly after the other and find room, the addresses for a packet are a function of the
packets that concern it. -/
theorem segment_choice_independent {cfg : SegmentConfig} (hone : cfg.OnePerClass)
    (srv : Server) (p : Packet) (left right : List (Env × Packet))
    (envLeft envRight : Env) (hleft : Orderly cfg srv ((envLeft, p) :: left))
    (hright : Orderly cfg srv ((envRight, p) :: right))
    (hsame : (left.map Prod.snd).filter (concerns p) = (right.map Prod.snd).filter (concerns p)) :
    chosen cfg srv left envLeft p = chosen cfg srv right envRight p ∧
      chosen cfg srv left envLeft p =
        ownChoice cfg srv ((left.map Prod.snd).filter (concerns p)) p := by
  have hown := chosen_orderly hone hleft
  refine ⟨?_, hown⟩
  rw [hown, hsame]
  exact (chosen_orderly hone hright).symm

def oneAddress (addr : Nat) (haddr : addr < 2 ^ 32 - 1) (letter : UInt8) : IpPoolData where
  start := addr
  stop := addr
  stop_lt := haddr
  lease := 3600
  option60 := [letter]
  option60_lt := by simp

theorem unused_lt : 0 < 2 ^ 32 - 1 := by
  decide

/-- Segments for the classes `A` and `B`; the others are outside the range. -/
def twoClasses : SegmentConfig where
  master := ⟨homeConfig.start, homeConfig.stop, homeConfig.stop_lt, homeConfig.lease⟩
  ipPool :=
    [oneAddress 0xC0A80104 (by decide) 0x41, oneAddress 0xC0A80105 (by decide) 0x42,
      oneAddress 0 unused_lt 0, oneAddress 0 unused_lt 0, oneAddress 0 unused_lt 0]
  five := rfl

private theorem twoClasses_onePerClass : twoClasses.OnePerClass := by
  intro vendorid
  rcases Decidable.em (vendorid = [0x41]) with rfl | hfirst
  · decide
  rcases Decidable.em (vendorid = [0x42]) with rfl | hsecond
  · decide
  · simp [twoClasses, SegmentConfig.Suits, oneAddress, homeConfig, Ne.symm hfirst, Ne.symm hsecond]

def classPacket (client letter xid : Nat) : Packet :=
  { discoverFrom (BitVec.ofNat 128 client) none with
    vendorid := some [UInt8.ofNat letter]
    xid := xid
    inform := false }

/-- A client of class `A` gets the same addresses whether or not another was served before. -/
theorem other_client_before_changes_nothing :
    chosen twoClasses freshServer.srv [(quietEnv 2, classPacket 1 0x41 1)] (quietEnv 3)
        (classPacket 1 0x41 1) =
      chosen twoClasses freshServer.srv
        [(quietEnv 2, classPacket 1 0x41 1), (quietEnv 1, classPacket 2 0x42 2)]
        (quietEnv 3) (classPacket 1 0x41 1) ∧
    chosen twoClasses freshServer.srv [(quietEnv 2, classPacket 1 0x41 1)] (quietEnv 3)
        (classPacket 1 0x41 1) =
      ownChoice twoClasses freshServer.srv [classPacket 1 0x41 1] (classPacket 1 0x41 1) := by
  have hshort : Orderly twoClasses freshServer.srv
      [(quietEnv 3, classPacket 1 0x41 1), (quietEnv 2, classPacket 1 0x41 1)] :=
    ⟨⟨trivial, InTurn.begins (by decide +kernel) (by decide +kernel)⟩,
      InTurn.continues (by decide +kernel) rfl rfl (by decide +kernel)⟩
  have hlong : Orderly twoClasses freshServer.srv
      [(quietEnv 3, classPacket 1 0x41 1), (quietEnv 2, classPacket 1 0x41 1),
        (quietEnv 1, classPacket 2 0x42 2)] :=
    ⟨⟨⟨trivial, InTurn.begins (by decide +kernel) (by decide +kernel)⟩,
      InTurn.begins (by decide +kernel) (by decide +kernel)⟩,
      InTurn.continues (by decide +kernel) rfl rfl (by decide +kernel)⟩
  exact segment_choice_independent twoClasses_onePerClass freshServer.srv
    (classPacket 1 0x41 1) _ _ (quietEnv 3) (quietEnv 3) hshort hlong (by rfl)

/-- The second packet of a client of class `A` is answered from the segment of a class `B` client
served in between. -/
theorem other_client_between_changes_segment :
    [(classPacket 2 0x42 2), (classPacket 1 0x41 1)].filter
        (concerns (classPacket 1 0x41 1)) = [classPacket 1 0x41 1] ∧
    chosen twoClasses freshServer.srv [(quietEnv 1, classPacket 1 0x41 1)] (quietEnv 3)
      (classPacket 1 0x41 1) = some ⟨0xC0A80104, 0xC0A80104, .segment⟩ ∧
    chosen twoClasses freshServer.srv
      [(quietEnv 2, classPacket 2 0x42 2), (quietEnv 1, classPacket 1 0x41 1)]
      (quietEnv 3) (classPacket 1 0x41 1) = some ⟨0xC0A80105, 0xC0A80105, .segment⟩ := by
  refine ⟨rfl, ?_, ?_⟩
  · decide +kernel
  · decide +kernel

end EchoLife.Dhcp
