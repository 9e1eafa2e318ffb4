import EchoLife.Dhcp.Allocation

/-!
The two address pools side by side, each with its whole configuration and a table of leases and
host names. A message of the second pool is served by copying some of its settings over those of
the first one; afterwards the whole of what is then in place is copied back over the second
pool's.
-/

namespace EchoLife.Dhcp

open Option Run

structure PhoneConfig where
  domainName : Option (List UInt8)
  dnsServers : Option (List UInt8)
  tftpServer : Option (List UInt8)
  tftpServerName : Option (List UInt8)
  outBoundProxy : Option (List UInt8)
  dhcpOpt60 : Option (List UInt8)
  vlanQosEnable : Int
  ntp1 : Nat
  ntp2 : Nat

/-- `struct server_config_t`. The server's address is read from the interface, like the index and
hardware address that are left out; `options` are those other than the router. -/
structure PoolConfig extends ServerConfig where
  options : List (UInt8 × List UInt8)
  interface : List UInt8
  remaining : Bool
  autoTime : Nat
  conflictTime : Nat
  leaseFile : List UInt8
  pidfile : List UInt8
  notifyFile : Option (List UInt8)
  siaddr : Nat
  sname : Option (List UInt8)
  bootFile : Option (List UInt8)
  phone : PhoneConfig
  declineFile : List UInt8

/-- What `b` has from the configuration file is what `a` has. -/
def PoolConfig.SameFile (a b : PoolConfig) : Prop :=
  b = { a with toServerConfig := { a.toServerConfig with server := b.server } }

theorem PoolConfig.SameFile.refl (a : PoolConfig) : a.SameFile a :=
  rfl

theorem PoolConfig.SameFile.trans {a b c : PoolConfig} (hab : a.SameFile b)
    (hbc : b.SameFile c) : a.SameFile c := by
  rw [SameFile] at *
  rw [hbc, hab]

theorem PoolConfig.sameFile_of_samePool {a : PoolConfig} {config : ServerConfig}
    (hpool : SamePool a.toServerConfig config) :
    a.SameFile { a with toServerConfig := config } := by
  obtain ⟨server, rfl⟩ := hpool
  rfl

/-- The pools differ at most in the settings that are copied when the second one
is swapped in. -/
def PoolConfig.Alike (a b : PoolConfig) : Prop :=
  b = { a with
    toServerConfig := { a.toServerConfig with
      server := b.server
      start := b.start
      stop := b.stop
      stop_lt := b.stop_lt
      vendorid := b.vendorid
      router := b.router }
    interface := b.interface
    options := b.options }

inductive Pool where
  | first
  | second
  deriving DecidableEq

/-- A message with its host name option, or an INFORM or unknown one, which change nothing. -/
inductive Received where
  | message (m : Message) (hostname : Option (List UInt8))
  | other (vendorid : Option (List UInt8))

def Received.vendorid : Received → Option (List UInt8)
  | .message m _ => m.vendorid
  | .other vendorid => vendorid

/-- The variables of the server. The host name of an entry is its text. -/
structure PoolServer where
  config : PoolConfig
  config2 : PoolConfig
  leases : Nat → Lease
  leases2 : Nat → Lease
  names : Nat → List UInt8
  names2 : Nat → List UInt8
  enblSrv1 : Bool
  enblSrv2 : Bool

def PoolServer.view (p : PoolServer) : Server where
  config := p.config.toServerConfig
  config2 := p.config2.toServerConfig
  leases := p.leases
  leases2 := p.leases2
  enblSrv1 := p.enblSrv1
  enblSrv2 := p.enblSrv2

def PoolServer.matched (p : PoolServer) (r : Received) : Option Pool :=
  let second := match p.config2.vendorid, r.vendorid with
    | some configured, some vendorid =>
      p.enblSrv2 && isOption60Correct configured vendorid
    | _, _ => false
  if second then some .second
  else if p.enblSrv1 then some .first
  else none

section
variable (env : Env) (m : Message)

/-- The address for which serving a message calls `add_lease`. -/
def addedAddress (srv : Server) : Option Nat :=
  match m.kind, srv.findLease m.chaddr with
  | .discover, _ =>
    let yiaddr := (offerAddress env m srv.leases srv.config).1
    if yiaddr = 0 then none else some yiaddr
  | .request, some ref =>
    match (answerRequest env m (srv.entry ref) srv).2 with
    | some (.ack yiaddr _) => some yiaddr
    | _ => none
  | _, _ => none

/-- The names after `add_lease`, whose `clear_lease` wipes entries as a whole. -/
def PoolServer.clearNames (p : PoolServer) : Nat → List UInt8 :=
  match addedAddress env m p.view with
  | none => p.names
  | some yiaddr => fun i =>
    if i < p.config.maxLeases ∧ (p.leases i).Clashes m.chaddr yiaddr then []
    else p.names i

/-- The text kept of a host name option. Its length is a signed byte; a negative one makes
`strncpy` run past the table. -/
def storedName : Option (List UInt8) → Option (List UInt8)
  | none => some []
  | some hostname =>
    if hostname.length < 128 then some ((hostname.take 63).takeWhile (· ≠ 0))
    else none

/-- The names of both tables after a message. The sender's entry is that of before the answer. -/
def PoolServer.rename (hostname : Option (List UInt8))
    (p : PoolServer) : Option ((Nat → List UInt8) × (Nat → List UInt8)) :=
  let names := p.clearNames env m
  match m.kind, p.view.findLease m.chaddr with
  | .request, some (.one i) =>
    (storedName hostname).map (fun name => (Function.update names i name, p.names2))
  | .request, some (.two i) =>
    (storedName hostname).map (fun name => (names, Function.update p.names2 i name))
  | _, _ => some (names, p.names2)

/-- The `switch` of the main loop; `none` when the server dies. -/
def PoolServer.serve (p : PoolServer) : Received → Option PoolServer
  | .other _ => some p
  | .message m hostname =>
    let served := (Dhcp.serve env m p.view).1
    (p.rename env m hostname).map (fun names =>
      { p with
        config := { p.config with toServerConfig := served.config }
        leases := served.leases
        leases2 := served.leases2
        names := names.1
        names2 := names.2 })

end

def PoolServer.swapIn (p : PoolServer) : PoolServer :=
  { p with
    config := { p.config with
      toServerConfig := p.view.swapIn.config
      interface := p.config2.interface
      options := p.config2.options }
    leases := p.leases2
    names := p.names2 }

def PoolServer.swapBack (served before : PoolServer) : PoolServer :=
  { served with
    config2 := served.config
    config := before.config
    leases2 := served.leases
    leases := before.leases
    names2 := served.names
    names := before.names }

def PoolServer.round (input : Env × Received) (p : PoolServer) : Option PoolServer :=
  match p.matched input.2 with
  | some .second =>
    (p.swapIn.serve input.1 input.2).map (fun served => served.swapBack p)
  | some .first => p.serve input.1 input.2
  | none => some p

variable {env : Env} {m : Message} {hostname : Option (List UInt8)} {srv : Server}

theorem Server.findLease_two {chaddr : Chaddr} {i : Nat}
    (h : srv.findLease chaddr = some (.two i)) :
    findLeaseByChaddr srv.config.maxLeases srv.leases chaddr = none ∧
      findLeaseByChaddr srv.config2.maxLeases srv.leases2 chaddr = some i := by
  simp only [Server.findLease] at h
  split at h
  · cases h
  rename_i hfirst
  obtain ⟨j, hsecond, hj⟩ := map_eq_some_iff.mp h
  cases hj
  exact ⟨hfirst, hsecond⟩

/-- The second table is left alone, unless the lease of the sender is found there. -/
theorem serve_leases2 (hown : m.kind ≠ .discover → ∀ i, srv.findLease m.chaddr ≠ some (.two i)) :
    (serve env m srv).1.leases2 = srv.leases2 := by
  by_cases hkind : m.kind = .discover
  · have hserve : serve env m srv = sendOffer env m srv := by simp [serve, hkind]
    rw [hserve]
    simp only [sendOffer]
    split
    · rfl
    · rfl
  · generalize hserved : (serve env m srv).1 = served
    cases hserved ▸ serve_served env m srv with
    | kept config hpool => rfl
    | entered config hpool yiaddr lease => rfl
    | rewritten ref entry hfind _ _ =>
      cases ref with
      | one i => rfl
      | two i => exact absurd hfind (hown hkind i)

/-- A host name of a proper length is kept; names of the second table change only where the
sender's lease is found. -/
theorem PoolServer.rename_spec
    {p : PoolServer} (hnamed : ∀ name, hostname = some name → name.length < 128) :
    ∃ names, p.rename env m hostname = some names ∧
      ((m.kind ≠ .discover → ∀ i, p.view.findLease m.chaddr ≠ some (.two i)) →
        names.2 = p.names2) := by
  obtain ⟨name, hname⟩ : ∃ name, storedName hostname = some name := by
    cases hostname with
    | none => exact ⟨[], rfl⟩
    | some text => exact ⟨_, if_pos (hnamed text rfl)⟩
  simp only [rename, hname, map_some]
  split
  · exact ⟨_, rfl, fun _ => rfl⟩
  next i hkind hfind =>
    refine ⟨_, rfl, ?_⟩
    intro hown
    exact absurd hfind (hown (by rw [hkind]; decide) i)
  · exact ⟨_, rfl, fun _ => rfl⟩

theorem PoolServer.serve_spec {r : Received} {p : PoolServer}
    (hnamed : ∀ m hostname, r = .message m (some hostname) → hostname.length < 128) :
    ∃ served, p.serve env r = some served ∧ p.config.SameFile served.config ∧
      served.config2 = p.config2 ∧
      ((∀ m hostname, r = .message m hostname → m.kind ≠ .discover →
          ∀ i, p.view.findLease m.chaddr ≠ some (.two i)) →
        served.leases2 = p.leases2 ∧ served.names2 = p.names2) := by
  cases r with
  | other vendorid =>
    exact ⟨p, rfl, PoolConfig.SameFile.refl _, rfl, fun _ => ⟨rfl, rfl⟩⟩
  | message m hostname =>
    obtain ⟨names, hnames, hkept⟩ := @rename_spec env m hostname p
      (fun name hname => hnamed m name (by rw [hname]))
    have hframed := (serve_served env m p.view).framed
    refine ⟨_, map_eq_some_iff.mpr ⟨names, hnames, rfl⟩,
      PoolConfig.sameFile_of_samePool hframed.1, rfl, ?_⟩
    intro hown
    have hsender := hown m hostname rfl
    exact ⟨serve_leases2 hsender, hkept hsender⟩

/-- The pools share what the server is told, and the sender's lease is in the table of the pool
that serves it. -/
structure StepKept (input : Env × Received) (p : PoolServer) : Prop where
  alike : p.matched input.2 = some .second → p.config.Alike p.config2
  own : p.matched input.2 = some .first → ∀ m hostname,
    input.2 = .message m hostname → m.kind ≠ .discover →
    (findLeaseByChaddr p.config2.maxLeases p.leases2 m.chaddr).isSome →
    (findLeaseByChaddr p.config.maxLeases p.leases m.chaddr).isSome
  named : ∀ m hostname, input.2 = .message m (some hostname) → hostname.length < 128

/-- Only the table of the pool that the packet is for may have changed. -/
def PoolServer.OnlyMatched (r : Received) (before after : PoolServer) : Prop :=
  (before.matched r ≠ some .first → after.leases = before.leases ∧ after.names = before.names) ∧
  (before.matched r ≠ some .second → after.leases2 = before.leases2 ∧ after.names2 = before.names2)

theorem PoolServer.round_kept {input : Env × Received} {p : PoolServer} (hok : StepKept input p) :
    ∃ after, p.round input = some after ∧ p.config.SameFile after.config ∧
      p.config2.SameFile after.config2 ∧ p.OnlyMatched input.2 after := by
  simp only [round, OnlyMatched]
  cases hmatched : p.matched input.2 with
  | none =>
    exact ⟨p, rfl, PoolConfig.SameFile.refl _, PoolConfig.SameFile.refl _,
      fun _ => ⟨rfl, rfl⟩, fun _ => ⟨rfl, rfl⟩⟩
  | some pool =>
    cases pool with
    | first =>
      obtain ⟨served, hserved, hconfig, hconfig2, hsecond⟩ :=
        @serve_spec input.1 input.2 p hok.named
      refine ⟨served, hserved, hconfig, hconfig2 ▸ PoolConfig.SameFile.refl _,
        fun hne => absurd rfl hne, fun _ => hsecond ?_⟩
      intro m hostname hmessage hkind i hfind
      obtain ⟨hnone, hsome⟩ := Server.findLease_two hfind
      have hown := hok.own hmatched m hostname hmessage hkind
        (isSome_iff_exists.mpr ⟨i, hsome⟩)
      rw [show findLeaseByChaddr p.config.maxLeases p.leases m.chaddr = none from hnone] at hown
      cases hown
    | second =>
      obtain ⟨served, hserved, hconfig, _, _⟩ :=
        @serve_spec input.1 input.2 p.swapIn hok.named
      refine ⟨served.swapBack p, by rw [hserved]; rfl,
        PoolConfig.SameFile.refl _, ?_, fun _ => ⟨rfl, rfl⟩, fun hne => absurd rfl hne⟩
      -- What is copied back is the second configuration, as the rest agrees.
      have hswapped : p.swapIn.config = p.config2 := (hok.alike hmatched).symm
      exact hswapped ▸ hconfig

/-- In every run in which messages of the second pool find the settings that are not swapped
equal, and the lease of a sender served by the first pool is not in the second table only, a round
ends with both configurations as the file gave them and the other pool's table unchanged. -/
theorem pools_do_not_leak (start p : PoolServer)
    (hreach : Reaches (fun input s => s.bind (PoolServer.round input))
      (fun input s => ∀ q, s = some q → StepKept input q) (some start) (some p))
    (input : Env × Received) (hok : StepKept input p) :
    ∃ after, p.round input = some after ∧ start.config.SameFile after.config ∧
      start.config2.SameFile after.config2 ∧ p.OnlyMatched input.2 after := by
  have hconfigs : ∃ q, some p = some q ∧ start.config.SameFile q.config ∧
      start.config2.SameFile q.config2 := by
    apply hreach.invariant (P := fun s : Option PoolServer =>
      ∃ q, s = some q ∧ start.config.SameFile q.config ∧ start.config2.SameFile q.config2)
    · exact ⟨start, rfl, PoolConfig.SameFile.refl _, PoolConfig.SameFile.refl _⟩
    rintro next _ hnext ⟨q, rfl, hfirst, hsecond⟩
    obtain ⟨after, hafter, hconfig, hconfig2, _⟩ :=
      PoolServer.round_kept (hnext q rfl)
    exact ⟨after, hafter, hfirst.trans hconfig, hsecond.trans hconfig2⟩
  obtain ⟨q, hq, hfirst, hsecond⟩ := hconfigs
  cases hq
  obtain ⟨after, hafter, hconfig, hconfig2, htables⟩ := PoolServer.round_kept hok
  exact ⟨after, hafter, hfirst.trans hconfig, hsecond.trans hconfig2, htables⟩

def homePool : PoolConfig where
  toServerConfig := homeConfig
  options := [(6, [192, 168, 1, 1])]
  interface := [0x62, 0x72, 0x30]
  remaining := true
  autoTime := 7200
  conflictTime := 3600
  leaseFile := [0x61]
  pidfile := [0x70]
  notifyFile := none
  siaddr := 0
  sname := none
  bootFile := none
  phone := ⟨none, none, none, none, none, none, 0, 0, 0⟩
  declineFile := [0x64]

def vendorPool : PoolConfig :=
  { homePool with
    toServerConfig := vendorConfig
    options := [(6, [192, 168, 2, 1])]
    interface := [0x62, 0x72, 0x31] }

def largePool : PoolConfig :=
  { vendorPool with
    toServerConfig := { vendorConfig with maxLeases := 8 }
    leaseFile := [0x62] }

def startedServer (config2 : PoolConfig) : PoolServer where
  config := homePool
  config2 := config2
  leases := fun _ => Lease.blank
  leases2 := fun _ => Lease.blank
  names := fun _ => []
  names2 := fun _ => []
  enblSrv1 := true
  enblSrv2 := true

def boxDiscover : Env × Received :=
  (quietEnv 10, .message
    { discoverFrom 2 none with vendorid := some [0x53, 0x54, 0x42] } none)

def homeDiscover : Env × Received :=
  (quietEnv 11, .message (discoverFrom 1 none) none)

def afterBox : PoolServer :=
  ((startedServer vendorPool).round boxDiscover).getD (startedServer vendorPool)

theorem box_then_home_kept :
    ∃ after, afterBox.round homeDiscover = some after ∧
      homePool.SameFile after.config ∧ vendorPool.SameFile after.config2 ∧
      afterBox.OnlyMatched homeDiscover.2 after := by
  have hbox : StepKept boxDiscover (startedServer vendorPool) := by
    refine ⟨fun _ => rfl, ?_, ?_⟩
    · intro hfirst
      have hsecond : (startedServer vendorPool).matched boxDiscover.2 = some .second := by
        decide
      cases hsecond.symm.trans hfirst
    · nofun
  have hhome : StepKept homeDiscover afterBox := by
    refine ⟨?_, ?_, ?_⟩
    · intro hsecond
      have hfirst : afterBox.matched homeDiscover.2 = some .first := by decide
      cases hfirst.symm.trans hsecond
    · intro _ m hostname hmessage hkind
      cases hmessage
      exact absurd rfl hkind
    · nofun
  have hstep : (startedServer vendorPool).round boxDiscover = some afterBox := rfl
  have hreach : Reaches (fun input s => s.bind (PoolServer.round input))
      (fun input s => ∀ q, s = some q → StepKept input q)
      (some (startedServer vendorPool)) (some afterBox) := by
    exact .step boxDiscover .start (fun q hq => some.inj hq ▸ hbox)
  exact pools_do_not_leak (startedServer vendorPool) afterBox hreach homeDiscover hhome

/-- A message of the second pool leaves it with the limit and the lease file of the first. -/
theorem second_pool_overwritten :
    ∃ after, (startedServer largePool).round boxDiscover = some after ∧
      after.config2.maxLeases = 4 ∧ largePool.maxLeases = 8 ∧
      after.config2.leaseFile = homePool.leaseFile ∧
      ¬largePool.SameFile after.config2 := by
  refine ⟨_, rfl, by decide, by decide, rfl, ?_⟩
  intro hsame
  have hlimit := congrArg (fun config : PoolConfig => config.maxLeases) hsame
  revert hlimit
  decide

end EchoLife.Dhcp
