import EchoLife.Dhcp.Server

/-!
What handling one message can do to the lease tables and what it tells the
clients, said once: an address is offered, acknowledged or given back, or
nothing happens that concerns addresses.
-/

namespace EchoLife.Dhcp

inductive Event where
  | offered (client : Chaddr) (address time : Nat)
  | acked (client : Chaddr) (address time lease : Nat)
  | freed (client : Chaddr) (address : Nat)
  deriving DecidableEq

section
variable (env : Env) (m : Message) (srv : Server)

def announced : Option Reply → Option Event
  | some (.offer yiaddr _) => some (.offered m.chaddr yiaddr env.now)
  | some (.ack yiaddr leaseTime) => some (.acked m.chaddr yiaddr env.now leaseTime)
  | _ => none

def eventOf (srv : Server) : Option Event :=
  match m.kind, srv.findLease m.chaddr with
  | .decline, some ref => some (.freed m.chaddr (srv.entry ref).yiaddr)
  | .release, some ref => some (.freed m.chaddr (srv.entry ref).yiaddr)
  | _, _ => announced env m (serve env m srv).2

/-- Where an offered address comes from: the entry of the client, or the free addresses of the
pool. -/
def OfferSource (now : Nat) (m : Message) (srv : Server) (yiaddr : Nat) : Prop :=
  (∃ i, findLeaseByChaddr srv.config.maxLeases srv.leases m.chaddr = some i ∧
    (srv.leases i).yiaddr = yiaddr) ∨
  (findLeaseByChaddr srv.config.maxLeases srv.leases m.chaddr = none ∧
    srv.config.start ≤ yiaddr ∧ yiaddr ≤ srv.config.stop ∧
    untaken now srv.config.maxLeases srv.leases true yiaddr = true)

inductive Effect (env : Env) (m : Message) (srv : Server) :
    (Nat → Lease) → (Nat → Lease) → Option Event → Prop
  | idle : Effect env m srv srv.leases srv.leases2 none
  | offer {yiaddr : Nat} {event : Option Event} (hkind : m.kind = .discover)
      (hnonzero : yiaddr ≠ 0) (hsource : OfferSource env.now m srv yiaddr)
      (hevent : event = none ∨ event = some (.offered m.chaddr yiaddr env.now)) :
      Effect env m srv
        (addLease env.now srv.config.maxLeases srv.leases m.chaddr yiaddr
          srv.config.offerTime).1 srv.leases2 event
  | ack {i : Nat} (hkind : m.kind = .request)
      (hfind : findLeaseByChaddr srv.config.maxLeases srv.leases m.chaddr = some i) :
      Effect env m srv
        (addLease env.now srv.config.maxLeases srv.leases m.chaddr
          (srv.leases i).yiaddr (ackLeaseTime m srv.config)).1 srv.leases2
        (some (.acked m.chaddr (srv.leases i).yiaddr env.now (ackLeaseTime m srv.config)))
  | free {ref : LeaseRef} {entry : Lease}
      (hfind : srv.findLease m.chaddr = some ref)
      (hyiaddr : entry.yiaddr = (srv.entry ref).yiaddr)
      (hchaddr : entry.chaddr = (srv.entry ref).chaddr ∨ entry.chaddr = 0) :
      Effect env m srv (srv.setEntry entry ref).leases
        (srv.setEntry entry ref).leases2
        (some (.freed m.chaddr (srv.entry ref).yiaddr))

theorem Server.findLease_chaddr {srv : Server} {chaddr : Chaddr} {ref : LeaseRef}
    (h : srv.findLease chaddr = some ref) : (srv.entry ref).chaddr = chaddr := by
  unfold Server.findLease at h
  split at h
  next i hfind =>
    cases h
    exact (Dhcp.findLease_some hfind).2
  · obtain ⟨i, hfind, rfl⟩ := Option.map_eq_some_iff.mp h
    exact (Dhcp.findLease_some hfind).2

/-- `a` and `b` differ at most in the address of the server itself. -/
def SamePool (a b : ServerConfig) : Prop :=
  ∃ server, b = { a with server := server }

theorem SamePool.refl (config : ServerConfig) : SamePool config config :=
  ⟨config.server, rfl⟩

theorem SamePool.trans {a b c : ServerConfig} (hab : SamePool a b)
    (hbc : SamePool b c) : SamePool a c := by
  obtain ⟨first, rfl⟩ := hab
  obtain ⟨second, rfl⟩ := hbc
  exact ⟨second, rfl⟩

theorem checkIp_samePool (config : ServerConfig) (addr : Nat) :
    SamePool config (checkIp env config addr).1 :=
  ⟨_, rfl⟩

theorem untaken_of_unchecked {now maxLeases : Nat} {leases : Nat → Lease} {checkExpired : Bool}
    {addr : Nat} (h : untaken now maxLeases leases checkExpired addr = true) :
    untaken now maxLeases leases true addr = true := by
  unfold untaken at h ⊢
  split at h
  · rfl
  · rw [Bool.and_eq_true] at h
    simp [h.2]

section

variable (env : Env) (leases : Nat → Lease) (checkExpired : Bool)

/-- The loop leaves the pool as it was, and finds nothing or a free address among those to come. -/
private theorem findAddressLoop_spec (count addr : Nat) (config : ServerConfig) :
    SamePool config (findAddressLoop env leases checkExpired count addr config).2 ∧
    ((findAddressLoop env leases checkExpired count addr config).1 = 0 ∨
      (addr ≤ (findAddressLoop env leases checkExpired count addr config).1 ∧
        (findAddressLoop env leases checkExpired count addr config).1 < addr + count ∧
        untaken env.now config.maxLeases leases true
          (findAddressLoop env leases checkExpired count addr config).1 = true)) := by
  induction count generalizing addr config with
  | zero => exact ⟨SamePool.refl config, .inl rfl⟩
  | succ count ih =>
    have hnext (next : ServerConfig) (hsame : SamePool config next) :
        SamePool config (findAddressLoop env leases checkExpired count (addr + 1) next).2 ∧
        ((findAddressLoop env leases checkExpired count (addr + 1) next).1 = 0 ∨
          (addr ≤ (findAddressLoop env leases checkExpired count (addr + 1) next).1 ∧
            (findAddressLoop env leases checkExpired count (addr + 1) next).1 < addr + (count + 1) ∧
            untaken env.now config.maxLeases leases true
              (findAddressLoop env leases checkExpired count (addr + 1) next).1 =
              true)) := by
      obtain ⟨hpool, hfound⟩ := ih (addr + 1) next
      refine ⟨hsame.trans hpool, hfound.imp_right ?_⟩
      rintro ⟨hlow, hhigh, hfree⟩
      obtain ⟨_, rfl⟩ := hsame
      exact ⟨by omega, by omega, hfree⟩
    simp only [findAddressLoop]
    split
    · exact hnext config (SamePool.refl config)
    split
    next hfree =>
      split
      · exact hnext _ (checkIp_samePool env config addr)
      · exact ⟨checkIp_samePool env config addr, .inr ⟨le_rfl, by omega,
          untaken_of_unchecked hfree⟩⟩
    · exact hnext config (SamePool.refl config)

/-- An address that is found lies in the range and is not taken. -/
theorem findAddress_spec (config : ServerConfig) :
    SamePool config (findAddress env leases checkExpired config).2 ∧
    ((findAddress env leases checkExpired config).1 = 0 ∨
      (config.start ≤ (findAddress env leases checkExpired config).1 ∧
        (findAddress env leases checkExpired config).1 ≤ config.stop ∧
        untaken env.now config.maxLeases leases true
          (findAddress env leases checkExpired config).1 = true)) := by
  obtain ⟨hpool, hfound⟩ := findAddressLoop_spec env leases checkExpired
    (config.stop + 1 - config.start) config.start config
  refine ⟨hpool, hfound.imp_right ?_⟩
  rintro ⟨hlow, hhigh, hfree⟩
  exact ⟨hlow, by simp only [findAddress]; omega, hfree⟩

end

/-- What is offered comes from the lease of the client, its request or the search. -/
theorem offerAddress_spec :
    SamePool srv.config (offerAddress env m srv.leases srv.config).2 ∧
    ((offerAddress env m srv.leases srv.config).1 = 0 ∨
      OfferSource env.now m srv (offerAddress env m srv.leases srv.config).1) := by
  simp only [offerAddress]
  cases hfind : findLeaseByChaddr srv.config.maxLeases srv.leases m.chaddr with
  | some i => exact ⟨SamePool.refl _, .inr (.inl ⟨i, hfind, rfl⟩)⟩
  | none =>
    have hsearch (checkExpired : Bool) {config : ServerConfig}
        (hsame : SamePool srv.config config) :
        SamePool srv.config (findAddress env srv.leases checkExpired config).2 ∧
        ((findAddress env srv.leases checkExpired config).1 = 0 ∨
          OfferSource env.now m srv (findAddress env srv.leases checkExpired config).1) := by
      obtain ⟨hpool, hfound⟩ := findAddress_spec env srv.leases checkExpired config
      refine ⟨hsame.trans hpool, hfound.imp_right ?_⟩
      rintro ⟨hlow, hhigh, hfree⟩
      obtain ⟨_, rfl⟩ := hsame
      exact .inr ⟨hfind, hlow, hhigh, hfree⟩
    have hself := SamePool.refl srv.config
    cases hreq : m.requested.filter (requestable env.now srv.config srv.leases) with
    | none =>
      simp only
      split
      · exact hsearch true (hsearch false hself).1
      · exact hsearch false hself
    | some req =>
      simp only
      split
      · have hgranted := (Option.filter_eq_some_iff.mp hreq).2
        simp only [requestable, Bool.and_eq_true, decide_eq_true_eq] at hgranted
        obtain ⟨⟨⟨hlow, hhigh⟩, _⟩, hfree⟩ := hgranted
        exact ⟨hself, .inr (.inr ⟨hfind, hlow, hhigh, hfree⟩)⟩
      · exact hsearch false hself

/-- A REQUEST without a lease in the table in use has none in the second table either. -/
def OwnTable (srv : Server) : Prop :=
  m.kind = .request →
    findLeaseByChaddr srv.config.maxLeases srv.leases m.chaddr = none →
    findLeaseByChaddr srv.config2.maxLeases srv.leases2 m.chaddr = none

def Framed (before after : Server) : Prop :=
  SamePool before.config after.config ∧ after.config2 = before.config2 ∧
    after.enblSrv1 = before.enblSrv1 ∧ after.enblSrv2 = before.enblSrv2

theorem Framed.refl : Framed srv srv :=
  ⟨SamePool.refl _, rfl, rfl, rfl⟩

theorem setEntry_framed (entry : Lease) (ref : LeaseRef) : Framed srv (srv.setEntry entry ref) := by
  cases ref with
  | one i => exact Framed.refl _
  | two i => exact Framed.refl _

def HasEffect (srv : Server) : Prop :=
  Framed srv (serve env m srv).1 ∧
    Effect env m srv (serve env m srv).1.leases (serve env m srv).1.leases2 (eventOf env m srv)

end

variable {m : Message} {srv : Server} {env : Env}

private theorem sendOffer_effect (hkind : m.kind = .discover) : HasEffect env m srv := by
  rw [HasEffect]
  have hserve : serve env m srv = sendOffer env m srv := by
    simp [serve, hkind]
  obtain ⟨hpool, hsource⟩ := offerAddress_spec env m srv
  have hevent : eventOf env m srv = announced env m (sendOffer env m srv).2 := by
    simp only [eventOf, hserve, hkind]
  rw [hserve, hevent]
  simp only [sendOffer]
  rcases hsource with hzero | hsource
  · rw [if_pos hzero]
    exact ⟨⟨hpool, rfl, rfl, rfl⟩, Effect.idle⟩
  split
  · exact ⟨⟨hpool, rfl, rfl, rfl⟩, Effect.idle⟩
  rename_i hnonzero
  refine ⟨⟨hpool, rfl, rfl, rfl⟩, ?_⟩
  obtain ⟨server, hconfig⟩ := hpool
  simp only [hconfig]
  refine Effect.offer hkind hnonzero hsource ?_
  cases hsent : ((addLease env.now srv.config.maxLeases srv.leases m.chaddr
      (offerAddress env m srv.leases srv.config).1 srv.config.offerTime).2 &&
      env.sendOk) with
  | true => exact .inr rfl
  | false => exact .inl rfl

private theorem answerRequest_effect (hkind : m.kind = .request) (hown : OwnTable m srv) :
    HasEffect env m srv := by
  rw [HasEffect]
  cases hfind : findLeaseByChaddr srv.config.maxLeases srv.leases m.chaddr with
  | none =>
    have hsecond := hown hkind hfind
    have hlookup : srv.findLease m.chaddr = none := by
      simp [Server.findLease, hfind, hsecond]
    have hserve : serve env m srv = sendNAK env srv := by
      simp [serve, hkind, hlookup]
    have hevent : eventOf env m srv = none := by
      simp only [eventOf, announced, hserve, sendNAK, hkind, hlookup]
      cases env.sendOk with
      | true => rfl
      | false => rfl
    rw [hserve, hevent]
    exact ⟨Framed.refl srv, Effect.idle⟩
  | some i =>
    have hlookup : srv.findLease m.chaddr = some (.one i) := by
      simp [Server.findLease, hfind]
    have hserve : serve env m srv = answerRequest env m (srv.leases i) srv := by
      simp [serve, hkind, hlookup, Server.entry]
    have hevent : eventOf env m srv =
        announced env m (answerRequest env m (srv.leases i) srv).2 := by
      simp only [eventOf, hserve, hkind]
    have hack : Framed srv (sendACK env m (srv.leases i).yiaddr srv).1 ∧
        Effect env m srv (sendACK env m (srv.leases i).yiaddr srv).1.leases
          (sendACK env m (srv.leases i).yiaddr srv).1.leases2
          (announced env m (sendACK env m (srv.leases i).yiaddr srv).2) := by
      simp only [sendACK]
      cases env.sendOk with
      | true => exact ⟨Framed.refl srv, Effect.ack hkind hfind⟩
      | false => exact ⟨Framed.refl srv, Effect.idle⟩
    have hnak : Framed srv (sendNAK env srv).1 ∧
        Effect env m srv (sendNAK env srv).1.leases (sendNAK env srv).1.leases2
          (announced env m (sendNAK env srv).2) := by
      simp only [sendNAK]
      cases env.sendOk with
      | true => exact ⟨Framed.refl srv, Effect.idle⟩
      | false => exact ⟨Framed.refl srv, Effect.idle⟩
    rw [hserve, hevent]
    simp only [answerRequest]
    split
    · split
      · exact hack
      · exact ⟨Framed.refl srv, Effect.idle⟩
    split
    · split
      · exact hack
      · exact hnak
    · split
      · exact hack
      · exact hnak

/-- DECLINE and RELEASE rewrite the entry of the client and nothing else. -/
theorem giveBack_effect (hkind : m.kind = .decline ∨ m.kind = .release) : HasEffect env m srv := by
  rw [HasEffect]
  cases hlookup : srv.findLease m.chaddr with
  | none =>
    have hserve : serve env m srv = (srv, none) := by
      rcases hkind with hkind | hkind
      · simp [serve, hkind, hlookup]
      · simp [serve, hkind, hlookup]
    have hevent : eventOf env m srv = none := by
      rcases hkind with hkind | hkind
      · simp [eventOf, announced, hkind, hlookup, hserve]
      · simp [eventOf, announced, hkind, hlookup, hserve]
    rw [hserve, hevent]
    exact ⟨Framed.refl srv, Effect.idle⟩
  | some ref =>
    have hevent : eventOf env m srv = some (.freed m.chaddr (srv.entry ref).yiaddr) := by
      rcases hkind with hkind | hkind
      · simp [eventOf, hkind, hlookup]
      · simp [eventOf, hkind, hlookup]
    rw [hevent]
    rcases hkind with hkind | hkind
    · simp only [serve, hkind, hlookup]
      exact ⟨setEntry_framed _ _ _, Effect.free hlookup rfl (.inr rfl)⟩
    · simp only [serve, hkind, hlookup]
      exact ⟨setEntry_framed _ _ _, Effect.free hlookup rfl (.inl rfl)⟩

/-- Every message has one of the effects, if the sender's lease is in the table of the pool. -/
theorem serve_effect (env : Env) (hown : OwnTable m srv) : HasEffect env m srv := by
  cases hkind : m.kind with
  | discover => exact sendOffer_effect hkind
  | request => exact answerRequest_effect hkind hown
  | decline => exact giveBack_effect (.inl hkind)
  | release => exact giveBack_effect (.inr hkind)

/-- At most one lease is entered into the table in use, or one entry of the sender is rewritten.
-/
inductive Served (env : Env) (m : Message) (srv : Server) : Server → Prop
  | kept (config : ServerConfig) (hpool : SamePool srv.config config) :
      Served env m srv { srv with config := config }
  | entered (config : ServerConfig) (hpool : SamePool srv.config config)
      (yiaddr lease : Nat) :
      Served env m srv { srv with
        config := config
        leases := (addLease env.now srv.config.maxLeases srv.leases m.chaddr yiaddr lease).1 }
  | rewritten (ref : LeaseRef) (entry : Lease)
      (hfind : srv.findLease m.chaddr = some ref)
      (hyiaddr : entry.yiaddr = (srv.entry ref).yiaddr)
      (hchaddr : entry.chaddr = (srv.entry ref).chaddr ∨ entry.chaddr = 0) :
      Served env m srv (srv.setEntry entry ref)

theorem Served.idle (env : Env) (m : Message) (srv : Server) : Served env m srv srv :=
  .kept srv.config (SamePool.refl _)

theorem Served.framed {served : Server} (h : Served env m srv served) : Framed srv served := by
  cases h with
  | kept config hpool => exact ⟨hpool, rfl, rfl, rfl⟩
  | entered config hpool yiaddr lease => exact ⟨hpool, rfl, rfl, rfl⟩
  | rewritten ref entry _ _ _ => exact setEntry_framed srv entry ref

theorem Served.maxLeases {served : Server} (h : Served env m srv served) :
    served.config.maxLeases = srv.config.maxLeases := by
  obtain ⟨_, hconfig⟩ := h.framed.1
  rw [hconfig]

section

variable (env : Env) (m : Message)

private theorem sendACK_served (yiaddr : Nat) (srv : Server) :
    Served env m srv (sendACK env m yiaddr srv).1 := by
  simp only [sendACK]
  split
  · exact .entered srv.config (SamePool.refl _) yiaddr (ackLeaseTime m srv.config)
  · exact .idle env m srv

private theorem sendOffer_served (srv : Server) : Served env m srv (sendOffer env m srv).1 := by
  obtain ⟨hpool, _⟩ := offerAddress_spec env m srv
  simp only [sendOffer]
  split
  · exact .kept _ hpool
  have hentered := @Served.entered env m srv _ hpool
    (offerAddress env m srv.leases srv.config).1 srv.config.offerTime
  obtain ⟨server, hconfig⟩ := hpool
  simp only [hconfig] at hentered ⊢
  exact hentered

private theorem answerRequest_served (lease : Lease)
    (srv : Server) : Served env m srv (answerRequest env m lease srv).1 := by
  have hack := sendACK_served env m lease.yiaddr srv
  have hidle := Served.idle env m srv
  simp only [answerRequest]
  split
  · split
    · exact hack
    · exact hidle
  split
  · split
    · exact hack
    · exact hidle
  · split
    · exact hack
    · exact hidle

/-- Every message is served in one of the three ways, wherever the sender's lease is. -/
theorem serve_served (srv : Server) : Served env m srv (serve env m srv).1 := by
  cases hkind : m.kind with
  | discover =>
    have hserve : serve env m srv = sendOffer env m srv := by simp [serve, hkind]
    rw [hserve]
    exact sendOffer_served env m srv
  | request =>
    simp only [serve, hkind]
    cases srv.findLease m.chaddr with
    | none => exact .idle env m srv
    | some ref => exact answerRequest_served env m (srv.entry ref) srv
  | decline =>
    simp only [serve, hkind]
    cases hfind : srv.findLease m.chaddr with
    | none => exact .idle env m srv
    | some ref => exact .rewritten ref _ hfind rfl (.inr rfl)
  | release =>
    simp only [serve, hkind]
    cases hfind : srv.findLease m.chaddr with
    | none => exact .idle env m srv
    | some ref => exact .rewritten ref _ hfind rfl (.inl rfl)

end

end EchoLife.Dhcp
