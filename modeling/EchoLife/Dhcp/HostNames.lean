import EchoLife.Dhcp.Pools

/-!
Where the host name of a REQUEST is kept. The acknowledgement clears the entry of the client and
enters the lease anew, in the slot of the table in use whose time is smallest, while the name goes
to the entry that was looked up before.
-/

namespace EchoLife.Dhcp

open Function Option

def keptText (name : List UInt8) : List UInt8 :=
  (name.take 63).takeWhile (· ≠ 0)

/-- The server while it handles a message of the pool. -/
def PoolServer.chosen (p : PoolServer) : Pool → PoolServer
  | .first => p
  | .second => p.swapIn

def PoolServer.leasesOf (p : PoolServer) : Pool → Nat → Lease
  | .first => p.leases
  | .second => p.leases2

def PoolServer.namesOf (p : PoolServer) : Pool → Nat → List UInt8
  | .first => p.names
  | .second => p.names2

/-- The entry of the client in the table of the pool has the host name, and the others have the
names they had, as have the entries of the other pool. -/
structure NameLands (pool : Pool) (chaddr : Chaddr) (name : List UInt8)
    (before after : PoolServer) : Prop where
  entered : ∃ j, j < before.config.maxLeases ∧ (after.leasesOf pool j).chaddr = chaddr
  own : ∀ j, j < before.config.maxLeases → (after.leasesOf pool j).chaddr = chaddr →
    after.namesOf pool j = name
  others : ∀ j, j < before.config.maxLeases → (after.leasesOf pool j).chaddr ≠ chaddr →
    after.namesOf pool j = before.namesOf pool j
  elsewhere : ∀ other, other ≠ pool → after.namesOf other = before.namesOf other

section
variable (p : PoolServer) (m : Message) (yiaddr : Nat)

/-- The slot that `add_lease` takes for the client. -/
def PoolServer.takenSlot (now : Nat) : Option Nat :=
  oldestExpiredLease now p.config.maxLeases (clearLease p.config.maxLeases p.leases m.chaddr yiaddr)

def PoolServer.wipedNames : Nat → List UInt8 :=
  fun j => if j < p.config.maxLeases ∧ (p.leases j).Clashes m.chaddr yiaddr then [] else p.names j

/-- The names of both tables when the text has gone to the entry that was found. -/
def PoolServer.renamed (text : List UInt8) :
    LeaseRef → (Nat → List UInt8) × (Nat → List UInt8)
  | .one i => (update (p.wipedNames m yiaddr) i text, p.names2)
  | .two i => (p.wipedNames m yiaddr, update p.names2 i text)

/-- The entry that was found had the text already. A second table that is in use is written back,
and with it what stands in `names2`. -/
def PoolServer.HadText (pool : Pool) (text : List UInt8) : LeaseRef → Prop
  | .one i => p.names i = text
  | .two i => pool = .first → p.names2 i = text

/-- The slot `k` is the entry that was found, and the name fits; or it has the name already, as
the found entry has the text. No other entry loses a name. -/
structure PoolServer.Retaken (now : Nat) (pool : Pool) (name : List UInt8) (ref : LeaseRef)
    (k : Nat) : Prop where
  slot : p.takenSlot m (p.view.entry ref).yiaddr now = some k
  named : ref = .one k ∧ keptText name = name ∨
    ref ≠ .one k ∧ p.wipedNames m (p.view.entry ref).yiaddr k = name ∧
      p.HadText pool (keptText name) ref
  spared : ∀ j, j < p.config.maxLeases → j ≠ k → ref ≠ .one j →
    p.wipedNames m (p.view.entry ref).yiaddr j = p.names j

end

variable {srv : Server} {env : Env} {m : Message} {time yiaddr : Nat} {name : List UInt8}

private theorem sendACK_ack {reply : Reply} (h : (sendACK env m yiaddr srv).2 = some reply) :
    reply = .ack yiaddr (ackLeaseTime m srv.config) ∧
      (sendACK env m yiaddr srv).1.leases = (addLease env.now srv.config.maxLeases
        srv.leases m.chaddr yiaddr (ackLeaseTime m srv.config)).1 := by
  unfold sendACK at h ⊢
  split at h
  next hsent =>
    rw [if_pos hsent]
    exact ⟨(some.inj h).symm, rfl⟩
  · cases h

private theorem answerRequest_ack {lease : Lease}
    (h : (answerRequest env m lease srv).2 = some (.ack yiaddr time)) :
    yiaddr = lease.yiaddr ∧
      (answerRequest env m lease srv).1.leases = (addLease env.now srv.config.maxLeases
        srv.leases m.chaddr lease.yiaddr time).1 := by
  have hanswer : answerRequest env m lease srv = sendACK env m lease.yiaddr srv := by
    revert h
    unfold answerRequest sendNAK
    split
    · split
      · exact fun _ => rfl
      · nofun
    split
    · split
      · exact fun _ => rfl
      · split <;> nofun
    · split
      · exact fun _ => rfl
      · split <;> nofun
  rw [hanswer] at h ⊢
  obtain ⟨hreply, htable⟩ := sendACK_ack h
  cases hreply
  exact ⟨rfl, htable⟩

/-- Afterwards the client's hardware address is in the slot taken and in no other. -/
theorem addLease_chaddr_iff {leases : Nat → Lease} {chaddr : Chaddr} {now n lease j : Nat}
    (hclient : chaddr ≠ 0) (hj : j < n) :
    ((addLease now n leases chaddr yiaddr lease).1 j).chaddr = chaddr ↔
      oldestExpiredLease now n (clearLease n leases chaddr yiaddr) = some j := by
  have hcleared : (clearLease n leases chaddr yiaddr j).chaddr ≠ chaddr :=
    fun hsame => clearLease_no_clash leases chaddr yiaddr hj (.inl ⟨hclient, hsame⟩)
  rw [addLease]
  cases hslot : oldestExpiredLease now n (clearLease n leases chaddr yiaddr) with
  | none => exact iff_of_false hcleared (by simp)
  | some k =>
    dsimp only
    rw [some.injEq]
    by_cases hjk : j = k
    · rw [hjk, update_self]
      exact iff_of_true rfl rfl
    · rw [update_of_ne hjk]
      exact iff_of_false hcleared (Ne.symm hjk)

section Request
variable {p : PoolServer} {ref : LeaseRef} (hkind : m.kind = .request)
  (hfind : p.view.findLease m.chaddr = some ref)
  (hack : (Dhcp.serve env m p.view).2 = some (.ack yiaddr time))
include hkind hfind hack

/-- The acknowledgement enters the lease anew, and the name goes to the entry that was found. -/
theorem PoolServer.serve_acknowledged (hfits : name.length < 128) :
    ∃ after, p.serve env (.message m (some name)) = some after ∧
      after.leases = (addLease env.now p.config.maxLeases p.leases m.chaddr
        (p.view.entry ref).yiaddr time).1 ∧
      (after.names, after.names2) =
        p.renamed m (p.view.entry ref).yiaddr (keptText name) ref := by
  have hserve : Dhcp.serve env m p.view = answerRequest env m (p.view.entry ref) p.view := by
    simp only [Dhcp.serve, hkind, hfind]
  rw [hserve] at hack
  obtain ⟨rfl, htable⟩ := answerRequest_ack hack
  have hadded : addedAddress env m p.view = some (p.view.entry ref).yiaddr := by
    simp only [addedAddress, hkind, hfind, hack]
  have hcleared : p.clearNames env m = p.wipedNames m (p.view.entry ref).yiaddr := by
    simp only [clearNames, hadded]
    rfl
  have hstored : storedName (some name) = some (keptText name) := if_pos hfits
  have hleases := hserve ▸ htable
  cases ref with
  | one i =>
    have hrename : p.rename env m (some name) =
        some (update (p.wipedNames m (p.view.entry (.one i)).yiaddr) i (keptText name),
          p.names2) := by
      simp only [rename, hkind, hfind, hstored, hcleared, map_some]
    exact ⟨_, map_eq_some_iff.mpr ⟨_, hrename, rfl⟩, hleases, rfl⟩
  | two i =>
    have hrename : p.rename env m (some name) =
        some (p.wipedNames m (p.view.entry (.two i)).yiaddr,
          update p.names2 i (keptText name)) := by
      simp only [rename, hkind, hfind, hstored, hcleared, map_some]
    exact ⟨_, map_eq_some_iff.mpr ⟨_, hrename, rfl⟩, hleases, rfl⟩

omit hack in
theorem PoolServer.serve_long_name (hlong : ¬name.length < 128) :
    p.serve env (.message m (some name)) = none := by
  have hstored : storedName (some name) = none := if_neg hlong
  have hrename : p.rename env m (some name) = none := by
    cases ref with
    | one i => simp only [rename, hkind, hfind, hstored, map_none]
    | two i => simp only [rename, hkind, hfind, hstored, map_none]
  simp only [serve, hrename, map_none]

end Request

theorem Server.findLease_one {chaddr : Chaddr} {i : Nat}
    (h : srv.findLease chaddr = some (.one i)) : i < srv.config.maxLeases := by
  simp only [Server.findLease] at h
  split at h
  next j hfirst =>
    cases h
    exact (findLease_some hfirst).1
  · obtain ⟨j, _, hj⟩ := map_eq_some_iff.mp h
    cases hj

/-- The names after the answer, against the slot that was taken. -/
theorem PoolServer.retaken_iff {p after : PoolServer} {ref : LeaseRef} {pool : Pool}
    (hclient : m.chaddr ≠ 0) (hfind : p.view.findLease m.chaddr = some ref)
    (hleases : after.leases = (addLease env.now p.config.maxLeases p.leases m.chaddr
      (p.view.entry ref).yiaddr time).1)
    (hrenamed : (after.names, after.names2) =
      p.renamed m (p.view.entry ref).yiaddr (keptText name) ref) :
    ((∃ j, j < p.config.maxLeases ∧ (after.leases j).chaddr = m.chaddr) ∧
      (∀ j, j < p.config.maxLeases → (after.leases j).chaddr = m.chaddr → after.names j = name) ∧
      (∀ j, j < p.config.maxLeases → (after.leases j).chaddr ≠ m.chaddr →
        after.names j = p.names j) ∧
      (pool = .first → after.names2 = p.names2)) ↔
    ∃ k, p.Retaken m env.now pool name ref k := by
  obtain ⟨hnames, hnames2⟩ := Prod.mk.inj hrenamed
  have hbearer (j : Nat) (hj : j < p.config.maxLeases) :
      (after.leases j).chaddr = m.chaddr ↔
        p.takenSlot m (p.view.entry ref).yiaddr env.now = some j := by
    rw [hleases]
    exact addLease_chaddr_iff hclient hj
  constructor
  · rintro ⟨⟨k, hk, hchaddr⟩, hown, hothers, hsecond⟩
    have hslot := (hbearer k hk).mp hchaddr
    have hname := hown k hk hchaddr
    have hother (j : Nat) (hj : j < p.config.maxLeases) (hne : j ≠ k) :
        after.names j = p.names j :=
      hothers j hj (fun h => hne (some.inj (((hbearer j hj).mp h).symm.trans hslot)))
    cases ref with
    | one i =>
      have hi : i < p.config.maxLeases := Server.findLease_one hfind
      simp only [hnames] at hname hother
      refine ⟨k, hslot, ?_, fun j hj hne href => ?_⟩
      · by_cases hik : i = k
        · rw [hik, update_self] at hname
          exact .inl ⟨congrArg _ hik, hname⟩
        · have hfound := hother i hi hik
          rw [update_of_ne (Ne.symm hik)] at hname
          rw [update_self] at hfound
          exact .inr ⟨fun h => hik (LeaseRef.one.inj h), hname, hfound.symm⟩
      · have hkept := hother j hj hne
        rwa [update_of_ne (fun h => href (congrArg _ h.symm))] at hkept
    | two i =>
      simp only [hnames] at hname hother
      refine ⟨k, hslot, .inr ⟨nofun, hname, fun hpool => ?_⟩, fun j hj hne _ => hother j hj hne⟩
      have hsame := congrFun (hnames2.symm.trans (hsecond hpool)) i
      exact hsame.symm.trans (update_self ..)
  · rintro ⟨k, hslot, hnamed, hspared⟩
    have hk : k < p.config.maxLeases := (oldestExpiredLease_some hslot).1
    have hbearer_iff (j : Nat) (hj : j < p.config.maxLeases) :
        (after.leases j).chaddr = m.chaddr ↔ j = k := by
      rw [hbearer j hj, hslot, some.injEq, eq_comm]
    refine ⟨⟨k, hk, (hbearer_iff k hk).mpr rfl⟩, fun j hj hsame => ?_, fun j hj hsame => ?_,
      fun hpool => ?_⟩
    · rw [(hbearer_iff j hj).mp hsame, hnames]
      rcases hnamed with ⟨rfl, hfits⟩ | ⟨hne, hname, -⟩
      · exact (update_self ..).trans hfits
      · cases ref with
        | one i => exact (update_of_ne (fun h => hne (congrArg _ h.symm)) ..).trans hname
        | two i => exact hname
    · have hne : j ≠ k := fun h => hsame ((hbearer_iff j hj).mpr h)
      rw [hnames]
      cases ref with
      | one i =>
        by_cases hji : j = i
        · rcases hnamed with ⟨href, -⟩ | ⟨-, -, hhad⟩
          · exact absurd (hji.trans (LeaseRef.one.inj href)) hne
          · rw [hji]
            exact (update_self ..).trans hhad.symm
        · exact (update_of_ne hji ..).trans
            (hspared j hj hne (fun h => hji (LeaseRef.one.inj h).symm))
      | two i => exact hspared j hj hne nofun
    · rw [hnames2]
      cases ref with
      | one i => rfl
      | two i =>
        rcases hnamed with ⟨href, -⟩ | ⟨-, -, hhad⟩
        · cases href
        · rw [← hhad hpool]
          exact update_eq_self i p.names2

/-- For a REQUEST that is acknowledged, in whatever pool and with whatever tables, the host name
lands where it belongs exactly if it has less than 128 bytes and the slot that `add_lease` takes
is the entry that was found before (or the names happen to be there already). -/
theorem host_name_lands_iff (env : Env) (m : Message) (p : PoolServer) (pool : Pool)
    (name : List UInt8) (ref : LeaseRef) (yiaddr time : Nat) (hkind : m.kind = .request)
    (hclient : m.chaddr ≠ 0) (hmatched : p.matched (.message m (some name)) = some pool)
    (hfind : (p.chosen pool).view.findLease m.chaddr = some ref)
    (hack : (Dhcp.serve env m (p.chosen pool).view).2 = some (.ack yiaddr time)) :
    (∃ after, p.round (env, .message m (some name)) = some after ∧
      NameLands pool m.chaddr name p after) ↔
    name.length < 128 ∧ ∃ k, (p.chosen pool).Retaken m env.now pool name ref k := by
  by_cases hfits : name.length < 128
  · rw [and_iff_right hfits]
    obtain ⟨served, hserved, hleases, hrenamed⟩ :=
      PoolServer.serve_acknowledged hkind hfind hack hfits
    rw [← PoolServer.retaken_iff hclient hfind hleases hrenamed, PoolServer.round, hmatched]
    cases pool with
    | first =>
      constructor
      · rintro ⟨after, hafter, hlands⟩
        cases hserved.symm.trans hafter
        have hsecond := hlands.elsewhere .second (by decide)
        exact ⟨hlands.entered, hlands.own, hlands.others, fun _ => hsecond⟩
      · rintro ⟨hentered, hown, hothers, hsecond⟩
        refine ⟨served, hserved, hentered, hown, hothers, fun other hother => ?_⟩
        cases other with
        | first => exact absurd rfl hother
        | second => exact hsecond rfl
    | second =>
      have hserved' : p.swapIn.serve env (.message m (some name)) = some served := hserved
      dsimp only
      rw [hserved', map_some]
      constructor
      · rintro ⟨after, hafter, hlands⟩
        cases hafter
        exact ⟨hlands.entered, hlands.own, hlands.others, by rintro ⟨⟩⟩
      · rintro ⟨hentered, hown, hothers, -⟩
        refine ⟨_, rfl, hentered, hown, hothers, fun other hother => ?_⟩
        cases other with
        | first => rfl
        | second => exact absurd rfl hother
  · have hdies : (p.chosen pool).serve env (.message m (some name)) = none :=
      PoolServer.serve_long_name hkind hfind hfits
    refine iff_of_false ?_ (fun h => hfits h.1)
    rintro ⟨after, hafter, -⟩
    rw [PoolServer.round, hmatched] at hafter
    cases pool with
    | first => cases hdies.symm.trans hafter
    | second =>
      have hdies' : p.swapIn.serve env (.message m (some name)) = none := hdies
      dsimp only at hafter
      rw [hdies', map_none] at hafter
      cases hafter

/-- Two clients of the first pool and a set-top box in the second. -/
def threeClients : PoolServer :=
  { startedServer vendorPool with
    leases := fun i => [⟨1, 0xC0A80102, 71⟩, ⟨3, 0xC0A80103, 72⟩].getD i Lease.blank
    leases2 := fun i => [⟨2, 0xC0A80202, 70⟩].getD i Lease.blank
    names := fun i => [[0x61], [0x63]].getD i []
    names2 := fun i => [[0x62]].getD i [] }

theorem second_client_renamed :
    ∃ after, threeClients.round (quietEnv 12, .message
        ⟨.request, 3, 0xC0A80103, none, none, none, none⟩ (some [0x64])) = some after ∧
      NameLands .first 3 [0x64] threeClients after := by
  refine (host_name_lands_iff (quietEnv 12) ⟨.request, 3, 0xC0A80103, none, none, none, none⟩
    threeClients .first [0x64] (.one 1) 0xC0A80103 86400 rfl (by decide) (by decide) (by decide)
    (by decide)).mpr ⟨by decide, 1, by decide, .inl ⟨rfl, by decide⟩, ?_⟩
  decide

/-- A set-top box with a lease in the second table renews it without its vendor class: the lease
is entered in the first table and the name in the second. -/
theorem box_name_misses_entry :
    (handle (quietEnv 12) ⟨.request, 2, 0xC0A80202, none, none, none, none⟩
      afterBox.view).2 = some (.ack 0xC0A80202 86400) ∧
    ∃ after, afterBox.round (quietEnv 12, .message
        ⟨.request, 2, 0xC0A80202, none, none, none, none⟩ (some [0x62])) = some after ∧
      ¬NameLands .first 2 [0x62] afterBox after := by
  refine ⟨by decide, _, rfl, fun hlands => ?_⟩
  exact absurd (hlands.own 0 (by decide) (by decide)) (by decide)

end EchoLife.Dhcp
