import EchoLife.Base.Run
import EchoLife.Dhcp.Effects
import Mathlib

/-!
The lease table over whole runs of the server. An address and a hardware address
are keys of the table: zero marks a free entry, every other key occurs at most
once.
-/

namespace EchoLife.Dhcp

open Function Run

variable {n k : Nat}

section Keys

variable {K : Type*} [Zero K]

def DistinctKeys (n : Nat) (key : Nat → K) : Prop :=
  ∀ i j, i < n → j < n → i ≠ j → key i = key j → key i = 0

theorem DistinctKeys.zeroed {key fewer : Nat → K} (h : DistinctKeys n key)
    (hfewer : ∀ i, i < n → fewer i = key i ∨ fewer i = 0) : DistinctKeys n fewer := by
  intro i j hi hj hne hsame
  rcases hfewer i hi with hkept | hzero
  · rcases hfewer j hj with hkept' | hzero'
    · rw [hkept] at hsame ⊢
      exact h i j hi hj hne (hsame.trans hkept')
    · exact hsame.trans hzero'
  · exact hzero

theorem DistinctKeys.update {key : Nat → K} (h : DistinctKeys n key)
    {value : K} (hnew : value = 0 ∨ ∀ j, j < n → j ≠ k → key j ≠ value) :
    DistinctKeys n (update key k value) := by
  intro i j hi hj hne hsame
  by_cases hik : i = k
  · subst hik
    rw [update_self, update_of_ne hne.symm] at hsame
    rw [update_self]
    exact hnew.elim id (fun habsent => absurd hsame.symm (habsent j hj hne.symm))
  rw [update_of_ne hik] at hsame ⊢
  by_cases hjk : j = k
  · subst hjk
    rw [update_self] at hsame
    exact hnew.elim hsame.trans (fun habsent => absurd hsame (habsent i hi hne))
  · rw [update_of_ne hjk] at hsame
    exact h i j hi hj hne hsame

end Keys

/-- `add_lease` for an offer or an acknowledgement, and the rewriting of one entry for a DECLINE
or a RELEASE. -/
inductive LeaseCall
  | add (now : Nat) (chaddr : Chaddr) (yiaddr lease : Nat)
  | decline (now entry declineTime : Nat)
  | release (now entry : Nat)

def LeaseCall.apply (maxLeases : Nat) : LeaseCall → (Nat → Lease) → Nat → Lease
  | add now chaddr yiaddr lease, leases =>
    (addLease now maxLeases leases chaddr yiaddr lease).1
  | decline now entry declineTime, leases =>
    update leases entry { leases entry with
      chaddr := 0
      expires := (now + declineTime) % 2 ^ 32 }
  | release now entry, leases =>
    update leases entry { leases entry with expires := now % 2 ^ 32 }

structure WellFormed (n : Nat) (leases : Nat → Lease) : Prop where
  yiaddr : DistinctKeys n (fun i => (leases i).yiaddr)
  chaddr : DistinctKeys n (fun i => (leases i).chaddr)

theorem wellFormed_blank (n : Nat) : WellFormed n (fun _ => Lease.blank) :=
  ⟨fun _ _ _ _ _ _ => rfl, fun _ _ _ _ _ _ => rfl⟩

variable {leases : Nat → Lease} {entry : Lease}

theorem WellFormed.update (h : WellFormed n leases)
    (hyiaddr : entry.yiaddr = 0 ∨ ∀ j, j < n → j ≠ k → (leases j).yiaddr ≠ entry.yiaddr)
    (hchaddr : entry.chaddr = 0 ∨ ∀ j, j < n → j ≠ k → (leases j).chaddr ≠ entry.chaddr) :
    WellFormed n (update leases k entry) := by
  have hfields : ∀ {K : Type} (field : Lease → K),
      (fun i => field (Function.update leases k entry i)) =
        Function.update (fun i => field (leases i)) k (field entry) := by
    intro K field
    funext i
    exact apply_update (fun _ => field) leases k entry i
  constructor
  · rw [hfields]
    exact h.yiaddr.update hyiaddr
  · rw [hfields]
    exact h.chaddr.update hchaddr

theorem WellFormed.clear (h : WellFormed n leases) (chaddr : Chaddr) (yiaddr : Nat) :
    WellFormed n (clearLease n leases chaddr yiaddr) := by
  have hcases := clearLease_cases n leases chaddr yiaddr
  constructor
  · apply h.yiaddr.zeroed
    exact fun i _ => (hcases i).imp (congrArg Lease.yiaddr) (congrArg Lease.yiaddr)
  · apply h.chaddr.zeroed
    exact fun i _ => (hcases i).imp (congrArg Lease.chaddr) (congrArg Lease.chaddr)

theorem addLease_inv (now n : Nat) (leases : Nat → Lease) (chaddr : Chaddr) (yiaddr lease : Nat) :
    addLease now n leases chaddr yiaddr lease = (clearLease n leases chaddr yiaddr, false) ∨
    ∃ i, i < n ∧ (clearLease n leases chaddr yiaddr i).expires < now ∧
      addLease now n leases chaddr yiaddr lease =
        (update (clearLease n leases chaddr yiaddr) i
          ⟨chaddr, yiaddr, (now + lease) % 2 ^ 32⟩, true) := by
  simp only [addLease]
  cases holdest : oldestExpiredLease now n (clearLease n leases chaddr yiaddr) with
  | none => exact .inl rfl
  | some i =>
    obtain ⟨hi, hexpired⟩ := oldestExpiredLease_some holdest
    exact .inr ⟨i, hi, hexpired, rfl⟩

theorem WellFormed.add {leases : Nat → Lease} (h : WellFormed n leases)
    (now : Nat) (chaddr : Chaddr) (yiaddr lease : Nat) :
    WellFormed n (addLease now n leases chaddr yiaddr lease).1 := by
  have hcleared := h.clear chaddr yiaddr
  rcases addLease_inv now n leases chaddr yiaddr lease with hfailed | ⟨i, _, _, hadded⟩
  · rw [hfailed]
    exact hcleared
  rw [hadded]
  apply hcleared.update
  · by_cases hzero : yiaddr = 0
    · exact .inl hzero
    refine .inr ?_
    intro j hj _ hsame
    exact clearLease_no_clash leases chaddr yiaddr hj (.inr ⟨hzero, hsame⟩)
  · by_cases hzero : chaddr = 0
    · exact .inl hzero
    refine .inr ?_
    intro j hj _ hsame
    exact clearLease_no_clash leases chaddr yiaddr hj (.inl ⟨hzero, hsame⟩)

theorem WellFormed.rewrite (h : WellFormed n leases) (hyiaddr : entry.yiaddr = (leases k).yiaddr)
    (hchaddr : entry.chaddr = (leases k).chaddr ∨ entry.chaddr = 0) :
    WellFormed n (Function.update leases k entry) := by
  constructor
  · apply h.yiaddr.zeroed
    intro i _
    left
    by_cases hik : i = k
    · subst hik
      rw [update_self, hyiaddr]
    · rw [update_of_ne hik]
  · apply h.chaddr.zeroed
    intro i _
    by_cases hik : i = k
    · subst hik
      rw [update_self]
      exact hchaddr
    · rw [update_of_ne hik]
      exact .inl rfl

theorem WellFormed.apply (h : WellFormed n leases) (call : LeaseCall) :
    WellFormed n (call.apply n leases) := by
  cases call with
  | add now chaddr yiaddr lease => exact h.add now chaddr yiaddr lease
  | decline now entry declineTime => exact h.rewrite rfl (.inr rfl)
  | release now entry => exact h.rewrite rfl (.inl rfl)

/-- After an `add_lease` that found an entry, for a pair that is not all zero: one entry holds the
pair, and the others that neither compete with it nor have expired are as before. -/
structure Entered (now n : Nat) (chaddr : Chaddr) (yiaddr : Nat)
    (before after : Nat → Lease) : Prop where
  holds_once : ∃! i, i < n ∧ (after i).chaddr = chaddr ∧ (after i).yiaddr = yiaddr
  others_kept : ∀ i, i < n → ¬(before i).Clashes chaddr yiaddr →
    leaseExpired now (before i) = false → after i = before i

private theorem entered_of_added {now : Nat} {chaddr : Chaddr} {yiaddr lease : Nat}
    (hpair : chaddr ≠ 0 ∨ yiaddr ≠ 0)
    (hadded : (addLease now n leases chaddr yiaddr lease).2 = true) :
    Entered now n chaddr yiaddr leases (addLease now n leases chaddr yiaddr lease).1 := by
  rcases addLease_inv now n leases chaddr yiaddr lease with
    hfailed | ⟨i, hi, hexpired, htable⟩
  · rw [hfailed] at hadded
    cases hadded
  rw [htable]
  constructor
  · refine ⟨i, ⟨hi, by simp, by simp⟩, ?_⟩
    rintro j ⟨hj, hchaddr, hyiaddr⟩
    by_contra hne
    simp only [update_of_ne hne] at hchaddr hyiaddr
    exact clearLease_no_clash leases chaddr yiaddr hj
      (hpair.imp (fun h => ⟨h, hchaddr⟩) (fun h => ⟨h, hyiaddr⟩))
  · intro j _ hclash hactive
    have hkept := clearLease_of_no_clash (n := n) hclash
    have hne : j ≠ i := by
      rintro rfl
      rw [hkept] at hexpired
      simp only [leaseExpired, decide_eq_false_iff_not] at hactive
      exact hactive hexpired
    exact (update_of_ne hne _ _).trans hkept

/-- In every table reachable from the empty one addresses and hardware addresses occur once, and
every `add_lease` that finds an entry enters its pair. -/
theorem lease_table_well_formed (n : Nat) (leases : Nat → Lease)
    (hreach : Reaches (LeaseCall.apply n) (fun _ _ => True) (fun _ => Lease.blank) leases) :
    WellFormed n leases ∧
    ∀ (now : Nat) (chaddr : Chaddr) (yiaddr lease : Nat), chaddr ≠ 0 ∨ yiaddr ≠ 0 →
      (addLease now n leases chaddr yiaddr lease).2 = true →
      Entered now n chaddr yiaddr leases (addLease now n leases chaddr yiaddr lease).1 := by
  constructor
  · apply hreach.invariant (wellFormed_blank n)
    intro call now _ h
    exact h.apply call
  · intro now chaddr yiaddr lease hpair hadded
    exact entered_of_added hpair hadded

theorem offer_then_release_well_formed :
    WellFormed 4 (LeaseCall.apply 4 (.release 12 0)
      (LeaseCall.apply 4 (.add 10 1 0xC0A80102 60) (fun _ => Lease.blank))) :=
  (lease_table_well_formed 4 _ (.step _ (.step _ .start trivial) trivial)).1

theorem Served.wellFormed {env : Env} {m : Message} {srv served : Server}
    (h : Served env m srv served) (hfirst : WellFormed srv.config.maxLeases srv.leases)
    (hsecond : WellFormed srv.config.maxLeases srv.leases2) :
    WellFormed srv.config.maxLeases served.leases ∧
      WellFormed srv.config.maxLeases served.leases2 := by
  cases h with
  | kept _ _ => exact ⟨hfirst, hsecond⟩
  | entered _ _ yiaddr lease => exact ⟨hfirst.add env.now m.chaddr yiaddr lease, hsecond⟩
  | rewritten ref entry _ hyiaddr hchaddr =>
    cases ref with
    | one i => exact ⟨hfirst.rewrite hyiaddr hchaddr, hsecond⟩
    | two i => exact ⟨hfirst, hsecond.rewrite hyiaddr hchaddr⟩

def Server.round (input : Env × Message) (srv : Server) : Server :=
  (handle input.1 input.2 srv).1

/-- In every state the server reaches, both tables are well formed. The first pool's limit counts
for either. -/
theorem server_tables_well_formed (start srv : Server)
    (hfirst : start.leases = fun _ => Lease.blank) (hsecond : start.leases2 = fun _ => Lease.blank)
    (hreach : Reaches Server.round (fun _ _ => True) start srv) :
    WellFormed start.config.maxLeases srv.leases ∧
      WellFormed start.config.maxLeases srv.leases2 := by
  have hinv : srv.config.maxLeases = start.config.maxLeases ∧
      WellFormed start.config.maxLeases srv.leases ∧
      WellFormed start.config.maxLeases srv.leases2 := by
    apply hreach.invariant (P := fun srv : Server =>
      srv.config.maxLeases = start.config.maxLeases ∧
      WellFormed start.config.maxLeases srv.leases ∧
      WellFormed start.config.maxLeases srv.leases2)
    · rw [hfirst, hsecond]
      exact ⟨rfl, wellFormed_blank _, wellFormed_blank _⟩
    rintro ⟨env, m⟩ now _ ⟨hlimit, hone, htwo⟩
    rw [← hlimit] at hone htwo
    simp only [Server.round, handle]
    split
    · have htables := (serve_served env m now.swapIn).wellFormed htwo htwo
      exact ⟨hlimit, hlimit ▸ hone, hlimit ▸ htables.1⟩
    split
    · have hserved := serve_served env m now
      have htables := hserved.wellFormed hone htwo
      exact ⟨hserved.maxLeases.trans hlimit, hlimit ▸ htables⟩
    · exact ⟨hlimit, hlimit ▸ hone, hlimit ▸ htwo⟩
  exact hinv.2

def twoLeases : Server where
  config := {
    server := 0xC0A80101
    start := 0xC0A80102
    stop := 0xC0A80103
    stop_lt := by decide
    reservedAddr := []
    router := none
    vendorid := none
    lease := 60
    maxLeases := 2
    declineTime := 60
    offerTime := 60
    minLease := 60 }
  config2 := {
    server := 0
    start := 0
    stop := 0
    stop_lt := by decide
    reservedAddr := []
    router := none
    vendorid := none
    lease := 0
    maxLeases := 0
    declineTime := 0
    offerTime := 0
    minLease := 0 }
  leases := fun _ => Lease.blank
  leases2 := fun _ => Lease.blank
  enblSrv1 := true
  enblSrv2 := false

/-- Two pools, the second one for clients of the vendor class `B`. -/
def twoPools : Server :=
  { twoLeases with
    config2 := { twoLeases.config with
      start := 0xC0A80111
      stop := 0xC0A80112
      stop_lt := by decide
      vendorid := some [66] }
    enblSrv2 := true }

/-- Client 7 gets a lease of the first pool and client 8 one of the second. Then the first is
released, and client 9 gets its address. -/
def servedPools : Server :=
  run Server.round
    [(⟨1, fun _ => true, none, true⟩, ⟨.discover, 7, 0, none, none, none, none⟩),
      (⟨2, fun _ => true, none, true⟩, ⟨.request, 7, 0, some 0xC0A80102, none, none, none⟩),
      (⟨3, fun _ => true, none, true⟩, ⟨.discover, 8, 0, none, none, none, some [66]⟩),
      (⟨4, fun _ => true, none, true⟩, ⟨.request, 8, 0, some 0xC0A80111, none, none, some [66]⟩),
      (⟨5, fun _ => true, none, true⟩, ⟨.release, 7, 0xC0A80102, none, none, none, none⟩),
      (⟨6, fun _ => true, none, true⟩,
        ⟨.discover, 9, 0, some 0xC0A80102, none, none, none⟩)] twoPools

theorem servedPools_tables_well_formed :
    ((servedPools.leases 0).chaddr = 9 ∧ (servedPools.leases 0).yiaddr = 0xC0A80102 ∧
      (servedPools.leases2 0).chaddr = 8 ∧ (servedPools.leases2 0).yiaddr = 0xC0A80111) ∧
    WellFormed 2 servedPools.leases ∧ WellFormed 2 servedPools.leases2 :=
  ⟨by decide, server_tables_well_formed twoPools servedPools rfl rfl
    (Reaches.start.run (fun _ _ _ => trivial))⟩

/-- A client without a hardware address has the first free entry as its lease. Its REQUEST for no
address enters the blank pair, which the other free entry has as well. -/
theorem blank_pair_held_twice :
    (handle ⟨1, fun _ => true, none, true⟩ ⟨.request, 0, 0, none, none, none, none⟩
      twoLeases).2 = some (.ack 0 60) ∧
    (handle ⟨1, fun _ => true, none, true⟩ ⟨.request, 0, 0, none, none, none, none⟩
      twoLeases).1.leases = (addLease 1 2 (fun _ => Lease.blank) 0 0 60).1 ∧
    (addLease 1 2 (fun _ => Lease.blank) 0 0 60).2 = true ∧
    ¬∃! i, i < 2 ∧ ((addLease 1 2 (fun _ => Lease.blank) 0 0 60).1 i).chaddr = 0 ∧
      ((addLease 1 2 (fun _ => Lease.blank) 0 0 60).1 i).yiaddr = 0 := by
  refine ⟨by decide, rfl, by decide, ?_⟩
  intro hunique
  have hsame : 0 = 1 := hunique.unique (by decide) (by decide)
  cases hsame

end EchoLife.Dhcp
