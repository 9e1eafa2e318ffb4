import EchoLife.Dhcp.LeaseTable
import EchoLife.Dhcp.Options

/-!
How long a lease lasts. The server keeps the uptime at which a lease ends in 32 bits, and tells
the client the lease time with those for renewing (T1) and rebinding (T2). The sum and the product
behind these numbers are taken modulo 2^32, and neither is checked.
-/

namespace EchoLife.Dhcp

/-! ### The end of a lease -/

def infiniteLease : Nat := 0xFFFFFFFF

/-- A lease of `lease` seconds granted at uptime `granted` ought to have expired at `now`. -/
def OughtToHaveExpired (granted lease now : Nat) : Prop :=
  lease ≠ infiniteLease ∧ granted + lease ≤ now

/-- The entry is expired from the second after its last one on; a sum that does not fit ends it at
once. -/
theorem leaseExpired_entry {granted lease now : Nat} (hlease : lease < 2 ^ 32)
    (hlater : granted ≤ now) (hnow : now < 2 ^ 32) (chaddr : Chaddr) (yiaddr : Nat) :
    leaseExpired now ⟨chaddr, yiaddr, (granted + lease) % 2 ^ 32⟩ = true ↔
      2 ^ 32 ≤ granted + lease ∨ granted + lease < now := by
  simp only [leaseExpired, decide_eq_true_eq]
  omega

/-- A granted lease is reported as it ought to be exactly at the moments other than its last
second, and only if its end fits into 32 bits. -/
theorem granted_lease_lasts_iff (n : Nat) (leases : Nat → Lease) (chaddr : Chaddr)
    (yiaddr granted lease now : Nat) (hlease : lease < 2 ^ 32)
    (hadded : (addLease granted n leases chaddr yiaddr lease).2 = true)
    (hlater : granted ≤ now) (hnow : now < 2 ^ 32) :
    ∃ i, i < n ∧
      ((addLease granted n leases chaddr yiaddr lease).1 i).chaddr = chaddr ∧
      ((addLease granted n leases chaddr yiaddr lease).1 i).yiaddr = yiaddr ∧
      ((leaseExpired now ((addLease granted n leases chaddr yiaddr lease).1 i) = true ↔
          OughtToHaveExpired granted lease now) ↔
        granted + lease < 2 ^ 32 ∧ now ≠ granted + lease) := by
  rcases addLease_inv granted n leases chaddr yiaddr lease with
    hfailed | ⟨i, hi, hexpired, htable⟩
  · rw [hfailed] at hadded
    cases hadded
  have hentry : (addLease granted n leases chaddr yiaddr lease).1 i =
      ⟨chaddr, yiaddr, (granted + lease) % 2 ^ 32⟩ := by
    rw [htable]
    exact Function.update_self _ _ _
  refine ⟨i, hi, by rw [hentry], by rw [hentry], ?_⟩
  rw [hentry, leaseExpired_entry hlease hlater hnow, OughtToHaveExpired, infiniteLease]
  -- A lease is only ever granted at a positive uptime.
  omega

theorem minute_lease_lasts :
    ∃ i, i < 2 ∧
      ((addLease 10 2 (fun _ => Lease.blank) 1 0xC0A80102 60).1 i).chaddr = 1 ∧
      ((addLease 10 2 (fun _ => Lease.blank) 1 0xC0A80102 60).1 i).yiaddr = 0xC0A80102 ∧
      ((leaseExpired 71
          ((addLease 10 2 (fun _ => Lease.blank) 1 0xC0A80102 60).1 i) = true ↔
          OughtToHaveExpired 10 60 71) ↔ 10 + 60 < 2 ^ 32 ∧ 71 ≠ 10 + 60) :=
  granted_lease_lasts_iff 2 (fun _ => Lease.blank) 1 0xC0A80102 10 60 71 (by decide)
    (by decide) (by decide) (by decide)

/-- A lease of a minute is there when the minute is over; an infinite one expires when it is
granted. -/
theorem infinite_lease_expires_at_once :
    (addLease 10 2 (fun _ => Lease.blank) 1 0xC0A80102 60).2 = true ∧
      leaseExpired (10 + 60) ((addLease 10 2 (fun _ => Lease.blank) 1 0xC0A80102 60).1 0) = false ∧
      OughtToHaveExpired 10 60 (10 + 60) ∧
    (addLease 10 2 (fun _ => Lease.blank) 1 0xC0A80102 infiniteLease).2 = true ∧
      leaseExpired 10
        ((addLease 10 2 (fun _ => Lease.blank) 1 0xC0A80102 infiniteLease).1 0) = true ∧
      ¬OughtToHaveExpired 10 infiniteLease 10 := by
  refine ⟨by decide, by decide, ⟨by decide, by decide⟩, by decide, by decide, ?_⟩
  rintro ⟨hfinite, _⟩
  exact hfinite rfl

/-! ### The times of a reply -/

def dhcpLeaseTime : UInt8 := 0x33

def dhcpMessageType : UInt8 := 0x35

def dhcpServerId : UInt8 := 0x36

def dhcpT1 : UInt8 := 0x3a

def dhcpT2 : UInt8 := 0x3b

def initPacket (type server : Nat) : List AddCall :=
  [.simple dhcpMessageType type, .simple dhcpServerId server]

/-- The times that `sendOffer` and `sendACK` add, in 32-bit arithmetic. -/
def timeOptions (leaseTime : Nat) : List AddCall :=
  [.simple dhcpLeaseTime leaseTime, .simple dhcpT1 (leaseTime / 2),
    .simple dhcpT2 (leaseTime * 7 % 2 ^ 32 / 8)]

/-- What is put into a reply before the configured options, none of which is one of the times. -/
def replyCalls (server : Nat) : Reply → List AddCall
  | .offer _ leaseTime => initPacket 2 server ++ timeOptions leaseTime
  | .ack _ leaseTime => initPacket 5 server ++ timeOptions leaseTime
  | .nak => initPacket 6 server

def addedValue (code : UInt8) : List AddCall → Option Nat
  | [] => none
  | .simple other data :: rest => if other = code then some data else addedValue code rest
  | .string _ :: rest => addedValue code rest

/-- The times are in order and T2 is within a second of seven eighths of the lease. -/
def TimersOrdered (leaseTime t1 t2 : Nat) : Prop :=
  t1 ≤ t2 ∧ t2 ≤ leaseTime ∧ 7 * leaseTime ≤ 8 * t2 + 8 ∧ 8 * t2 ≤ 7 * leaseTime + 8

private theorem timersOrdered_iff {leaseTime : Nat} (hpos : 1 ≤ leaseTime) :
    TimersOrdered leaseTime (leaseTime / 2) (leaseTime * 7 % 2 ^ 32 / 8) ↔
      7 * leaseTime < 2 ^ 32 := by
  constructor
  · rintro ⟨_, _, hclose, _⟩
    -- A product that wraps loses at least 2^32, and T2 an eighth of that.
    by_contra hwraps
    omega
  · intro hfits
    rw [Nat.mod_eq_of_lt (by omega)]
    exact ⟨by omega, by omega, by omega, by omega⟩

/-- An offer or acknowledgement with a lease time has a T1 and a T2, and they are as they should
be exactly if seven times the lease time fits into 32 bits. -/
theorem renewal_timers_ordered_iff (server leaseTime : Nat) (reply : Reply)
    (htime : addedValue dhcpLeaseTime (replyCalls server reply) = some leaseTime)
    (hpos : 1 ≤ leaseTime) (hlt : leaseTime < 2 ^ 32) :
    ∃ t1 t2, addedValue dhcpT1 (replyCalls server reply) = some t1 ∧
      addedValue dhcpT2 (replyCalls server reply) = some t2 ∧
      (TimersOrdered leaseTime t1 t2 ↔ 7 * leaseTime < 2 ^ 32) := by
  cases reply with
  | offer yiaddr time =>
    obtain rfl : time = leaseTime := Option.some.inj htime
    exact ⟨_, _, rfl, rfl, timersOrdered_iff hpos⟩
  | ack yiaddr time =>
    obtain rfl : time = leaseTime := Option.some.inj htime
    exact ⟨_, _, rfl, rfl, timersOrdered_iff hpos⟩
  | nak => cases htime

theorem day_offer_timers_ordered :
    ∃ t1 t2, addedValue dhcpT1 (replyCalls 0xC0A80101 (.offer 0xC0A80102 86400)) = some t1 ∧
      addedValue dhcpT2 (replyCalls 0xC0A80101 (.offer 0xC0A80102 86400)) = some t2 ∧
      (TimersOrdered 86400 t1 t2 ↔ 7 * 86400 < 2 ^ 32) :=
  renewal_timers_ordered_iff 0xC0A80101 86400 (.offer 0xC0A80102 86400) rfl (by decide) (by decide)

def endlessLeases : Server :=
  { twoLeases with config := { twoLeases.config with lease := infiniteLease } }

/-- The offer of an endless lease tells the client to rebind long before it is to
renew. -/
theorem endless_offer_rebinds_first :
    (handle ⟨1, fun _ => true, none, true⟩
      ⟨.discover, 1, 0, none, none, none, none⟩ endlessLeases).2 =
        some (.offer 0xC0A80102 infiniteLease) ∧
    addedValue dhcpT1 (replyCalls 0xC0A80101 (.offer 0xC0A80102 infiniteLease)) = some 2147483647 ∧
    addedValue dhcpT2 (replyCalls 0xC0A80101 (.offer 0xC0A80102 infiniteLease)) = some 536870911 ∧
    ¬TimersOrdered infiniteLease 2147483647 536870911 := by
  refine ⟨by decide, rfl, rfl, ?_⟩
  rintro ⟨horder, _⟩
  exact absurd horder (by decide)

end EchoLife.Dhcp
