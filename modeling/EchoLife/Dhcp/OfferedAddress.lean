import EchoLife.Dhcp.AddressSearch
import EchoLife.Dhcp.LeaseTable

/-!
Which address `sendOffer` offers, for any pool and any lease table: that of the client's entry,
the one asked for, a free one, or one whose lease has expired. The four sources make different
checks, and the address of the server is compared before it is read anew.
-/

namespace EchoLife.Dhcp

open Iterate Option

section Offer
variable (fuel : Nat) (env : Env) (m : Message) (leases : Nat → Lease) (pool : AddressPool)
  (server : Nat)

def AddressPool.sweep (checkExpired : Bool) : Sweep :=
  ⟨pool, fun _ => env, leases, checkExpired, server⟩

/-- `find_address`, and the server's address as it is left; `none` after `fuel` turns without an
end. -/
def AddressPool.findAddress (checkExpired : Bool) : Option (Nat × Nat) :=
  let c := pool.sweep env leases server checkExpired
  if c.Halted (c.after fuel) then some ((c.after fuel).result, (c.after fuel).server)
  else none

def AddressPool.requestable (req : Nat) : Bool :=
  pool.start ≤ req && req ≤ pool.stop && pool.reservedIp req &&
    untaken env.now pool.maxLeases leases true req

def AddressPool.offerAddress : Option (Nat × Nat) :=
  match findLeaseByChaddr pool.maxLeases leases m.chaddr with
  | some i => some ((leases i).yiaddr, server)
  | none =>
    match m.requested.filter (pool.requestable env leases) with
    | some req =>
      if req ≠ server ∧ req ≠ pool.router.getD 0 then some (req, server)
      else pool.findAddress fuel env leases server false
    | none =>
      (pool.findAddress fuel env leases server false).bind (fun found =>
        if found.1 = 0 then pool.findAddress fuel env leases found.2 true
        else some found)

/-- `sendOffer`: the address of the offer that is sent, and that of the server then. -/
def AddressPool.sendOffer (offerTime : Nat) : Option (Nat × Nat) :=
  (pool.offerAddress fuel env m leases server).filter (fun offered =>
    offered.1 ≠ 0 &&
      (addLease env.now pool.maxLeases leases m.chaddr offered.1 offerTime).2 && env.sendOk)

end Offer

/-! ### Legitimate addresses -/

namespace Sweep
variable {c : Sweep}

end Sweep

/-! ### The offer -/

section Offered
variable {pool : AddressPool} {env : Env} {m : Message} {leases : Nat → Lease}
  {checkExpired : Bool} {server : Nat}

end Offered

def discover (requested : Option Nat) : Message :=
  ⟨.discover, 7, 0, requested, none, none, none⟩

theorem AddressPool.findAddress_of_finds {pool : AddressPool} {env : Env}
    {leases : Nat → Lease} {checkExpired : Bool} {server value own : Nat}
    (h : (pool.sweep env leases server checkExpired).Finds
      (pool.sweep env leases server checkExpired).start value own) :
    ∃ n, ∀ fuel, n ≤ fuel →
      pool.findAddress fuel env leases server checkExpired = some (value, own) := by
  obtain ⟨n, hhalted, rfl, rfl⟩ := h
  refine ⟨n, fun fuel hle => ?_⟩
  have hfuel := halted_of_le (fun s hs => by rw [Sweep.step_halted hs]; exact hs) hle hhalted
  rw [iterate_eq_of_halted (fun _ => Sweep.step_halted) hhalted hfuel]
  exact if_pos hfuel

theorem AddressPool.offerAddress_server (env : Env) (m : Message) (leases : Nat → Lease)
    (config : ServerConfig) :
    ∃ fuel, config.pool.offerAddress fuel env m leases config.server =
      some ((Dhcp.offerAddress env m leases config).1,
        (Dhcp.offerAddress env m leases config).2.server) := by
  obtain ⟨after, hafter⟩ := (findAddress_spec env leases false config).1
  have hpool : (Dhcp.findAddress env leases false config).2.pool = config.pool := by
    rw [hafter]
    rfl
  obtain ⟨n, hn⟩ := findAddress_of_finds (findAddress_search env leases false config)
  obtain ⟨k, hk⟩ := findAddress_of_finds (findAddress_search env leases true
    (Dhcp.findAddress env leases false config).2)
  have hfirst := hn (max n k) (le_max_left n k)
  have hsecond := hk (max n k) (le_max_right n k)
  rw [hpool] at hsecond
  refine ⟨max n k, ?_⟩
  simp only [offerAddress, Dhcp.offerAddress, hfirst, bind_some,
    show config.pool.maxLeases = config.maxLeases from rfl,
    show config.pool.requestable env leases = Dhcp.requestable env.now config leases from rfl,
    show config.pool.router = config.router from rfl]
  cases findLeaseByChaddr config.maxLeases leases m.chaddr with
  | some i => rfl
  | none =>
    cases m.requested.filter (Dhcp.requestable env.now config leases) with
    | some req =>
      by_cases hother : req ≠ config.server ∧ req ≠ config.router.getD 0
      · simp only [if_pos hother]
      · simp only [if_neg hother]
    | none =>
      by_cases hzero : (Dhcp.findAddress env leases false config).1 = 0
      · simp only [if_pos hzero, hsecond]
      · simp only [if_neg hzero]

end EchoLife.Dhcp
