import EchoLife.Base.Iterate
import EchoLife.Dhcp.Effects

/-!
The search for a free address as the source has it: a 32-bit number that is counted up as long as
it is not above the end of the pool, so that a pool which ends at 255.255.255.255 is never left.
Probing an address takes time, and reads the address of the server anew.
-/

namespace EchoLife.Dhcp

open Iterate

structure AddressPool where
  start : Nat
  stop : Nat
  stop_lt : stop < 2 ^ 32
  reservedAddr : List Nat
  router : Option Nat
  maxLeases : Nat

def ServerConfig.pool (config : ServerConfig) : AddressPool where
  start := config.start
  stop := config.stop
  stop_lt := by
    have hstop := config.stop_lt
    omega
  reservedAddr := config.reservedAddr
  router := config.router
  maxLeases := config.maxLeases

/-- `reservedIp`, which returns 0 for a reserved address. -/
def AddressPool.reservedIp (pool : AddressPool) (ip : Nat) : Bool :=
  !((pool.reservedAddr.take maxReservedIp).takeWhile (· ≠ 0)).contains ip

/-- The addresses that `find_address` passes over without a look at the leases. -/
def AddressPool.Skips (pool : AddressPool) (server addr : Nat) : Prop :=
  addr % 256 = 0 ∨ addr % 256 = 255 ∨ pool.reservedIp addr = false ∨ addr = server ∨
    addr = pool.router.getD 0

instance (pool : AddressPool) (server addr : Nat) : Decidable (pool.Skips server addr) :=
  inferInstanceAs (Decidable (_ ∨ _))

/-- The variables of `find_address`: `visits` counts the addresses looked at, `server` is the
server's address as read last. -/
structure Search where
  addr : Nat
  server : Nat
  visits : Nat
  ret : Option Nat

def Search.next (s : Search) (server : Nat) : Search :=
  { s with addr := (s.addr + 1) % 2 ^ 32, server := server, visits := s.visits + 1 }

def Search.result (s : Search) : Nat :=
  s.ret.getD 0

/-- A call of `find_address`: the pool, what the server meets at each address, the leases, the
argument, and the server's address as read last. -/
structure Sweep where
  pool : AddressPool
  env : Nat → Env
  leases : Nat → Lease
  checkExpired : Bool
  server : Nat

namespace Sweep
variable (c : Sweep)

def start : Search :=
  ⟨c.pool.start, c.server, 0, none⟩

def Halted (s : Search) : Prop :=
  s.ret ≠ none ∨ c.pool.stop < s.addr

instance (s : Search) : Decidable (c.Halted s) :=
  inferInstanceAs (Decidable (_ ∨ _))

def Untaken (s : Search) : Prop :=
  untaken (c.env s.visits).now c.pool.maxLeases c.leases c.checkExpired s.addr = true

instance (s : Search) : Decidable (c.Untaken s) :=
  inferInstanceAs (Decidable (_ = _))

def Accepts (s : Search) : Prop :=
  ¬c.pool.Skips s.server s.addr ∧ c.Untaken s ∧ (c.env s.visits).arpping s.addr = true

def step (s : Search) : Search :=
  if c.Halted s then s
  else if c.pool.Skips s.server s.addr then s.next s.server
  else if c.Untaken s then
    -- `check_ip` reads the address of the interface before it probes
    let server := (c.env s.visits).readInterface.getD s.server
    if (c.env s.visits).arpping s.addr then { s with server := server, ret := some s.addr }
    else s.next server
  else s.next s.server

def after (k : Nat) : Search :=
  c.step^[k] c.start

variable {c}

variable {s : Search}

theorem step_halted (h : c.Halted s) : c.step s = s :=
  if_pos h

theorem step_accepts (hopen : ¬c.Halted s) (h : c.Accepts s) :
    c.step s =
      { s with
        server := (c.env s.visits).readInterface.getD s.server
        ret := some s.addr } := by
  obtain ⟨hskip, huntaken, hfree⟩ := h
  simp only [step, if_neg hopen, if_neg hskip, if_pos huntaken, if_pos hfree]

theorem step_passes (hopen : ¬c.Halted s) (h : ¬c.Accepts s) :
    ∃ server, c.step s = s.next server := by
  simp only [step, if_neg hopen]
  split
  · exact ⟨_, rfl⟩
  rename_i hskip
  split
  next huntaken =>
    split
    next hfree =>
      exact absurd ⟨hskip, huntaken, hfree⟩ h
    · exact ⟨_, rfl⟩
  · exact ⟨_, rfl⟩

theorem open_of_le {addr server visits : Nat} (h : addr ≤ c.pool.stop) :
    ¬c.Halted ⟨addr, server, visits, none⟩ := by
  rintro (hret | hend)
  · exact hret rfl
  · exact absurd h (not_le.mpr hend)

section

variable (hle : c.pool.start ≤ c.pool.stop) {k : Nat}
include hle

theorem after_open
    (hopen : ∀ j, j < k → ¬c.Accepts (c.after j) ∧ (c.pool.start + j) % 2 ^ 32 ≤ c.pool.stop) :
    ∃ last, c.after k = ⟨(c.pool.start + k) % 2 ^ 32, last, k, none⟩ := by
  induction k with
  | zero =>
    have hstart : c.pool.start % 2 ^ 32 = c.pool.start :=
      Nat.mod_eq_of_lt (lt_of_le_of_lt hle c.pool.stop_lt)
    exact ⟨c.server, by rw [add_zero, hstart]; rfl⟩
  | succ k ih =>
    obtain ⟨last, hstate⟩ := ih (fun j hj => hopen j (by omega))
    obtain ⟨hpasses, hinside⟩ := hopen k (by omega)
    rw [hstate] at hpasses
    obtain ⟨next, hnext⟩ := step_passes (open_of_le hinside) hpasses
    refine ⟨next, ?_⟩
    rw [after, Function.iterate_succ_apply', ← after, hstate, hnext]
    simp only [Search.next, Nat.mod_add_mod, add_assoc]

section

variable (hinside : ∀ j, j ≤ k → (c.pool.start + j) % 2 ^ 32 ≤ c.pool.stop)
  (haccepts : c.Accepts (c.after k))
include hinside haccepts

private theorem after_accepts (hbefore : ∀ j, j < k → ¬c.Accepts (c.after j)) :
    (c.after (k + 1)).ret = some ((c.pool.start + k) % 2 ^ 32) ∧
      (c.pool.start + k) % 2 ^ 32 ≠ 0 := by
  obtain ⟨last, hstate⟩ := after_open hle (fun j hj => ⟨hbefore j hj, hinside j hj.le⟩)
  rw [hstate] at haccepts
  rw [after, Function.iterate_succ_apply', ← after, hstate,
    step_accepts (open_of_le (hinside k le_rfl)) haccepts]
  refine ⟨rfl, ?_⟩
  intro hzero
  exact haccepts.1 (.inl (by simp only [hzero]))

/-- If an address is accepted before the pool is left, the search ends with the first such
address. -/
theorem ends_of_accepts : ∃ n, c.Halted (c.after n) ∧ (c.after n).result ≠ 0 := by
  classical
  have hexists : ∃ k, c.Accepts (c.after k) := ⟨k, haccepts⟩
  have hfirst : Nat.find hexists ≤ k := Nat.find_min' hexists haccepts
  obtain ⟨hret, hnonzero⟩ := after_accepts hle
    (fun j hj => hinside j (hj.trans hfirst)) (Nat.find_spec hexists)
    (fun j hj => Nat.find_min hexists hj)
  refine ⟨Nat.find hexists + 1, .inl ?_, ?_⟩
  · rw [hret]
    exact Option.some_ne_none _
  · rw [Search.result, hret]
    exact hnonzero

end

end

theorem inside_of_le {k : Nat} (h : c.pool.start + k ≤ c.pool.stop) :
    ∀ j, j ≤ k → (c.pool.start + j) % 2 ^ 32 ≤ c.pool.stop := by
  intro j hj
  exact (Nat.mod_le _ _).trans (by omega)

theorem turned_down (hle : c.pool.start ≤ c.pool.stop) {n : Nat} (hhalted : c.Halted (c.after n))
    (hzero : (c.after n).result = 0) {addr : Nat} (hlow : c.pool.start ≤ addr)
    (hhigh : addr ≤ c.pool.stop) : ¬c.Accepts (c.after (addr - c.pool.start)) := by
  intro haccepts
  obtain ⟨m, hended, hfound⟩ := ends_of_accepts hle (inside_of_le (by omega)) haccepts
  have hsame : c.after n = c.after m :=
    iterate_eq_of_halted (fun _ => step_halted) hhalted hended
  rw [hsame] at hzero
  exact hfound hzero

def Ends (c : Sweep) : Prop :=
  Returns c.step c.Halted c.start

private theorem ends_below_top (hle : c.pool.start ≤ c.pool.stop)
    (hstop : c.pool.stop < 2 ^ 32 - 1) : c.Ends := by
  by_cases hexists : ∃ k, k < c.pool.stop + 1 - c.pool.start ∧ c.Accepts (c.after k)
  · obtain ⟨k, hk, haccepts⟩ := hexists
    obtain ⟨n, hhalted, _⟩ := ends_of_accepts hle (inside_of_le (by omega)) haccepts
    exact ⟨n, hhalted⟩
  obtain ⟨last, hstate⟩ := @after_open c hle (c.pool.stop + 1 - c.pool.start) (by
    intro j hj
    exact ⟨fun haccepts => hexists ⟨j, hj, haccepts⟩, (Nat.mod_le _ _).trans (by omega)⟩)
  refine ⟨c.pool.stop + 1 - c.pool.start, .inr ?_⟩
  rw [← after, hstate]
  simp only
  omega

theorem ends_at_top_iff (hle : c.pool.start ≤ c.pool.stop) (hstop : c.pool.stop = 2 ^ 32 - 1) :
    c.Ends ↔ ∃ k, c.Accepts (c.after k) := by
  have hinside : ∀ j, (c.pool.start + j) % 2 ^ 32 ≤ c.pool.stop := by
    omega
  constructor
  · rintro ⟨n, hhalted⟩
    by_contra hnone
    obtain ⟨last, hstate⟩ := @after_open c hle n
      (fun j _ => ⟨fun haccepts => hnone ⟨j, haccepts⟩, hinside j⟩)
    rw [← after, hstate] at hhalted
    exact open_of_le (hinside n) hhalted
  · rintro ⟨k, haccepts⟩
    obtain ⟨n, hhalted, _⟩ := ends_of_accepts hle (fun j _ => hinside j) haccepts
    exact ⟨n, hhalted⟩

/-- From `s` on the search ends with this value, and with this address of the server. -/
def Finds (c : Sweep) (s : Search) (value server : Nat) : Prop :=
  ∃ n, c.Halted (c.step^[n] s) ∧ (c.step^[n] s).result = value ∧ (c.step^[n] s).server = server

theorem Finds.of_step {next : Search} {value server : Nat} (hstep : c.step s = next)
    (h : c.Finds next value server) : c.Finds s value server := by
  obtain ⟨n, hhalted, hvalue, hserver⟩ := h
  subst hstep
  exact ⟨n + 1, hhalted, hvalue, hserver⟩

end Sweep

/-! ### The server model -/

/-- The call of `find_address` while what the server meets stays the same. -/
def ServerConfig.sweep (config : ServerConfig) (env : Env) (leases : Nat → Lease)
    (checkExpired : Bool) : Sweep :=
  ⟨config.pool, fun _ => env, leases, checkExpired, config.server⟩

section

variable (env : Env) (leases : Nat → Lease) (checkExpired : Bool)

/-- From an address of the pool on, the search finds what the loop over the rest of the pool
finds. The settings at the start differ in the server's address only. -/
theorem findAddressLoop_search (server count addr visits : Nat) (config : ServerConfig)
    (hcount : count = config.stop + 1 - addr) :
    Sweep.Finds ⟨config.pool, fun _ => env, leases, checkExpired, server⟩
      ⟨addr, config.server, visits, none⟩
      (findAddressLoop env leases checkExpired count addr config).1
      (findAddressLoop env leases checkExpired count addr config).2.server := by
  induction count generalizing addr visits config with
  | zero =>
    have hpast : config.stop < addr := by omega
    exact ⟨0, .inr hpast, rfl, rfl⟩
  | succ count ih =>
    have hstop := config.stop_lt
    set c : Sweep := ⟨config.pool, fun _ => env, leases, checkExpired, server⟩
    have hopen : ¬c.Halted ⟨addr, config.server, visits, none⟩ :=
      Sweep.open_of_le (show addr ≤ config.stop by omega)
    -- The next address, with the settings that a probe may have left.
    have hnext (read : Nat) :
        c.Finds (Search.next ⟨addr, config.server, visits, none⟩ read)
        (findAddressLoop env leases checkExpired count (addr + 1)
          { config with server := read }).1
        (findAddressLoop env leases checkExpired count (addr + 1)
          { config with server := read }).2.server := by
      have hfits : (addr + 1) % 2 ^ 32 = addr + 1 := Nat.mod_eq_of_lt (by omega)
      have hrest := ih (addr + 1) (visits + 1) { config with server := read } (by simp only; omega)
      simp only [Search.next, hfits]
      exact hrest
    have hskips : (addr % 256 = 0 ∨ addr % 256 = 255 ∨ reservedIp config addr = false ∨
        addr = config.server ∨ addr = config.router.getD 0) ↔
        c.pool.Skips config.server addr := Iff.rfl
    have htaken : untaken env.now config.maxLeases leases checkExpired addr = true ↔
        c.Untaken ⟨addr, config.server, visits, none⟩ := Iff.rfl
    simp only [findAddressLoop, hskips, htaken]
    split
    next hskip =>
      refine Sweep.Finds.of_step ?_ (hnext config.server)
      simp only [Sweep.step, if_neg hopen, if_pos hskip]
    rename_i hskip
    split
    next huntaken =>
      simp only [checkIp, Bool.not_eq_true']
      split
      next hanswers =>
        refine Sweep.Finds.of_step ?_ (hnext (env.readInterface.getD config.server))
        rw [Sweep.step, if_neg hopen, if_neg hskip, if_pos huntaken]
        exact if_neg (ne_true_of_eq_false hanswers)
      next hfree =>
        have haccepts : c.Accepts ⟨addr, config.server, visits, none⟩ :=
          ⟨hskip, huntaken, by simpa using hfree⟩
        refine Sweep.Finds.of_step (Sweep.step_accepts hopen haccepts) ?_
        exact ⟨0, .inl (by simp), rfl, rfl⟩
    next htaken =>
      refine Sweep.Finds.of_step ?_ (hnext config.server)
      simp only [Sweep.step, if_neg hopen, if_neg hskip, if_neg htaken]

theorem findAddress_search (config : ServerConfig) :
    (config.sweep env leases checkExpired).Finds (config.sweep env leases checkExpired).start
      (findAddress env leases checkExpired config).1
      (findAddress env leases checkExpired config).2.server :=
  findAddressLoop_search env leases checkExpired config.server _ config.start 0 config rfl

end

/-! ### Completeness -/

/-- The search ends, and with 0 only if no address of the pool is accepted when its turn comes. -/
def Sweep.Complete (c : Sweep) : Prop :=
  c.Ends ∧ ∀ n, c.Halted (c.after n) → (c.after n).result = 0 →
    ∀ addr, c.pool.start ≤ addr → addr ≤ c.pool.stop → ¬c.Accepts (c.after (addr - c.pool.start))

/-- `find_address` is complete exactly if the pool ends below 255.255.255.255 or some address is
accepted when its turn comes: one of the pool or, after the count has wrapped, one below it. -/
theorem find_address_complete_iff (c : Sweep) (hle : c.pool.start ≤ c.pool.stop) :
    c.Complete ↔ c.pool.stop < 2 ^ 32 - 1 ∨ ∃ k, c.Accepts (c.after k) := by
  have hturned : c.Complete ↔ c.Ends :=
    and_iff_left (fun _ hhalted hzero _ hlow hhigh =>
      Sweep.turned_down hle hhalted hzero hlow hhigh)
  rw [hturned]
  rcases lt_or_ge c.pool.stop (2 ^ 32 - 1) with hbelow | htop
  · exact iff_of_true (Sweep.ends_below_top hle hbelow) (.inl hbelow)
  have hlt := c.pool.stop_lt
  rw [or_iff_right (by omega)]
  exact Sweep.ends_at_top_iff hle (by omega)

/-- The last three addresses, as the hosts answer the probe. -/
def topPool : AddressPool where
  start := 0xFFFFFFFD
  stop := 0xFFFFFFFF
  stop_lt := by decide
  reservedAddr := []
  router := none
  maxLeases := 2

def topSweep (arpping : Nat → Bool) : Sweep :=
  ⟨topPool, fun _ => ⟨1, arpping, none, true⟩, fun _ => Lease.blank, false, 0xC0A80101⟩

theorem topSweep_complete : (topSweep (fun _ => true)).Complete :=
  (find_address_complete_iff (topSweep (fun _ => true)) (by decide)).mpr
    (.inr ⟨0, by decide, by decide, by decide⟩)

/-- When every host answers the probe, the search through that pool never ends. -/
theorem search_never_ends :
    (topSweep (fun _ => false)).pool.start ≤ (topSweep (fun _ => false)).pool.stop ∧
      ¬(topSweep (fun _ => false)).Ends := by
  refine ⟨by decide, ?_⟩
  rw [Sweep.ends_at_top_iff (by decide) rfl]
  rintro ⟨k, _, _, hfree⟩
  cases hfree

end EchoLife.Dhcp
