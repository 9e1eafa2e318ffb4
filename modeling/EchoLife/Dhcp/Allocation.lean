import EchoLife.Base.Run
import EchoLife.Dhcp.Effects

/-!
No double allocation. The history of a run lists what the clients were told; an address is
outstanding for a client from an ACK up to the end of the time it names, unless the client gave it
back. On runs that avoid the defects of the lease handling, every outstanding address keeps its
entry and goes to nobody else.
-/

namespace EchoLife.Dhcp

open Function Option

def Event.gives : Event → Option (Chaddr × Nat × Nat)
  | .offered client address time => some (client, address, time)
  | .acked client address time _ => some (client, address, time)
  | .freed _ _ => none

/-- In a history, newest event first: the address was acknowledged up to `limit` and not given
back since. -/
def Outstanding : List Event → Chaddr → Nat → Nat → Prop
  | [], _, _, _ => False
  | e :: earlier, client, address, limit =>
    (∃ time lease, e = .acked client address time lease ∧ limit = time + lease) ∨
    (e ≠ .freed client address ∧ Outstanding earlier client address limit)

/-- No address was offered or acknowledged to a client while outstanding for another. -/
def NoDoubleAllocation : List Event → Prop
  | [] => True
  | e :: earlier =>
    NoDoubleAllocation earlier ∧
    ∀ client address time, e.gives = some (client, address, time) →
      ∀ holder limit, Outstanding earlier holder address limit → holder ≠ client → limit ≤ time

/-- A message must not shorten the entry of its sender, by an offer or a shorter lease, write a
time past the end of the 32-bit clock, or be answered from the table of the other pool. -/
def Regular (env : Env) (m : Message) (srv : Server) : Prop :=
  OwnTable m srv ∧
  match m.kind with
  | .discover =>
    env.now + srv.config.offerTime < 2 ^ 32 ∧
    ∀ i, findLeaseByChaddr srv.config.maxLeases srv.leases m.chaddr = some i →
      (srv.leases i).expires ≤ env.now + srv.config.offerTime
  | .request =>
    env.now + ackLeaseTime m srv.config < 2 ^ 32 ∧
    ∀ i, findLeaseByChaddr srv.config.maxLeases srv.leases m.chaddr = some i →
      (srv.leases i).expires ≤ env.now + ackLeaseTime m srv.config
  | _ => True

/-- An entry of a pool: in its range, and without a client when it is blank. -/
def Lease.Within (config : ServerConfig) (l : Lease) : Prop :=
  (l.yiaddr = 0 → l.chaddr = 0) ∧ (l.yiaddr ≠ 0 → config.start ≤ l.yiaddr ∧ l.yiaddr ≤ config.stop)

theorem Lease.within_blank (config : ServerConfig) : Lease.blank.Within config :=
  ⟨fun _ => rfl, fun hne => absurd rfl hne⟩

variable {n yiaddr i limit time : Nat} {leases : Nat → Lease} {client : Chaddr}

theorem addLease_all {P : Lease → Prop} {now : Nat} {chaddr : Chaddr} {lease : Nat} (hnow : 0 < now)
    (hall : ∀ i, i < n → P (leases i)) (hblank : P Lease.blank)
    (hnew : P ⟨chaddr, yiaddr, (now + lease) % 2 ^ 32⟩) (hi : i < n) :
    P ((addLease now n leases chaddr yiaddr lease).1 i) := by
  rcases addLease_cases hnow n leases chaddr yiaddr lease with
    ⟨k, _, _, _, htable⟩ | ⟨_, _, hsame⟩
  · rw [htable]
    by_cases hik : i = k
    · subst hik
      rw [update_self]
      exact hnew
    rw [update_of_ne hik]
    rcases clearLease_cases n leases chaddr yiaddr i with hkept | hcleared
    · rw [hkept]
      exact hall i hi
    · rw [hcleared]
      exact hblank
  · rw [hsame i hi]
    exact hall i hi

variable {config : ServerConfig} {entry : Lease} {address clock : Nat} {env : Env} {m : Message}
  {srv : Server} {leases2 : Nat → Lease} {event : Option Event} {e : Event} {history : List Event}

section

variable {k : Nat} (hyiaddr : entry.yiaddr = (leases k).yiaddr)
  (hchaddr : entry.chaddr = (leases k).chaddr ∨ entry.chaddr = 0)
include hyiaddr hchaddr

theorem within_update (hall : ∀ i, i < n → (leases i).Within config) (hi : i < n) :
    (update leases k entry i).Within config := by
  by_cases hik : i = k
  · subst hik
    rw [update_self]
    obtain ⟨hblank, hrange⟩ := hall i hi
    refine ⟨?_, ?_⟩
    · intro hzero
      rcases hchaddr with hkept | hcleared
      · exact hkept.trans (hblank (hyiaddr.symm.trans hzero))
      · exact hcleared
    · rw [hyiaddr]
      exact hrange
  · rw [update_of_ne hik]
    exact hall i hi

theorem Holds.update_freed {holder : Chaddr}
    (hholds : Holds n leases holder address limit) (hclient : (leases k).chaddr = client)
    (hfreed : some (Event.freed client (leases k).yiaddr) ≠ some (Event.freed holder address)) :
    Holds n (update leases k entry) holder address limit := by
  refine hholds.update_other ?_ hyiaddr hchaddr
  by_contra hboth
  rw [not_or, not_not, not_not] at hboth
  obtain ⟨rfl, rfl⟩ := hboth
  exact hfreed (by rw [hclient])

end

/-- An address with a running lease is offered to its holder only, and from the
holder's entry. -/
theorem OfferSource.holder {holder : Chaddr} (hsource : OfferSource env.now m srv yiaddr)
    (hholds : Holds srv.config.maxLeases srv.leases holder yiaddr limit)
    (hactive : env.now < limit) (haddress : yiaddr ≠ 0) :
    m.chaddr = holder ∧ ∃ i,
      findLeaseByChaddr srv.config.maxLeases srv.leases m.chaddr = some i ∧
      (srv.leases i).yiaddr = yiaddr ∧ limit ≤ (srv.leases i).expires := by
  rcases hsource with ⟨i, hfind, hyiaddr⟩ | ⟨_, _, _, hfree⟩
  · obtain ⟨hi, hchaddr⟩ := findLease_some hfind
    obtain ⟨howner, hlimit⟩ := hholds.owner haddress hi hyiaddr
    exact ⟨hchaddr.symm.trans howner, i, hfind, hyiaddr, hlimit⟩
  · obtain ⟨j, hfind, hlimit⟩ := hholds.findByYiaddr haddress
    simp only [untaken, hfind, leaseExpired, Bool.true_and, decide_eq_true_eq] at hfree
    omega

theorem OfferSource.keeps (hnow : 0 < env.now) (hsource : OfferSource env.now m srv yiaddr)
    (hwrap : env.now + time < 2 ^ 32)
    (hlong : ∀ i, findLeaseByChaddr srv.config.maxLeases srv.leases m.chaddr = some i →
      (srv.leases i).expires ≤ env.now + time) {holder : Chaddr}
    (haddress : address ≠ 0) (hholds : Holds srv.config.maxLeases srv.leases holder address limit)
    (hactive : env.now < limit) :
    Holds srv.config.maxLeases
      (addLease env.now srv.config.maxLeases srv.leases m.chaddr yiaddr time).1
      holder address limit := by
  by_cases hsame : yiaddr = address
  · subst hsame
    obtain ⟨rfl, i, hfind, hyiaddr, hlimit⟩ :=
      hsource.holder hholds hactive haddress
    have hlonger := hlong i hfind
    have hi := (findLease_some hfind).1
    exact (holds_addLease hnow hwrap ⟨i, hi, .inr ⟨haddress, hyiaddr⟩⟩).mono (by omega)
  · refine hholds.addLease_other hnow hactive ?_ hsame time
    by_contra hclient
    rw [not_or, not_not] at hclient
    obtain ⟨hnonzero, rfl⟩ := hclient
    obtain ⟨i, hfind, hyiaddr, _⟩ := hholds.findByChaddr hnonzero
    rcases hsource with ⟨j, hown, hentry⟩ | ⟨hnone, _⟩
    · rw [hfind, some.injEq] at hown
      rw [← hown, hyiaddr] at hentry
      exact hsame hentry.symm
    · rw [hfind] at hnone
      cases hnone

section

variable (heffect : Effect env m srv leases leases2 event)
include heffect

theorem Effect.source (he : event = some e) (hgives : e.gives = some (client, address, time)) :
    client = m.chaddr ∧ time = env.now ∧ OfferSource env.now m srv address ∧
      (address = 0 → ∃ i,
        findLeaseByChaddr srv.config.maxLeases srv.leases m.chaddr = some i ∧
        (srv.leases i).yiaddr = 0) := by
  cases heffect with
  | idle => cases he
  | offer hkind hnonzero hsource hevent =>
    rcases hevent with rfl | rfl
    · cases he
    cases he
    cases hgives
    exact ⟨rfl, rfl, hsource, fun hzero => absurd hzero hnonzero⟩
  | ack hkind hfind =>
    cases he
    cases hgives
    exact ⟨rfl, rfl, .inl ⟨_, hfind, rfl⟩, fun hzero => ⟨_, hfind, hzero⟩⟩
  | free hfind hyiaddr hchaddr =>
    cases he
    cases hgives

theorem Effect.keeps_own (hnow : 0 < env.now) (hregular : Regular env m srv) {holder : Chaddr}
    (haddress : address ≠ 0) (hholds : Holds srv.config.maxLeases srv.leases holder address limit)
    (hactive : env.now < limit) (hfreed : event ≠ some (.freed holder address)) :
    Holds srv.config.maxLeases leases holder address limit := by
  obtain ⟨_, hlimits⟩ := hregular
  cases heffect with
  | idle => exact hholds
  | offer hkind hnonzero hsource hevent =>
    rw [hkind] at hlimits
    exact hsource.keeps hnow hlimits.1 hlimits.2 haddress hholds hactive
  | ack hkind hfind =>
    rw [hkind] at hlimits
    exact OfferSource.keeps hnow (.inl ⟨_, hfind, rfl⟩) hlimits.1 hlimits.2 haddress hholds hactive
  | @free ref entry hfind hyiaddr hchaddr =>
    have hclient := Server.findLease_chaddr hfind
    cases ref with
    | two k => exact hholds
    | one k => exact hholds.update_freed hyiaddr hchaddr hclient hfreed

theorem Effect.keeps_second {holder : Chaddr} (hholds : Holds n srv.leases2 holder address limit)
    (hfreed : event ≠ some (.freed holder address)) : Holds n leases2 holder address limit := by
  cases heffect with
  | idle => exact hholds
  | offer hkind hnonzero hsource hevent => exact hholds
  | ack hkind hfind => exact hholds
  | @free ref entry hfind hyiaddr hchaddr =>
    have hclient := Server.findLease_chaddr hfind
    cases ref with
    | one k => exact hholds
    | two k => exact hholds.update_freed hyiaddr hchaddr hclient hfreed

theorem Effect.holds_acked (hnow : 0 < env.now) (hregular : Regular env m srv) {lease : Nat}
    (he : event = some (.acked client address time lease)) (haddress : address ≠ 0) :
    Holds srv.config.maxLeases leases client address (time + lease) := by
  obtain ⟨_, hlimits⟩ := hregular
  cases heffect with
  | idle => cases he
  | offer hkind hnonzero hsource hevent =>
    rcases hevent with rfl | rfl
    · cases he
    · cases he
  | @ack i hkind hfind =>
    rw [hkind] at hlimits
    cases he
    exact holds_addLease hnow hlimits.1 ⟨i, (findLease_some hfind).1, .inr ⟨haddress, rfl⟩⟩
  | free hfind hyiaddr hchaddr => cases he

end

section

variable (hall : ∀ i, i < srv.config.maxLeases → (srv.leases i).Within srv.config)
include hall

theorem OfferSource.within (hsource : OfferSource env.now m srv yiaddr) (haddress : yiaddr ≠ 0) :
    srv.config.start ≤ yiaddr ∧ yiaddr ≤ srv.config.stop := by
  rcases hsource with ⟨i, hfind, rfl⟩ | ⟨_, hlow, hhigh, _⟩
  · exact (hall i (findLease_some hfind).1).2 haddress
  · exact ⟨hlow, hhigh⟩

theorem Effect.within_own (heffect : Effect env m srv leases leases2 event) (hnow : 0 < env.now)
    (hi : i < srv.config.maxLeases) : (leases i).Within srv.config := by
  cases heffect with
  | idle => exact hall i hi
  | offer hkind hnonzero hsource hevent =>
    exact addLease_all hnow hall (Lease.within_blank _)
      ⟨fun hzero => absurd hzero hnonzero, fun _ => hsource.within hall hnonzero⟩ hi
  | @ack j hkind hfind =>
    obtain ⟨hj, hchaddr⟩ := findLease_some hfind
    refine addLease_all hnow hall (Lease.within_blank _) ⟨?_, (hall j hj).2⟩ hi
    intro hzero
    exact hchaddr.symm.trans ((hall j hj).1 hzero)
  | @free ref entry hfind hyiaddr hchaddr =>
    cases ref with
    | two k => exact hall i hi
    | one k => exact within_update hyiaddr hchaddr hall hi

end

theorem Effect.within_second (heffect : Effect env m srv leases leases2 event)
    (hall : ∀ i, i < n → (srv.leases2 i).Within config) (hi : i < n) :
    (leases2 i).Within config := by
  cases heffect with
  | idle => exact hall i hi
  | offer hkind hnonzero hsource hevent => exact hall i hi
  | ack hkind hfind => exact hall i hi
  | @free ref entry hfind hyiaddr hchaddr =>
    cases ref with
    | one k => exact hall i hi
    | two k => exact within_update hyiaddr hchaddr hall hi

/-- The leases outstanding at `clock` have entries in one of two tables. -/
def Covered (n : Nat) (first second : Nat → Lease) (history : List Event) (clock : Nat) : Prop :=
  ∀ holder address limit, Outstanding history holder address limit →
    clock < limit → address ≠ 0 →
    Holds n first holder address limit ∨ Holds n second holder address limit

/-- The address 0 is only ever given to the hardware address 0. -/
def ZeroToZero (history : List Event) : Prop :=
  ∀ holder limit, Outstanding history holder 0 limit → holder = 0

def Apart (a b : ServerConfig) : Prop :=
  a.stop < b.start ∨ b.stop < a.start

theorem outstanding_append {holder : Chaddr}
    (h : Outstanding (event.toList ++ history) holder address limit) :
    (∃ time lease, event = some (.acked holder address time lease) ∧ limit = time + lease) ∨
    (event ≠ some (.freed holder address) ∧ Outstanding history holder address limit) := by
  cases event with
  | none => exact .inr ⟨by simp, h⟩
  | some e =>
    rcases h with ⟨time, lease, rfl, hlimit⟩ | ⟨hfreed, hearlier⟩
    · exact .inl ⟨time, lease, rfl, hlimit⟩
    · exact .inr ⟨by simpa using hfreed, hearlier⟩

section OneMessage

variable {other other' : Nat → Lease}

section

variable (heffect : Effect env m srv leases leases2 event)
include heffect

theorem Effect.covered (hnow : 0 < env.now) (hclock : clock ≤ env.now)
    (hregular : Regular env m srv) (hother : ∀ holder address limit,
      Holds srv.config.maxLeases other holder address limit →
      event ≠ some (.freed holder address) → Holds srv.config.maxLeases other' holder address limit)
    (hcovered : Covered srv.config.maxLeases srv.leases other history clock) :
    Covered srv.config.maxLeases leases other' (event.toList ++ history) env.now := by
  intro holder address limit hout hactive haddress
  rcases outstanding_append hout with ⟨time, lease, rfl, rfl⟩ | ⟨hfreed, hearlier⟩
  · exact .inl (heffect.holds_acked hnow hregular rfl haddress)
  rcases hcovered holder address limit hearlier (by omega) haddress with
    hown | hsecond
  · exact .inl (heffect.keeps_own hnow hregular haddress hown hactive hfreed)
  · exact .inr (hother holder address limit hsecond hfreed)

section

variable (hall : ∀ i, i < srv.config.maxLeases → (srv.leases i).Within srv.config)
include hall

theorem Effect.gives_zero (he : event = some e)
    (hgives : e.gives = some (client, 0, time)) : client = 0 := by
  obtain ⟨rfl, _, _, hzero⟩ := heffect.source he hgives
  obtain ⟨i, hfind, hblank⟩ := hzero rfl
  obtain ⟨hi, hchaddr⟩ := findLease_some hfind
  exact hchaddr.symm.trans ((hall i hi).1 hblank)

theorem Effect.zeroToZero (hzero : ZeroToZero history) : ZeroToZero (event.toList ++ history) := by
  intro holder limit hout
  rcases outstanding_append hout with ⟨time, lease, he, _⟩ | ⟨_, hearlier⟩
  · exact heffect.gives_zero hall he rfl
  · exact hzero holder limit hearlier

end

theorem Effect.safe (hclock : clock ≤ env.now)
    (hall : ∀ i, i < srv.config.maxLeases → (srv.leases i).Within srv.config)
    (hothers : ∀ i, i < srv.config.maxLeases → (other i).Within config)
    (hapart : Apart srv.config config)
    (hcovered : Covered srv.config.maxLeases srv.leases other history clock)
    (hzero : ZeroToZero history) (hsafe : NoDoubleAllocation history) :
    NoDoubleAllocation (event.toList ++ history) := by
  cases event with
  | none => exact hsafe
  | some e =>
    refine ⟨hsafe, ?_⟩
    intro client address time hgives holder limit hout hdiffer
    obtain ⟨hclient, rfl, hsource, _⟩ := heffect.source rfl hgives
    by_contra hactive
    by_cases haddress : address = 0
    · subst haddress
      rw [heffect.gives_zero hall rfl hgives] at hdiffer
      exact hdiffer (hzero holder limit hout)
    rcases hcovered holder address limit hout (by omega) haddress with
      hown | hsecond
    · have hholder := (hsource.holder hown (by omega) haddress).1
      exact hdiffer (hholder.symm.trans hclient.symm)
    -- the other pool has the address in its range
    obtain ⟨i, hi, _, rfl, _, _⟩ := hsecond
    have hhere := hsource.within hall haddress
    have hthere := (hothers i hi).2 haddress
    unfold Apart at hapart
    omega

end

end OneMessage

section

variable {first second : Nat → Lease}

section

variable (h : Covered n first second history clock)
include h

theorem Covered.symm : Covered n second first history clock :=
  fun holder address limit hout hactive haddress =>
    (h holder address limit hout hactive haddress).symm

theorem Covered.later {clock' : Nat}
    (hle : clock ≤ clock') : Covered n first second history clock' :=
  fun holder address limit hout hactive haddress =>
    h holder address limit hout (by omega) haddress

end

end

theorem Lease.Within.samePool {a b : ServerConfig} {l : Lease} (h : l.Within a)
    (hsame : SamePool a b) : l.Within b := by
  obtain ⟨_, rfl⟩ := hsame
  exact h

/-- The server with the pool of the message in use; `none` when the message is
ignored. -/
def inUse (srv : Server) (m : Message) : Option Server :=
  if matchesSecond srv m then some srv.swapIn
  else if srv.enblSrv1 then some srv
  else none

structure State where
  srv : Server
  clock : Nat
  history : List Event

def step (input : Env × Message) (s : State) : State where
  srv := (handle input.1 input.2 s.srv).1
  clock := input.1.now
  history := ((inUse s.srv input.2).bind (eventOf input.1 input.2)).toList ++ s.history

/-- The clock does not run backwards, and the message is regular for the pool that serves it. -/
def StepOk (input : Env × Message) (s : State) : Prop :=
  0 < input.1.now ∧ s.clock ≤ input.1.now ∧
    ∀ srv, inUse s.srv input.2 = some srv → Regular input.1 input.2 srv

structure Sound (s : State) : Prop where
  first : ∀ i, i < s.srv.config.maxLeases → (s.srv.leases i).Within s.srv.config
  second : ∀ i, i < s.srv.config.maxLeases → (s.srv.leases2 i).Within s.srv.config2
  apart : Apart s.srv.config s.srv.config2
  covered : Covered s.srv.config.maxLeases s.srv.leases s.srv.leases2 s.history s.clock
  zero : ZeroToZero s.history
  safe : NoDoubleAllocation s.history

section

variable {s : State} (h : Sound s) (hnow : 0 < env.now) (hclock : s.clock ≤ env.now)
include h hnow hclock

theorem Sound.step_first (hregular : Regular env m s.srv) :
    Sound ⟨(serve env m s.srv).1, env.now, (eventOf env m s.srv).toList ++ s.history⟩ := by
  obtain ⟨⟨hpool, hconfig2, _⟩, heffect⟩ := serve_effect env hregular.1
  have hmax : (serve env m s.srv).1.config.maxLeases = s.srv.config.maxLeases := by
    obtain ⟨_, hconfig⟩ := hpool
    rw [hconfig]
  constructor
  · intro i hi
    rw [hmax] at hi
    exact (heffect.within_own h.first hnow hi).samePool hpool
  · intro i hi
    simp only [hconfig2]
    rw [hmax] at hi
    exact heffect.within_second h.second hi
  · obtain ⟨_, hconfig⟩ := hpool
    simp only [hconfig, hconfig2]
    exact h.apart
  · simp only [hmax]
    exact heffect.covered hnow hclock hregular
      (fun _ _ _ hholds hfreed => heffect.keeps_second hholds hfreed) h.covered
  · exact heffect.zeroToZero h.first h.zero
  · exact heffect.safe hclock h.first h.second h.apart h.covered h.zero h.safe

/-- For the second pool the two tables change places, and the entries read from the second table
are those of the table in use. -/
theorem Sound.step_second (hregular : Regular env m s.srv.swapIn) :
    Sound ⟨(serve env m s.srv.swapIn).1.swapBack s.srv, env.now,
      (eventOf env m s.srv.swapIn).toList ++ s.history⟩ := by
  obtain ⟨⟨hpool, _⟩, heffect⟩ := serve_effect env hregular.1
  have hapart : Apart s.srv.swapIn.config s.srv.config := h.apart.symm
  have hcovered : Covered s.srv.swapIn.config.maxLeases s.srv.swapIn.leases
      s.srv.leases s.history s.clock := h.covered.symm
  constructor
  · exact h.first
  · intro i hi
    exact (heffect.within_own h.second hnow hi).samePool hpool
  · obtain ⟨_, hconfig⟩ := hpool
    simp only [Server.swapBack, hconfig]
    exact h.apart
  · exact (heffect.covered hnow hclock hregular (fun _ _ _ hholds _ => hholds) hcovered).symm
  · exact heffect.zeroToZero h.second h.zero
  · exact heffect.safe hclock h.second h.first hapart hcovered h.zero h.safe

end

theorem Sound.step {s : State} (h : Sound s) {input : Env × Message}
    (hok : StepOk input s) : Sound (step input s) := by
  obtain ⟨hnow, hclock, hregular⟩ := hok
  unfold inUse at hregular
  simp only [Dhcp.step, inUse, handle]
  cases hmatch : matchesSecond s.srv input.2 with
  | true => exact h.step_second hnow hclock (hregular _ (by simp [hmatch]))
  | false =>
    cases henabled : s.srv.enblSrv1 with
    | true => exact h.step_first hnow hclock (hregular _ (by simp [hmatch, henabled]))
    | false =>
      exact ⟨h.first, h.second, h.apart, h.covered.later hclock, h.zero, h.safe⟩

/-- On every run of regular messages, from lease tables with entries in their pools and pools that
do not overlap, an address acknowledged to a client for a time is not offered or acknowledged to
another before that time has passed, unless the client gave it back. -/
theorem no_double_allocation (srv : Server) (clock : Nat)
    (hfirst : ∀ i, i < srv.config.maxLeases → (srv.leases i).Within srv.config)
    (hsecond : ∀ i, i < srv.config.maxLeases → (srv.leases2 i).Within srv.config2)
    (hapart : Apart srv.config srv.config2) (s : State)
    (hreach : Run.Reaches step StepOk ⟨srv, clock, []⟩ s) : NoDoubleAllocation s.history := by
  have hstart : Sound ⟨srv, clock, []⟩ :=
    ⟨hfirst, hsecond, hapart, fun _ _ _ hout => hout.elim, fun _ _ hout => hout.elim, trivial⟩
  have hsound : Sound s := hreach.invariant hstart (fun _ _ hok h => h.step hok)
  exact hsound.safe

def homeConfig : ServerConfig where
  server := 0xC0A80101
  start := 0xC0A80102
  stop := 0xC0A8010A
  stop_lt := by decide
  reservedAddr := []
  router := some 0xC0A80101
  vendorid := none
  lease := 86400
  maxLeases := 4
  declineTime := 3600
  offerTime := 60
  minLease := 60

def vendorConfig : ServerConfig :=
  { homeConfig with
    server := 0xC0A80201
    start := 0xC0A80202
    stop := 0xC0A8020A
    stop_lt := by decide
    router := some 0xC0A80201
    vendorid := some [0x53, 0x54, 0x42] }

def freshServer : State where
  srv := ⟨homeConfig, vendorConfig, fun _ => Lease.blank, fun _ => Lease.blank, true, true⟩
  clock := 0
  history := []

def quietEnv (now : Nat) : Env := ⟨now, fun _ => true, none, true⟩

def discoverFrom (chaddr : Chaddr) (requested : Option Nat) : Message :=
  ⟨.discover, chaddr, 0, requested, none, none, none⟩

def requestFrom (chaddr : Chaddr) : Message :=
  ⟨.request, chaddr, 0, some 0xC0A80102, some 0xC0A80101, none, none⟩

def afterOffer : State := step (quietEnv 10, discoverFrom 1 none) freshServer

def afterLease : State := step (quietEnv 11, requestFrom 1) afterOffer

private theorem first_discover_ok : StepOk (quietEnv 10, discoverFrom 1 none) freshServer := by
  refine ⟨by decide, by decide, ?_⟩
  intro srv hsrv
  obtain rfl : freshServer.srv = srv := some.inj hsrv
  have hnone : findLeaseByChaddr 4 freshServer.srv.leases 1 = none := by decide
  refine ⟨?_, by decide, ?_⟩
  · nofun
  · intro i hi
    cases hnone.symm.trans hi

private theorem first_request_ok : StepOk (quietEnv 11, requestFrom 1) afterOffer := by
  refine ⟨by decide, by decide, ?_⟩
  intro srv hsrv
  obtain rfl : afterOffer.srv = srv := some.inj hsrv
  have hfound : findLeaseByChaddr 4 afterOffer.srv.leases 1 = some 0 := by decide
  refine ⟨?_, by decide, ?_⟩
  · intro _ hnone
    cases hfound.symm.trans hnone
  · intro i hi
    cases hfound.symm.trans hi
    decide

theorem no_double_allocation_after_lease :
    afterLease.history = [.acked 1 0xC0A80102 11 86400, .offered 1 0xC0A80102 10] ∧
    NoDoubleAllocation afterLease.history :=
  ⟨by decide, no_double_allocation freshServer.srv 0
      (fun _ _ => Lease.within_blank _) (fun _ _ => Lease.within_blank _)
      (.inl (by decide)) afterLease
      (Run.Reaches.step _ (Run.Reaches.step _ Run.Reaches.start first_discover_ok)
        first_request_ok)⟩

/-- The holder of a lease of a day asks for another offer, which cuts its entry to the time of an
offer; two minutes later the address is offered to another client. -/
theorem repeated_discover_loses_lease :
    (Run.run step
      [(quietEnv 10, discoverFrom 1 none), (quietEnv 11, requestFrom 1),
        (quietEnv 12, discoverFrom 1 none),
        (quietEnv 100, discoverFrom 2 (some 0xC0A80102))] freshServer).history =
      [.offered 2 0xC0A80102 100, .offered 1 0xC0A80102 12,
        .acked 1 0xC0A80102 11 86400, .offered 1 0xC0A80102 10] ∧
    ¬NoDoubleAllocation
      [.offered 2 0xC0A80102 100, .offered 1 0xC0A80102 12,
        .acked 1 0xC0A80102 11 86400, .offered 1 0xC0A80102 10] := by
  refine ⟨by decide, ?_⟩
  rintro ⟨_, hgives⟩
  have hlimit := hgives 2 0xC0A80102 100 rfl 1 (11 + 86400)
    (.inr ⟨by decide, .inl ⟨11, 86400, rfl, rfl⟩⟩) (by decide)
  omega

end EchoLife.Dhcp
