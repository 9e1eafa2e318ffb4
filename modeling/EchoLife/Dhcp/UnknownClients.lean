import EchoLife.Dhcp.LeaseTable

/-!
DECLINE and RELEASE of clients that have no lease. A lease is looked up by the hardware address,
which is zero in a free entry: a sender without one has the first free entry as its lease.
-/

namespace EchoLife.Dhcp

open Function

def givenBack (env : Env) (m : Message) (config : ServerConfig) (lease : Lease) : Lease :=
  if m.kind = .decline then
    { lease with
      chaddr := 0
      expires := (env.now + config.declineTime) % 2 ^ 32 }
  else { lease with expires := env.now % 2 ^ 32 }

variable {m : Message} {env : Env} {srv : Server}

theorem serve_givenBack (env : Env) (srv : Server) (hkind : m.kind = .decline ∨ m.kind = .release) :
    (serve env m srv).1 =
      match srv.findLease m.chaddr with
      | none => srv
      | some ref => srv.setEntry (givenBack env m srv.config (srv.entry ref)) ref := by
  rcases hkind with hkind | hkind
  · simp only [serve, hkind, givenBack]
    cases srv.findLease m.chaddr with
    | none => rfl
    | some ref => rfl
  · simp only [serve, hkind, givenBack]
    cases srv.findLease m.chaddr with
    | none => rfl
    | some ref => rfl

theorem givenBack_eq_self_iff {config : ServerConfig} {lease : Lease} (hfree : lease.chaddr = 0) :
    givenBack env m config lease = lease ↔
      lease.expires = (givenBack env m config lease).expires := by
  constructor
  · intro hsame
    rw [hsame]
  intro hexpires
  refine Lease.ext ?_ ?_ hexpires.symm
  · simp only [givenBack]
    split
    · exact hfree.symm
    · rfl
  · simp only [givenBack]
    split
    · rfl
    · rfl

def SameTables (before after : Server) : Prop :=
  after.leases = before.leases ∧ after.leases2 = before.leases2

private theorem setEntry_sameTables_iff (srv : Server) (entry : Lease) (ref : LeaseRef) :
    SameTables srv (srv.setEntry entry ref) ↔ entry = srv.entry ref := by
  cases ref with
  | one i =>
    simp only [SameTables, Server.setEntry, Server.entry, and_true]
    exact update_eq_self_iff
  | two i =>
    simp only [SameTables, Server.setEntry, Server.entry, true_and]
    exact update_eq_self_iff

/-- The time that a DECLINE or a RELEASE writes is there already, in the entry that is taken for
the sender's. Of the second pool's table only what happens to a copy is kept. -/
def SlotKept (env : Env) (m : Message) (srv : Server) : Prop :=
  if matchesSecond srv m then
    ∀ i, findLeaseByChaddr srv.config.maxLeases srv.leases2 m.chaddr = some i →
      (srv.leases2 i).expires = (givenBack env m srv.config (srv.leases2 i)).expires
  else srv.enblSrv1 = true → ∀ ref, srv.findLease m.chaddr = some ref →
    (srv.entry ref).expires = (givenBack env m srv.config (srv.entry ref)).expires

/-- No entry bears the hardware address, other than free ones. -/
def Server.Unknown (srv : Server) (chaddr : Chaddr) : Prop :=
  ∀ i, (srv.leases i).chaddr = chaddr ∨ (srv.leases2 i).chaddr = chaddr → chaddr = 0

theorem Server.Unknown.findLease_none {chaddr : Chaddr}
    (h : srv.Unknown chaddr) (hclient : chaddr ≠ 0) : srv.findLease chaddr = none := by
  cases hfind : srv.findLease chaddr with
  | none => rfl
  | some ref =>
    have hsame := Server.findLease_chaddr hfind
    cases ref with
    | one i => exact absurd (h i (.inl hsame)) hclient
    | two i => exact absurd (h i (.inr hsame)) hclient

section

variable (hkind : m.kind = .decline ∨ m.kind = .release)
include hkind

private theorem serve_unknown (h : srv.Unknown m.chaddr)
    (hclient : m.chaddr ≠ 0) : (serve env m srv).1 = srv := by
  rw [serve_givenBack env srv hkind, h.findLease_none hclient]

private theorem serve_blank_iff (hblank : m.chaddr = 0) :
    SameTables srv (serve env m srv).1 ↔ ∀ ref, srv.findLease m.chaddr = some ref →
      (srv.entry ref).expires = (givenBack env m srv.config (srv.entry ref)).expires := by
  rw [serve_givenBack env srv hkind]
  cases hfind : srv.findLease m.chaddr with
  | none =>
    constructor
    · nofun
    · intro _
      exact ⟨rfl, rfl⟩
  | some ref =>
    have hfree : (srv.entry ref).chaddr = 0 := (Server.findLease_chaddr hfind).trans hblank
    simp only [setEntry_sameTables_iff, givenBack_eq_self_iff hfree, Option.some.injEq, forall_eq']

private theorem serve_blank_second_iff (hblank : m.chaddr = 0) :
    (serve env m srv.swapIn).1.leases = srv.leases2 ↔
      ∀ i, findLeaseByChaddr srv.config.maxLeases srv.leases2 m.chaddr = some i →
        (srv.leases2 i).expires = (givenBack env m srv.config (srv.leases2 i)).expires := by
  rw [serve_givenBack env srv.swapIn hkind]
  have hlimit : srv.swapIn.config.maxLeases = srv.config.maxLeases := rfl
  have htable : srv.swapIn.leases = srv.leases2 := rfl
  cases hfind : findLeaseByChaddr srv.config.maxLeases srv.leases2 m.chaddr with
  | none =>
    have hcopy : ∀ ref, srv.swapIn.findLease m.chaddr = some ref → ∃ i, ref = .two i := by
      intro ref href
      simp only [Server.findLease, hlimit, htable, hfind] at href
      obtain ⟨i, _, rfl⟩ := Option.map_eq_some_iff.mp href
      exact ⟨i, rfl⟩
    constructor
    · rintro _ ref ⟨⟩
    intro _
    cases href : srv.swapIn.findLease m.chaddr with
    | none => rfl
    | some ref =>
      obtain ⟨i, rfl⟩ := hcopy ref href
      rfl
  | some i =>
    have href : srv.swapIn.findLease m.chaddr = some (.one i) := by
      simp only [Server.findLease, hlimit, htable, hfind]
    have hfree : (srv.leases2 i).chaddr = 0 := (Dhcp.findLease_some hfind).2.trans hblank
    have hgiven : givenBack env m srv.swapIn.config (srv.leases2 i) =
        givenBack env m srv.config (srv.leases2 i) := rfl
    simp only [href, Server.setEntry, Server.entry, htable, hgiven,
      update_eq_self_iff, givenBack_eq_self_iff hfree, Option.some.injEq, forall_eq']

end

/-- A DECLINE or a RELEASE of a client without an entry leaves the tables as they are exactly if
the client has a hardware address, or the entry taken for its lease already has the time that is
written into it. -/
theorem unknown_client_inert_iff (env : Env) (m : Message) (srv : Server)
    (hkind : m.kind = .decline ∨ m.kind = .release) (hunknown : srv.Unknown m.chaddr) :
    SameTables srv (handle env m srv).1 ↔ m.chaddr ≠ 0 ∨ SlotKept env m srv := by
  by_cases hblank : m.chaddr = 0
  · rw [or_iff_right (fun hclient => hclient hblank)]
    simp only [handle, SlotKept]
    split
    · rw [← serve_blank_second_iff hkind hblank]
      simp only [SameTables, Server.swapBack, true_and]
    split
    next henabled =>
      rw [serve_blank_iff hkind hblank]
      exact ⟨fun h _ => h, fun h => h henabled⟩
    next hdisabled =>
      exact ⟨fun _ henabled => absurd henabled hdisabled, fun _ => ⟨rfl, rfl⟩⟩
  · refine ⟨fun _ => .inl hblank, fun _ => ?_⟩
    simp only [handle]
    split
    · have hcopy : srv.swapIn.Unknown m.chaddr := fun i h => hunknown i (Or.inr (h.elim id id))
      rw [serve_unknown hkind hcopy hblank]
      exact ⟨rfl, rfl⟩
    · split
      · rw [serve_unknown hkind hunknown hblank]
        exact ⟨rfl, rfl⟩
      · exact ⟨rfl, rfl⟩

def rentedPools : Server :=
  { twoPools with
    leases := update (fun _ => .blank) 0 ⟨9, 0xC0A80102, 61⟩
    leases2 := update (fun _ => .blank) 1 ⟨8, 0xC0A80111, 64⟩ }

/-- A RELEASE of client 7 on a server that has leases of others in both tables. -/
theorem stranger_release_inert :
    SameTables rentedPools (handle ⟨9, fun _ => true, none, true⟩
      ⟨.release, 7, 0, none, none, none, some [66]⟩ rentedPools).1 :=
  (unknown_client_inert_iff ⟨9, fun _ => true, none, true⟩
    ⟨.release, 7, 0, none, none, none, some [66]⟩ rentedPools (.inr rfl)
    (by rintro (_ | _ | i) (h | h) <;> cases h)).mpr (Or.inl (by decide))

/-- A DECLINE without a hardware address blocks the first free entry for a minute. -/
theorem blank_decline_takes_entry :
    twoLeases.Unknown 0 ∧
    (twoLeases.leases 0).expires = 0 ∧
    ((handle ⟨1, fun _ => true, none, true⟩ ⟨.decline, 0, 0, none, none, none, none⟩
      twoLeases).1.leases 0).expires = 61 := by
  exact ⟨fun _ _ => rfl, rfl, rfl⟩

end EchoLife.Dhcp
