import EchoLife.Bridge.Wiring

/-!
Whether a multicast frame stays on its bridge. The snooping list is one for all
bridges and the loop over it does not look at the bridge of an entry's port.
-/

namespace EchoLife.Bridge

open Function List Run

/-- The ports to which `br_igmp_snooping_forward` forwards a frame that comes in. -/
def Kernel.copies (k : Kernel) (env : Env) (skb : Frame) : List Nat :=
  match k.handled skb with
  | none => []
  | some p =>
    (brIgmpSnoopingForward env (k.view (k.port p).br) k.snooping.table skb skb.hDest true).copies

/-- It is an IP frame that is not IGMP, snooping is enabled, and its group is not left to the
caller. -/
def AlongTable (table : Table) (skb : Frame) (dest : Mac) : Prop :=
  ¬(table.enable = 0 ∨ skb.protocol ≠ ethPIp) ∧
    ¬(table.enable = 1 ∧ (dest = upnpMac ∨ dest = ripv2Mac)) ∧
    skb.data 9 ≠ ipprotoIgmp

/-- Some entry of the group names the port, and the port takes the frame. -/
def IsMember (br : NetBridge) (table : Table) (skb : Frame) (dest : Mac) (q : Nat) : Prop :=
  ∃ e ∈ table.entries, e.grpMac = dest ∧ e.devDst = some q ∧ shouldDeliver (br.port q) skb = true

section
variable {env : Env} {br : NetBridge} {table : Table} {skb : Frame} {dest : Mac}
  {forward : Bool} {q : Nat}

private theorem mem_forwardLoop_iff :
    q ∈ (forwardLoop br skb dest table.entries).1 ↔ IsMember br table skb dest q := by
  rw [← count_pos_iff, forwardLoop_count]
  unfold IsMember members
  split
  next hdeliver =>
    simp [hdeliver]
  next hdeliver =>
    simp [hdeliver]

private theorem mem_copies_iff (halong : AlongTable table skb dest) :
    q ∈ (brIgmpSnoopingForward env br table skb dest forward).copies ↔
      IsMember br table skb dest q := by
  obtain ⟨hactive, hspecial, higmp⟩ := halong
  simp only [brIgmpSnoopingForward, if_neg hactive, if_neg hspecial, if_neg higmp]
  exact mem_forwardLoop_iff

/-- Any other frame goes to ports of the bridge: if at all, it is flooded there. -/
theorem copies_subset_portList (halong : ¬AlongTable table skb dest) :
    (brIgmpSnoopingForward env br table skb dest forward).copies ⊆ br.portList := by
  have hnil (ports : List Nat) : ([] : List Nat) ⊆ ports := nil_subset ports
  simp only [brIgmpSnoopingForward]
  split
  · exact hnil _
  rename_i hactive
  split
  · exact hnil _
  rename_i hspecial
  split
  · split
    · exact hnil _
    simp only [snoopIgmp]
    split
    · exact hnil _
    split
    · exact hnil _
    split
    · split
      · exact filter_sublist.subset
      · exact hnil _
    · exact hnil _
  next higmp =>
    exact absurd ⟨hactive, hspecial, higmp⟩ halong

end

/-- The members that a frame is sent to are behind ports of bridge `b`. -/
def Kernel.MembersWithin (k : Kernel) (skb : Frame) (b : Nat) : Prop :=
  AlongTable k.snooping.table skb skb.hDest →
    ∀ e ∈ k.snooping.table.entries, e.grpMac = skb.hDest → ∀ q, e.devDst = some q →
      shouldDeliver (k.port q).toPort skb = true → q ∈ k.portsOf b

/-- After any history, a frame from a port of bridge `b` is forwarded to ports of `b` only,
exactly if the members it is sent to are behind such ports. -/
theorem copies_stay_on_bridge_iff (memory : Nat → BridgePort) (k : Kernel)
    (hreach : Reaches Event.step Event.Possible (.initial memory) k) (env : Env) (skb : Frame)
    (p b : Nat) (hhandled : k.handled skb = some p) (hport : p ∈ k.portsOf b) :
    (∀ q ∈ k.copies env skb, q ∈ k.portsOf b) ↔ k.MembersWithin skb b := by
  have hwired : k.Wired := by
    apply hreach.invariant (P := Kernel.Wired)
    · exact Kernel.wired_initial memory
    · intro event k hpossible h
      exact event.wired_step hpossible h
  have hbr : (k.port p).br = b := hwired.owner b p hport
  simp only [Kernel.copies, Kernel.MembersWithin, hhandled, hbr]
  constructor
  · intro hstay halong e he hgroup q hq hdeliver
    exact hstay q ((mem_copies_iff halong).mpr ⟨e, he, hgroup, hq, hdeliver⟩)
  intro hwithin q hq
  rcases Classical.em (AlongTable k.snooping.table skb skb.hDest) with halong | hother
  · obtain ⟨e, he, hgroup, hdst, hdeliver⟩ := (mem_copies_iff halong).mp hq
    exact hwithin halong e he hgroup q hdst hdeliver
  · exact copies_subset_portList hother hq

/-- After any history, a port that may get the frame gets one copy for each host behind it that
has joined the group, on whatever bridge it is. -/
theorem Kernel.copies_count {memory : Nat → BridgePort} {k : Kernel}
    (hreach : Reaches Event.step Event.Possible (.initial memory) k) (env : Env)
    {skb : Frame} {p : Nat} (hhandled : k.handled skb = some p)
    (halong : AlongTable k.snooping.table skb skb.hDest) (q : Nat) :
    (k.copies env skb).count q =
      if shouldDeliver (k.port q).toPort skb then
        (joinedHosts skb.hDest q k.snooping.table.entries).card
      else 0 := by
  obtain ⟨hactive, hspecial, higmp⟩ := halong
  rw [not_or, not_not] at hactive
  have hgroup : k.snooping.table.enable = 1 → skb.hDest ≠ upnpMac ∧ skb.hDest ≠ ripv2Mac := by
    intro hmode
    rw [← not_or]
    exact fun hboth => hspecial ⟨hmode, hboth⟩
  simp only [copies, hhandled]
  rw [forward_count env _ true hactive.1 hactive.2 higmp hgroup,
    members_eq_card (Kernel.soundEntries hreach)]
  rfl

def groupFrame (i : Nat) : Frame :=
  { joinFrame i with data := fun n => if n = 9 then 17 else 0 }

theorem other_bridge_copies_counted :
    ((run Event.step (twoBridges ++ [.receive ⟨0, true⟩ (joinFrame 1)]) bootKernel).copies
      ⟨0, true⟩ (groupFrame 0)).count 1 = 1 := by
  refine Kernel.copies_count (.run_allowed .start ?_) _ rfl ⟨by decide, by decide, by decide⟩ 1
  exact twoBridges_possible.append ⟨rfl, trivial⟩

def secondPort : List Event :=
  [.request (.addIf 0 (ethDevice 2) .ethernet 2 true), .resume, .resume, .stp 2 .forwarding,
    .receive ⟨0, true⟩ (joinFrame 0)]

theorem frame_goes_to_member_on_bridge :
    0 ∈ (run Event.step (twoBridges ++ secondPort) bootKernel).copies ⟨0, true⟩ (groupFrame 2) ∧
    ∀ q ∈ (run Event.step (twoBridges ++ secondPort) bootKernel).copies ⟨0, true⟩ (groupFrame 2),
      q ∈ (run Event.step (twoBridges ++ secondPort) bootKernel).portsOf 0 := by
  have hreach : Reaches Event.step Event.Possible bootKernel
      (run Event.step (twoBridges ++ secondPort) bootKernel) := by
    apply Reaches.run_allowed .start
    apply twoBridges_possible.append
    refine ⟨⟨?_, ?_⟩, trivial, trivial, trivial, rfl, trivial⟩
    · intro b hb
      match b with
      | 0 => cases mem_singleton.mp hb
      | 1 => cases mem_singleton.mp hb
      | b + 2 => cases hb
    · intro d hd
      have hother : update (update (fun _ => none) 10 (some 0)) 11
          (some 1) d = some 2 := hd
      simp only [update_apply] at hother
      split at hother
      · cases hother
      split at hother
      · cases hother
      · cases hother
  refine ⟨mem_cons_self, ?_⟩
  refine (copies_stay_on_bridge_iff _ _ hreach _ _ 2 0 rfl mem_cons_self).mpr ?_
  intro _ e he _ q hq _
  rw [mem_singleton.mp he] at hq
  cases hq
  exact mem_cons_of_mem 2 mem_cons_self

/-- A member joins on the second bridge: a frame from the first is forwarded to its
port. -/
theorem frame_crosses_to_other_bridge :
    ∃ k, Reaches Event.step Event.Possible bootKernel k ∧
      k.handled (groupFrame 0) = some 0 ∧ 0 ∈ k.portsOf 0 ∧
      k.copies ⟨0, true⟩ (groupFrame 0) = [1] ∧ 1 ∉ k.portsOf 0 := by
  refine ⟨run Event.step (twoBridges ++ [.receive ⟨0, true⟩ (joinFrame 1)]) bootKernel,
    ?_, rfl, mem_cons_self, rfl, ?_⟩
  · apply Reaches.run_allowed .start
    exact twoBridges_possible.append ⟨rfl, trivial⟩
  · intro hmem
    cases mem_singleton.mp hmem

end EchoLife.Bridge
