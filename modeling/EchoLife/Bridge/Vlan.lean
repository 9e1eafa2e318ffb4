import EchoLife.Bridge.Snooping

/-!
VLANs on the LAN ports of a bridge. A frame is classified when it comes in, by its
tag or by the VLAN of its port; the check before it goes out on another LAN port
asks whether that port is in the same VLAN.
-/

namespace EchoLife.Bridge

open List

def vlanIdNumMax : Nat := 8

/-- `struct port_vlanInfo`; a slot with 0 is empty. -/
structure PortVlanInfo where
  tag : List UInt16
  untag : List UInt16
  pvid : UInt16
  tag_length : tag.length = vlanIdNumMax
  untag_length : untag.length = vlanIdNumMax

structure VlanPort where
  dev : NetDevice
  vlaninfo : PortVlanInfo

inductive VlanType where
  | tag
  | untag
  | pvid
  | other
  deriving DecidableEq

/-- What is to be done with the VLAN header when the frame is sent. -/
inductive VlanNook where
  | init
  | tag
  | remove
  | localOut
  | other
  deriving DecidableEq

/-- The fields of an `sk_buff` that VLANs use; `hVlanTci`, in front of the data, counts only in a
tagged frame. -/
structure VlanSkb where
  tagged : Bool
  hVlanTci : UInt16
  vlanIdFlags : VlanType
  hVlanId : UInt16
  hVlanNook : VlanNook
  deriving DecidableEq

inductive Verdict where
  | accept
  | drop
  deriving DecidableEq

/-- An interface `eth...` or `wl...`, or any other with these first letters. -/
def NetDevice.isLan (dev : NetDevice) : Bool :=
  dev.char 0 == 0x65 || dev.char 0 == 0x77

def holdsVlan (slots : List UInt16) (vlanId : UInt16) : Bool :=
  slots.any (fun slot => slot != 0 && slot == vlanId)

section
variable (port : PortVlanInfo) (vlanId : UInt16)

def brVlanGetType : VlanType :=
  if holdsVlan port.tag vlanId then .tag
  else if holdsVlan port.untag vlanId then .untag
  else if port.pvid ≠ 0 ∧ port.pvid = vlanId then .pvid
  else .other

def brVlanIdTagExist : Bool :=
  holdsVlan port.tag vlanId

def brVlanPortTagOrUntagExist : Bool :=
  (zip port.tag port.untag).any (fun slot => slot.1 != 0 || slot.2 != 0)

def brVlanPreRouting (vlanEnable : Bool) (inport : VlanPort) (skb : VlanSkb) : Verdict × VlanSkb :=
  let skb := { skb with vlanIdFlags := .other, hVlanId := 0, hVlanNook := .init }
  if vlanEnable then
    if inport.dev.isLan then
      if skb.tagged then
        if brVlanIdTagExist inport.vlaninfo skb.hVlanTci then
          (.accept, { skb with vlanIdFlags := .tag, hVlanId := skb.hVlanTci })
        else (.drop, skb)
      else if brVlanPortTagOrUntagExist inport.vlaninfo then
        if inport.vlaninfo.pvid ≠ 0 then
          (.accept, { skb with vlanIdFlags := .pvid, hVlanId := inport.vlaninfo.pvid })
        else (.drop, skb)
      else if inport.vlaninfo.pvid ≠ 0 then
        (.accept, { skb with vlanIdFlags := .pvid, hVlanId := inport.vlaninfo.pvid })
      else (.accept, { skb with vlanIdFlags := .untag, hVlanId := 0 })
    else (.accept, skb)
  else (.accept, skb)

def brVlanForward (vlanEnable : Bool) (inport outport : VlanPort) (skb : VlanSkb) :
    Verdict × VlanSkb :=
  if vlanEnable then
    if inport.dev.isLan then
      if outport.dev.isLan then
        if skb.vlanIdFlags ≠ .untag ∧ skb.hVlanId ≠ 0 then
          match brVlanGetType outport.vlaninfo skb.hVlanId with
          | .tag =>
            (.accept, if skb.tagged then skb else { skb with hVlanNook := .tag })
          | .untag =>
            (.accept, if skb.tagged then { skb with hVlanNook := .remove } else skb)
          | .pvid => (.accept, skb)
          | .other => (.drop, skb)
        else if brVlanPortTagOrUntagExist outport.vlaninfo then (.drop, skb)
        else if outport.vlaninfo.pvid ≠ 0 then (.drop, skb)
        else (.accept, skb)
      else (.accept, skb)
    else (.accept, skb)
  else (.accept, skb)

/-- The VLAN is one of the port, by a tag, an untag or the port's own. -/
def PortVlanInfo.Member : Prop :=
  vlanId ≠ 0 ∧ (vlanId = port.pvid ∨ vlanId ∈ port.tag ∨ vlanId ∈ port.untag)

def PortVlanInfo.Unconfigured : Prop :=
  port.pvid = 0 ∧ (∀ slot ∈ port.tag, slot = 0) ∧ ∀ slot ∈ port.untag, slot = 0

theorem holdsVlan_iff (slots : List UInt16) (vlanId : UInt16) :
    holdsVlan slots vlanId = true ↔ vlanId ≠ 0 ∧ vlanId ∈ slots := by
  simp only [holdsVlan, any_eq_true, Bool.and_eq_true, bne_iff_ne, beq_iff_eq]
  constructor
  · rintro ⟨slot, hslot, hne, rfl⟩
    exact ⟨hne, hslot⟩
  · rintro ⟨hne, hslot⟩
    exact ⟨vlanId, hslot, hne, rfl⟩

theorem brVlanGetType_ne_other_iff : brVlanGetType port vlanId ≠ .other ↔ port.Member vlanId := by
  unfold brVlanGetType PortVlanInfo.Member
  split
  next htag =>
    rw [holdsVlan_iff] at htag
    exact iff_of_true (by decide) ⟨htag.1, .inr (.inl htag.2)⟩
  rename_i htag
  rw [holdsVlan_iff, not_and] at htag
  split
  next huntag =>
    rw [holdsVlan_iff] at huntag
    exact iff_of_true (by decide) ⟨huntag.1, .inr (.inr huntag.2)⟩
  rename_i huntag
  rw [holdsVlan_iff, not_and] at huntag
  split
  next hpvid =>
    refine iff_of_true (by decide) ⟨?_, .inl hpvid.2.symm⟩
    rw [← hpvid.2]
    exact hpvid.1
  rename_i hpvid
  refine iff_of_false (fun h => h rfl) ?_
  rintro ⟨hne, hsame | hmem | hmem⟩
  · rw [hsame] at hne
    exact hpvid ⟨hne, hsame.symm⟩
  · exact htag hne hmem
  · exact huntag hne hmem

private theorem tagOrUntag_iff :
    brVlanPortTagOrUntagExist port = false ↔
      (∀ slot ∈ port.tag, slot = 0) ∧ ∀ slot ∈ port.untag, slot = 0 := by
  have hlength : port.tag.length = port.untag.length :=
    port.tag_length.trans port.untag_length.symm
  have hboth : brVlanPortTagOrUntagExist port = false ↔
      ∀ slot ∈ zip port.tag port.untag, slot.1 = 0 ∧ slot.2 = 0 := by
    simp only [brVlanPortTagOrUntagExist, any_eq_false, Bool.or_eq_true, not_or,
      bne_iff_ne, not_not]
  rw [hboth]
  constructor
  · intro h
    constructor
    · intro slot hslot
      rw [← map_fst_zip hlength.le] at hslot
      obtain ⟨pair, hpair, rfl⟩ := mem_map.mp hslot
      exact (h pair hpair).1
    · intro slot hslot
      rw [← map_snd_zip hlength.ge] at hslot
      obtain ⟨pair, hpair, rfl⟩ := mem_map.mp hslot
      exact (h pair hpair).2
  · rintro ⟨htag, huntag⟩ ⟨first, second⟩ hpair
    obtain ⟨hfirst, hsecond⟩ := of_mem_zip hpair
    exact ⟨htag first hfirst, huntag second hsecond⟩

theorem unconfigured_iff :
    port.Unconfigured ↔ brVlanPortTagOrUntagExist port = false ∧ port.pvid = 0 := by
  rw [tagOrUntag_iff]
  exact and_comm

end

variable {inport : VlanPort} {skb : VlanSkb}

/-- What is accepted from a LAN port is in a VLAN of it, or the port has no VLANs and the frame no
tag. -/
theorem preRouting_accept (hlan : inport.dev.isLan = true)
    (haccept : (brVlanPreRouting true inport skb).1 = .accept) :
    ((brVlanPreRouting true inport skb).2.vlanIdFlags ≠ .untag ∧
      inport.vlaninfo.Member (brVlanPreRouting true inport skb).2.hVlanId) ∨
    ((brVlanPreRouting true inport skb).2.vlanIdFlags = .untag ∧ inport.vlaninfo.Unconfigured) := by
  simp only [brVlanPreRouting, hlan, if_true] at haccept ⊢
  split at haccept
  · split at haccept
    next htagged hexist =>
      obtain ⟨hne, hmem⟩ := (holdsVlan_iff _ _).mp hexist
      rw [if_pos htagged, if_pos hexist]
      exact .inl ⟨by simp, hne, .inr (.inl hmem)⟩
    · cases haccept
  next huntagged =>
    rw [if_neg huntagged]
    split at haccept
    next hslots =>
      rw [if_pos hslots]
      split at haccept
      next hpvid =>
        rw [if_pos hpvid]
        exact .inl ⟨by simp, hpvid, .inl rfl⟩
      · cases haccept
    next hslots =>
      rw [if_neg hslots]
      split at haccept
      next hpvid =>
        rw [if_pos hpvid]
        exact .inl ⟨by simp, hpvid, .inl rfl⟩
      rename_i hpvid
      rw [if_neg hpvid]
      rw [Bool.not_eq_true] at hslots
      rw [not_not] at hpvid
      exact .inr ⟨rfl, (unconfigured_iff _).mpr ⟨hslots, hpvid⟩⟩

/-- Between LAN ports a classified frame is accepted for the members of its VLAN, another one for
the ports without VLANs. -/
theorem forward_accept_iff {outport : VlanPort}
    (hin : inport.dev.isLan = true) (hout : outport.dev.isLan = true) :
    (brVlanForward true inport outport skb).1 = .accept ↔
      if skb.vlanIdFlags ≠ .untag ∧ skb.hVlanId ≠ 0 then
        outport.vlaninfo.Member skb.hVlanId
      else outport.vlaninfo.Unconfigured := by
  simp only [brVlanForward, hin, hout, if_true]
  split
  · rw [← brVlanGetType_ne_other_iff]
    cases brVlanGetType outport.vlaninfo skb.hVlanId with
    | tag => simp
    | untag => simp
    | pvid => simp
    | other => simp
  · rw [unconfigured_iff]
    split
    next hslots =>
      simp [hslots]
    rename_i hslots
    split
    next hpvid =>
      simp [hpvid]
    rename_i hpvid
    rw [not_not] at hpvid
    simp [hslots, hpvid]

/-- With VLANs enabled, a frame that both checks let through between LAN ports stays in a VLAN
that both are in, or neither has VLANs. -/
theorem lan_frame_stays_in_vlan (inport outport : VlanPort) (skb : VlanSkb)
    (hin : inport.dev.isLan = true) (hout : outport.dev.isLan = true)
    (hpre : (brVlanPreRouting true inport skb).1 = .accept)
    (hforward : (brVlanForward true inport outport
      (brVlanPreRouting true inport skb).2).1 = .accept) :
    (inport.vlaninfo.Unconfigured ∧ outport.vlaninfo.Unconfigured) ∨
    (inport.vlaninfo.Member (brVlanPreRouting true inport skb).2.hVlanId ∧
      outport.vlaninfo.Member (brVlanPreRouting true inport skb).2.hVlanId) := by
  rw [forward_accept_iff hin hout] at hforward
  rcases preRouting_accept hin hpre with ⟨hclassified, hmember⟩ | ⟨hplain, hnone⟩
  · rw [if_pos ⟨hclassified, hmember.1⟩] at hforward
    exact .inr ⟨hmember, hforward⟩
  · rw [if_neg (fun h => h.1 hplain)] at hforward
    exact .inl ⟨hnone, hforward⟩

def ethPort (pvid : UInt16) : VlanPort where
  dev := ⟨11, [0x65, 0x74, 0x68]⟩
  vlaninfo := ⟨replicate 8 0, replicate 8 0, pvid, rfl, rfl⟩

private theorem ethPort_member {pvid vlanId : UInt16}
    (h : (ethPort pvid).vlaninfo.Member vlanId) : vlanId = pvid := by
  obtain ⟨hne, hpvid | htag | huntag⟩ := h
  · exact hpvid
  · exact absurd (eq_of_mem_replicate htag) hne
  · exact absurd (eq_of_mem_replicate huntag) hne

def untaggedSkb : VlanSkb :=
  ⟨false, 0, .other, 0, .init⟩

theorem same_vlan_accepted :
    (ethPort 5).vlaninfo.Member 5 ∧
    (brVlanForward true (ethPort 5) (ethPort 5)
      (brVlanPreRouting true (ethPort 5) untaggedSkb).2).1 = .accept := by
  rcases lan_frame_stays_in_vlan (ethPort 5) (ethPort 5) untaggedSkb rfl rfl rfl rfl with
    ⟨hnone, _⟩ | ⟨hmember, _⟩
  · cases hnone.1
  · exact ⟨hmember, rfl⟩

/-- On a bridge where VLANs are not enabled the settings of the ports do not count. -/
theorem disabled_vlans_mixed :
    (brVlanPreRouting false (ethPort 5) untaggedSkb).1 = .accept ∧
    (brVlanForward false (ethPort 5) (ethPort 7)
      (brVlanPreRouting false (ethPort 5) untaggedSkb).2).1 = .accept ∧
    ¬(ethPort 5).vlaninfo.Unconfigured ∧
    ∀ vlanId, ¬((ethPort 5).vlaninfo.Member vlanId ∧ (ethPort 7).vlaninfo.Member vlanId) := by
  refine ⟨rfl, rfl, ?_, ?_⟩
  · rintro ⟨hpvid, _⟩
    cases hpvid
  · rintro vlanId ⟨hfive, hseven⟩
    cases (ethPort_member hfive).symm.trans (ethPort_member hseven)

def vlanVid (tci : UInt16) : UInt16 :=
  tci % 0x1000

/-- What is decided about an incoming frame: the verdict and the VLAN it is put into. -/
def decision (vlanEnable : Bool) (inport : VlanPort) (skb : VlanSkb) :
    Verdict × VlanType × UInt16 :=
  let result := brVlanPreRouting vlanEnable inport skb
  (result.1, result.2.vlanIdFlags, result.2.hVlanId)

/-- On a LAN port the whole word behind the type is looked up among the tags. -/
theorem decision_tagged (hlan : inport.dev.isLan = true) (htagged : skb.tagged = true) :
    decision true inport skb =
      if brVlanIdTagExist inport.vlaninfo skb.hVlanTci then (.accept, .tag, skb.hVlanTci)
      else (.drop, .other, 0) := by
  simp only [decision, brVlanPreRouting, hlan, htagged, if_true]
  split
  · rfl
  · rfl

/-- The priority and the CFI bit do not count exactly where the tag does not: on a bridge without
VLANs, on a port that is none of the LAN, and on a port without tags, which takes no tagged frame.
-/
theorem priority_ignored_iff (vlanEnable : Bool) (inport : VlanPort) :
    (∀ (skb : VlanSkb) (tci : UInt16), skb.tagged = true → vlanVid tci = vlanVid skb.hVlanTci →
      decision vlanEnable inport { skb with hVlanTci := tci } = decision vlanEnable inport skb) ↔
    vlanEnable = false ∨ inport.dev.isLan = false ∨ ∀ slot ∈ inport.vlaninfo.tag, slot = 0 := by
  constructor
  · intro hsame
    by_contra hcounts
    simp only [not_or, Bool.not_eq_false, not_forall] at hcounts
    obtain ⟨rfl, hlan, slot, hslot, hne⟩ := hcounts
    have hvid : vlanVid (slot + 0x1000) = vlanVid slot := by
      apply UInt16.toNat_inj.mp
      simp [vlanVid]
    have hmoved : slot + 0x1000 ≠ slot := by
      intro h
      have := UInt16.toNat_inj.mpr h
      simp at this
      omega
    have hdecided := hsame ⟨true, slot, .other, 0, .init⟩ (slot + 0x1000) rfl hvid
    have hexist : brVlanIdTagExist inport.vlaninfo slot = true :=
      (holdsVlan_iff _ _).mpr ⟨hne, hslot⟩
    rw [decision_tagged hlan rfl, decision_tagged hlan rfl, if_pos hexist] at hdecided
    split at hdecided
    · simp [hmoved] at hdecided
    · cases hdecided
  · intro hnone skb tci htagged _
    cases vlanEnable with
    | false => rfl
    | true =>
      cases hlan : inport.dev.isLan with
      | false => simp [decision, brVlanPreRouting, hlan]
      | true =>
        simp only [hlan, Bool.true_eq_false, false_or] at hnone
        have hdrops (other : VlanSkb) (hother : other.tagged = true) :
            decision true inport other = (.drop, .other, 0) := by
          rw [decision_tagged hlan hother, if_neg]
          intro hexist
          obtain ⟨hne, hmem⟩ := (holdsVlan_iff _ _).mp hexist
          exact hne (hnone _ hmem)
        rw [hdrops skb htagged]
        exact hdrops _ htagged

def tagPort (tag : UInt16) : VlanPort where
  dev := ⟨11, [0x65, 0x74, 0x68]⟩
  vlaninfo := ⟨tag :: replicate 7 0, replicate 8 0, 0, rfl, rfl⟩

/-- Tags with id 5: without priority the frame is taken, with priority 1 it is not. -/
theorem tag_with_priority_dropped :
    vlanVid 0x2005 = vlanVid 5 ∧
    decision true (tagPort 5) ⟨true, 5, .other, 0, .init⟩ = (.accept, .tag, 5) ∧
    decision true (tagPort 5) ⟨true, 0x2005, .other, 0, .init⟩ = (.drop, .other, 0) :=
  ⟨by decide, rfl, rfl⟩

end EchoLife.Bridge
