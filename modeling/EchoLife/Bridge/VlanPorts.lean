import EchoLife.Base.Text
import EchoLife.Bridge.Vlan

/-!
How the VLANs of the ports are set. A request names a port, one of three kinds and an
id of 32 bits; the lists keep 16 bits of it, in eight slots of which those with 0 are
empty.
-/

namespace EchoLife.Bridge

open Function List Run Text

section
variable (value : UInt32) (slots : List UInt16)

def holdsValue (slot : UInt16) : Bool :=
  slot != 0 && slot.toUInt32 == value

def writeFirst (hit : UInt16 → Bool) (vlanId : UInt16) : List UInt16 → List UInt16
  | [] => []
  | slot :: rest => if hit slot then vlanId :: rest else slot :: writeFirst hit vlanId rest

/-- The two loops of `br_vlan_set_by_port` over a list. -/
def setSlot : List UInt16 :=
  if slots.any (holdsValue value) then slots else writeFirst (· == 0) value.toUInt16 slots

/-- The loop of `br_vlan_del_by_port` over a list. -/
def delSlot : List UInt16 :=
  writeFirst (holdsValue value) 0 slots

end

variable {hit : UInt16 → Bool} {vlanId other : UInt16} {slots : List UInt16} {value : UInt32}

theorem writeFirst_length : (writeFirst hit vlanId slots).length = slots.length := by
  induction slots with
  | nil => rfl
  | cons slot rest ih =>
    simp only [writeFirst]
    split
    · rfl
    · rw [length_cons, ih, length_cons]

private theorem setSlot_length : (setSlot value slots).length = slots.length := by
  unfold setSlot
  split
  · rfl
  · exact writeFirst_length

variable (port : PortVlanInfo)

def brVlanSetByPort (value : UInt32) : VlanType → PortVlanInfo
  | .tag => { port with
      tag := setSlot value port.tag
      tag_length := setSlot_length.trans port.tag_length }
  | .untag => { port with
      untag := setSlot value port.untag
      untag_length := setSlot_length.trans port.untag_length }
  | .pvid => { port with pvid := value.toUInt16 }
  | .other => port

def brVlanDelByPort (value : UInt32) : VlanType → PortVlanInfo
  | .tag => { port with
      tag := delSlot value port.tag
      tag_length := writeFirst_length.trans port.tag_length }
  | .untag => { port with
      untag := delSlot value port.untag
      untag_length := writeFirst_length.trans port.untag_length }
  | .pvid => { port with pvid := 0 }
  | .other => port

/-- `BRCTL_SET_VLAN_ID` and `BRCTL_DEL_VLAN_ID` with their arguments. -/
structure VlanRequest where
  delete : Bool
  capable : Bool
  portNo : Nat
  kind : List UInt8
  value : UInt32

def VlanRequest.opt (r : VlanRequest) : Option VlanType :=
  if r.kind = bytes "tag" then some .tag
  else if r.kind = bytes "untag" then some .untag
  else if r.kind = bytes "pvid" then some .pvid
  else none

def VlanRequest.apply (r : VlanRequest) (port : PortVlanInfo) (opt : VlanType) : PortVlanInfo :=
  if r.delete then brVlanDelByPort port r.value opt else brVlanSetByPort port r.value opt

/-- The two requests in `old_dev_ioctl`: what is returned, and the ports by number. -/
def VlanRequest.ioctl (r : VlanRequest) (ports : Nat → Option PortVlanInfo) :
    Int × (Nat → Option PortVlanInfo) :=
  if r.capable then
    match r.opt, ports r.portNo with
    | none, _ => (-1, ports)
    | some _, none => (-22, ports)
    | some opt, some port => (0, update ports r.portNo (some (r.apply port opt)))
  else (-1, ports)

def NoTwice (slots : List UInt16) : Prop :=
  ∀ vlanId, vlanId ≠ 0 → slots.count vlanId ≤ 1

def PortsNoTwice (ports : Nat → Option PortVlanInfo) : Prop :=
  ∀ portNo port, ports portNo = some port → NoTwice port.tag ∧ NoTwice port.untag

def PortVlanInfo.Has (vlanId : UInt16) : VlanType → Prop
  | .tag => vlanId ≠ 0 ∧ vlanId ∈ port.tag
  | .untag => vlanId ≠ 0 ∧ vlanId ∈ port.untag
  | .pvid => vlanId ≠ 0 ∧ vlanId = port.pvid
  | .other => False

def PortVlanInfo.Room : VlanType → Prop
  | .tag => 0 ∈ port.tag
  | .untag => 0 ∈ port.untag
  | .pvid => True
  | .other => False

/-! ### One list -/

private theorem count_clear_le (hother : other ≠ 0) :
    (writeFirst hit 0 slots).count other ≤ slots.count other := by
  induction slots with
  | nil => exact le_refl 0
  | cons slot rest ih =>
    simp only [writeFirst, count_cons]
    split
    · simp [hother.symm]
    · simp [count_cons, ih]

theorem count_fill (hother : other ≠ 0) :
    (writeFirst (· == 0) vlanId slots).count other =
      slots.count other + if vlanId = other ∧ 0 ∈ slots then 1 else 0 := by
  induction slots with
  | nil => simp [writeFirst]
  | cons slot rest ih =>
    simp only [writeFirst]
    grind

section
variable (hword : value.toNat < 0x10000)
include hword

theorem holdsValue_iff (slot : UInt16) :
    holdsValue value slot = true ↔ slot ≠ 0 ∧ slot = value.toUInt16 := by
  have hsame : slot.toUInt32 = value ↔ slot = value.toUInt16 := by
    rw [← UInt32.toNat_inj, ← UInt16.toNat_inj, UInt16.toNat_toUInt32, UInt32.toNat_toUInt16,
      Nat.mod_eq_of_lt hword]
  rw [holdsValue, Bool.and_eq_true, bne_iff_ne, beq_iff_eq, hsame]

theorem setSlot_eq (hne : value.toUInt16 ≠ 0) :
    setSlot value slots = if value.toUInt16 ∈ slots then slots
      else writeFirst (· == 0) value.toUInt16 slots := by
  have hany : slots.any (holdsValue value) = true ↔ value.toUInt16 ∈ slots := by
    simp only [any_eq_true, holdsValue_iff hword]
    constructor
    · rintro ⟨slot, hslot, _, rfl⟩
      exact hslot
    · intro hmem
      exact ⟨_, hmem, hne, rfl⟩
  simp only [setSlot, hany]

theorem NoTwice.set (h : NoTwice slots) : NoTwice (setSlot value slots) := by
  intro other hother
  unfold setSlot
  split
  · exact h other hother
  next hnew =>
    rw [count_fill hother]
    split
    next hwritten =>
      have habsent : other ∉ slots := by
        intro hmem
        apply hnew
        exact any_eq_true.mpr
          ⟨other, hmem, (holdsValue_iff hword other).mpr ⟨hother, hwritten.1.symm⟩⟩
      rw [count_eq_zero.mpr habsent]
    · exact h other hother

private theorem mem_setSlot (hne : value.toUInt16 ≠ 0) :
    value.toUInt16 ∈ setSlot value slots ↔ value.toUInt16 ∈ slots ∨ 0 ∈ slots := by
  rw [setSlot_eq hword hne]
  split
  next hmem =>
    simp [hmem]
  next hnew =>
    rw [← count_pos_iff, count_fill hne, count_eq_zero.mpr hnew]
    by_cases hroom : 0 ∈ slots
    · simp [hroom]
    · simp [hroom, hnew]

private theorem delSlot_setSlot (hne : value.toUInt16 ≠ 0) (hnew : value.toUInt16 ∉ slots) :
    delSlot value (setSlot value slots) = slots := by
  rw [setSlot_eq hword hne, if_neg hnew, delSlot]
  induction slots with
  | nil => rfl
  | cons slot rest ih =>
    have hhit := holdsValue_iff hword
    grind [writeFirst]

end

/-! ### The requests -/

/-- An id of 16 bits that is set is one of the port exactly if there is room, and deleting it
restores the port unless it was set as another own VLAN. -/
theorem set_by_port (opt : VlanType) (hword : value.toNat < 0x10000) (hne : value.toUInt16 ≠ 0) :
    ((brVlanSetByPort port value opt).Has value.toUInt16 opt ↔
      port.Has value.toUInt16 opt ∨ port.Room opt) ∧
    (¬port.Has value.toUInt16 opt →
      (brVlanDelByPort (brVlanSetByPort port value opt) value opt = port ↔
        (opt = .pvid → port.pvid = 0))) := by
  obtain ⟨tag, untag, pvid, _, _⟩ := port
  simp only [PortVlanInfo.Has, PortVlanInfo.Room]
  cases opt with
  | tag =>
    refine ⟨by simp [brVlanSetByPort, hne, mem_setSlot hword hne], ?_⟩
    intro hnew
    have hback := delSlot_setSlot hword hne (fun hmem => hnew ⟨hne, hmem⟩)
    simp [brVlanDelByPort, brVlanSetByPort, hback]
  | untag =>
    refine ⟨by simp [brVlanSetByPort, hne, mem_setSlot hword hne], ?_⟩
    intro hnew
    have hback := delSlot_setSlot hword hne (fun hmem => hnew ⟨hne, hmem⟩)
    simp [brVlanDelByPort, brVlanSetByPort, hback]
  | pvid => simp [brVlanDelByPort, brVlanSetByPort, hne, eq_comm]
  | other => simp [brVlanDelByPort, brVlanSetByPort]

theorem PortsNoTwice.ioctl {r : VlanRequest} {ports : Nat → Option PortVlanInfo}
    (h : PortsNoTwice ports) (hword : r.value.toNat < 0x10000) :
    PortsNoTwice (r.ioctl ports).2 := by
  unfold VlanRequest.ioctl
  split
  · split
    · exact h
    · exact h
    next opt port _ hport =>
      intro portNo changed hchanged
      simp only [update_apply] at hchanged
      split at hchanged
      · obtain ⟨htag, huntag⟩ := h _ _ hport
        obtain rfl := Option.some.inj hchanged
        have hclear {slots : List UInt16} (hslots : NoTwice slots) :
            NoTwice (delSlot r.value slots) :=
          fun other hother => (count_clear_le hother).trans (hslots other hother)
        unfold VlanRequest.apply
        split
        · cases opt with
          | tag => exact ⟨hclear htag, huntag⟩
          | untag => exact ⟨htag, hclear huntag⟩
          | pvid => exact ⟨htag, huntag⟩
          | other => exact ⟨htag, huntag⟩
        · cases opt with
          | tag => exact ⟨htag.set hword, huntag⟩
          | untag => exact ⟨htag, huntag.set hword⟩
          | pvid => exact ⟨htag, huntag⟩
          | other => exact ⟨htag, huntag⟩
      · exact h portNo changed hchanged
  · exact h

/-- With ids of 16 bits no list has an id twice. A set answered with 0 makes the id one of the
port exactly if there is a slot for it, and deleting it when it was new restores the port unless
the port had another own VLAN. -/
theorem vlan_ports_lawful (requests : List VlanRequest)
    (hwords : ∀ r ∈ requests, r.value.toNat < 0x10000) (ports : Nat → Option PortVlanInfo)
    (hports : PortsNoTwice ports) :
    let after := run (fun r ports => (VlanRequest.ioctl r ports).2) requests ports
    PortsNoTwice after ∧
    ∀ (r : VlanRequest) (opt : VlanType) (port : PortVlanInfo), r.delete = false →
      r.capable = true → r.opt = some opt → after r.portNo = some port →
      r.value.toNat < 0x10000 → r.value.toUInt16 ≠ 0 →
      ∃ changed, r.ioctl after = (0, update after r.portNo (some changed)) ∧
        (changed.Has r.value.toUInt16 opt ↔ port.Has r.value.toUInt16 opt ∨ port.Room opt) ∧
        (¬port.Has r.value.toUInt16 opt →
          (VlanRequest.apply { r with delete := true } changed opt = port ↔
            (opt = .pvid → port.pvid = 0))) := by
  intro after
  constructor
  · apply run_invariant (P := PortsNoTwice) _ hports
    intro r hr ports h
    exact h.ioctl (hwords r hr)
  · intro r opt port hset hcapable hopt hport hword hne
    refine ⟨brVlanSetByPort port r.value opt, ?_, set_by_port port opt hword hne⟩
    simp [VlanRequest.ioctl, VlanRequest.apply, hcapable, hopt, hport, hset]

def onePort (portNo : Nat) : Option PortVlanInfo :=
  if portNo = 0 then some (ethPort 0).vlaninfo else none

def setRequest (kind : List UInt8) (value : UInt32) : VlanRequest :=
  ⟨false, true, 0, kind, value⟩

def threeSettings : List VlanRequest :=
  [setRequest (bytes "tag") 5, setRequest (bytes "untag") 6, setRequest (bytes "tag") 5]

private theorem onePort_noTwice : PortsNoTwice onePort := by
  intro portNo port hport
  simp only [onePort, Option.ite_none_right_eq_some, Option.some.injEq] at hport
  obtain ⟨_, rfl⟩ := hport
  have hnone : NoTwice (List.replicate 8 0) := by
    intro vlanId hne
    simp [hne.symm]
  exact ⟨hnone, hnone⟩

/-- A tag is set twice and an id without one; then a second tag is entered and can be taken back. -/
theorem third_tag_lawful :
    PortsNoTwice (run (fun r ports => (VlanRequest.ioctl r ports).2) threeSettings onePort) ∧
      ∃ port changed, run (fun r ports => (VlanRequest.ioctl r ports).2) threeSettings onePort 0 =
        some port ∧ changed.Has 9 .tag ∧
        VlanRequest.apply { setRequest (bytes "tag") 9 with delete := true } changed .tag =
          port := by
  have hlawful := vlan_ports_lawful threeSettings (by decide) onePort onePort_noTwice
  obtain ⟨changed, -, hhas, hback⟩ :=
    hlawful.2 (setRequest (bytes "tag") 9) .tag _ rfl rfl rfl rfl (by decide) (by decide)
  refine ⟨hlawful.1, _, changed, rfl, hhas.mpr (.inr ?_), (hback ?_).mpr nofun⟩
  · change 0 ∈ PortVlanInfo.tag _
    decide
  · rintro ⟨-, hmem⟩
    revert hmem
    decide

/-- An id of 17 bits is entered beside the same 16 bits; a ninth tag is answered with 0 and not
there; deleting the own VLAN does not bring back the one before. -/
theorem vlan_settings_lost :
    (∃ port, run (fun r ports => (VlanRequest.ioctl r ports).2)
      ([5, 0x10005].map (setRequest (bytes "tag"))) onePort 0 = some port ∧
      port.tag.count 5 = 2) ∧
    (∃ full, run (fun r ports => (VlanRequest.ioctl r ports).2)
      ([1, 2, 3, 4, 5, 6, 7, 8].map (setRequest (bytes "tag"))) onePort = full ∧
      ((setRequest (bytes "tag") 9).ioctl full).1 = 0 ∧
      ∃ port, ((setRequest (bytes "tag") 9).ioctl full).2 0 = some port ∧ ¬port.Has 9 .tag) ∧
    brVlanDelByPort (brVlanSetByPort (ethPort 3).vlaninfo 7 .pvid) 7 .pvid =
      (ethPort 0).vlaninfo := by
  refine ⟨⟨_, rfl, by decide⟩, ⟨_, rfl, rfl, _, rfl, ?_⟩, rfl⟩
  rintro ⟨_, hmem⟩
  revert hmem
  decide

end EchoLife.Bridge
