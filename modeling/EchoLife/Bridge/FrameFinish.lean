import EchoLife.Base.Ownership
import EchoLife.Bridge.Kernel
import EchoLife.Dhcp.Options

/-!
What becomes of a frame's buffer in `br_handle_frame_finish`, in the configuration
of the HG553: it goes up to the host, out on the ports, or is freed. Copies are
made by `skb_clone`, which can fail.
-/

namespace EchoLife.Bridge

open List Ownership

structure Skb extends Frame where
  len : Nat

structure FdbEntry where
  dst : Nat
  isLocal : Bool

/-- What `br_handle_frame_finish` consults; the forwarding database already has the source address
of the frame. -/
structure FinishState where
  br : NetBridge
  promisc : Bool
  table : Table
  fdb : Mac → Option FdbEntry
  dhcpoption : List UInt8
  dhcpIpphoneVlan : Int

inductive Use where
  | passUp
  | send (port : Nat)
  | free
  deriving DecidableEq

section
variable (ok : Nat → Bool)

def brPassFrameUp (b : Nat) (s : Ledger Use) : Ledger Use :=
  s.give b .passUp

def kfreeSkb (b : Nat) (s : Ledger Use) : Ledger Use :=
  s.give b .free

/-- `br_forward` with the buffer it is given. -/
def brForwardSkb (br : NetBridge) (dst : Nat) (skb : Frame) (b : Nat) (s : Ledger Use) :
    Ledger Use :=
  if shouldDeliver (br.port dst) skb then s.give b (.send dst) else kfreeSkb b s

/-- The loop of `br_flood` over the ports that are to get the frame, with `prev`. -/
def floodLoop (b : Nat) : List Nat → Option Nat → Ledger Use → Ledger Use
  | [], none, s => kfreeSkb b s
  | [], some prev, s => s.give b (.send prev)
  | p :: rest, none, s => floodLoop b rest (some p) s
  | p :: rest, some prev, s =>
    match s.clone ok with
    | (none, s) => kfreeSkb b s
    | (some skb2, s) => floodLoop b rest (some p) (s.give skb2 (.send prev))

def brFloodForward (br : NetBridge) (skb : Frame) (b : Nat) (clone : Bool)
    (s : Ledger Use) : Ledger Use :=
  if clone then
    match s.clone ok with
    | (none, s) => s
    | (some skb2, s) => floodLoop ok skb2 (brFlood br skb true) none s
  else floodLoop ok b (brFlood br skb true) none s

/-- The loop of `br_igmp_snooping_forward`. The result of `skb_clone` is used unchecked, hence
`none`. -/
def snoopingCopies (br : NetBridge) (skb : Frame) (dest : Mac) :
    List Entry → Ledger Use → Option (Ledger Use)
  | [], s => some s
  | e :: rest, s =>
    if e.grpMac = dest then
      match e.devDst with
      | none => snoopingCopies br skb dest rest s
      | some dst =>
        match s.clone ok with
        | (none, _) => none
        | (some skb2, s) =>
          snoopingCopies br skb dest rest (brForwardSkb br dst skb skb2 s)
    else snoopingCopies br skb dest rest s

def leftGroup (skb : Frame) : Mac :=
  let ipHeadLen := (skb.data 0).toNat % 16 * 4
  groupMac (skb.data (ipHeadLen + 5)) (skb.data (ipHeadLen + 6)) (skb.data (ipHeadLen + 7))

def igmpType (skb : Frame) : UInt8 :=
  skb.data ((skb.data 0).toNat % 16 * 4)

/-- The buffers of `br_igmp_snooping_forward` for a frame that is forwarded. -/
def snoopingBuffers (br : NetBridge) (table : Table) (skb : Frame) (dest : Mac)
    (s : Ledger Use) : Option (Ledger Use) :=
  if table.enable = 0 ∨ skb.protocol ≠ ethPIp then some s
  else if table.enable = 1 ∧ (dest = upnpMac ∨ dest = ripv2Mac) then some s
  else if skb.data 9 = ipprotoIgmp then
    match skb.brPort with
    | none => some s
    | some devPort =>
      if igmpType skb = 0x17 ∧ brIgmpSnoopingEmpty (leftGroup skb)
          (brIgmpSnoopingDel devPort (leftGroup skb) skb.hSource table.entries) then
        match s.clone ok with
        | (none, _) => none
        | (some skb2, s) => some (brFloodForward ok br skb skb2 false s)
      else some s
  else snoopingCopies ok br skb dest table.entries s

end

def strstr (text pattern : List UInt8) : Option Nat :=
  (range (text.length + 1)).find? (fun i => pattern.isPrefixOf (text.drop i))

/-- The vendor, a string of at most 127 bytes, is one of those that the configuration lists,
separated by `%`. -/
def isOption60Correct (serverConfig : List UInt8) (userVendorId : Nat → UInt8)
    (opt60Len : Nat) : Bool :=
  if 0 < opt60Len ∧ opt60Len < 128 then
    let vendId := ((range opt60Len).map userVendorId).takeWhile (· ≠ 0)
    match strstr serverConfig vendId with
    | none => false
    | some i =>
      let next := serverConfig.getD (i + vendId.length) 0
      (next == 0x25 || next == 0) && (i == 0 || serverConfig.getD (i - 1) 0 == 0x25)
  else false

/-- Where option `code` starts. The overloaded fields are looked for in the option field itself.
-/
def getOption60 (data : Nat → UInt8) (code : Int) : Option Nat :=
  (Dhcp.getOption ⟨data, data, data⟩ code).map (fun found => found.2 - 2)

def dhcpVendor : Int := 0x3c

def dhcpOptionLen : Nat := 268

def ethP8021q : Nat := 0x8100

/-- The frame is broadcast UDP from port 68 to port 67, with the IP header at
`shift`. -/
def isDhcpRequest (skb : Frame) (shift : Nat) : Bool :=
  skb.hDest >>> 40 == 0xff && skb.data (9 + shift) == 17 &&
    skb.data (20 + shift) == 0x00 && skb.data (21 + shift) == 0x44 &&
    skb.data (22 + shift) == 0x00 && skb.data (23 + shift) == 0x43

section Phone
variable (st : FinishState) (skb : Skb)

/-- An untagged DHCP request, with phones on a VLAN of their own. -/
def UntaggedRequest : Prop :=
  isMulticast skb.hDest ∧ skb.protocol = ethPIp ∧ isDhcpRequest skb.toFrame 0 ∧
    st.dhcpIpphoneVlan ≠ 0 ∧ dhcpOptionLen < skb.len

instance : Decidable (UntaggedRequest st skb) :=
  inferInstanceAs (Decidable (_ ∧ _))

/-- A DHCP request with the tag of the phones' VLAN. -/
def TaggedRequest : Prop :=
  isMulticast skb.hDest ∧ skb.protocol = ethP8021q ∧
    (skb.data 2).toNat * 256 + (skb.data 3).toNat = ethPIp ∧
    isDhcpRequest skb.toFrame 4 ∧
    st.dhcpIpphoneVlan = ((skb.data 0).toNat * 256 + (skb.data 1).toNat) % 4096 ∧
    dhcpOptionLen + 4 < skb.len

instance : Decidable (TaggedRequest st skb) :=
  inferInstanceAs (Decidable (_ ∧ _))

/-- The vendor option has 128 bytes or more. Its length is read as a signed `char` when it is
copied to the stack, so that `memcpy` is told to copy about 4 GiB. -/
def longVendor (base : Nat) : Bool :=
  match getOption60 (Buffer.view skb.data base) dhcpVendor with
  | none => false
  | some i => 128 ≤ (skb.data (base + (i + 1))).toNat

def phoneOverruns : Bool :=
  UntaggedRequest st skb ∧ longVendor skb dhcpOptionLen ∨
    TaggedRequest st skb ∧ longVendor skb (dhcpOptionLen + 4)

/-- The vendor of an untagged request of a phone is blotted out. -/
def phoneRewrite : Skb :=
  if UntaggedRequest st skb then
    let options := Buffer.view skb.data dhcpOptionLen
    match getOption60 options dhcpVendor with
    | none => skb
    | some i =>
      if isOption60Correct st.dhcpoption (Buffer.view options (i + 2)) (options (i + 1)).toNat then
        { skb with
          data := Buffer.fill skb.data (dhcpOptionLen + i + 2) (options (i + 1)).toNat 0xFF }
      else skb
  else skb

def phoneDrops : Bool :=
  if TaggedRequest st skb then
    let options := Buffer.view skb.data (dhcpOptionLen + 4)
    match getOption60 options dhcpVendor with
    | none => true
    | some i =>
      !isOption60Correct st.dhcpoption (Buffer.view options (i + 2)) (options (i + 1)).toNat
  else false

end Phone

variable (ok : Nat → Bool) (env : Env) (st : FinishState)

def passPromisc (promisc : Bool) (s : Ledger Use) : Bool × Ledger Use :=
  if promisc then
    match s.clone ok with
    | (none, s) => (false, s)
    | (some skb2, s) => (true, brPassFrameUp skb2 s)
  else (false, s)

/-- The end of `br_handle_frame_finish`, from the test for a multicast address on. -/
def deliverFrame (st : FinishState) (skb : Frame)
    (passedup : Bool) (s : Ledger Use) : Option (Ledger Use) :=
  if isMulticast skb.hDest then
    match snoopingBuffers ok st.br st.table skb skb.hDest s with
    | none => none
    | some s =>
      let s :=
        if (brIgmpSnoopingForward env st.br st.table skb skb.hDest true).status = 0 then
          brFloodForward ok st.br skb 0 (!passedup) s
        else s
      some (if passedup then s else brPassFrameUp 0 s)
  else
    match st.fdb skb.hDest with
    | none => some (brFloodForward ok st.br skb 0 false s)
    | some dst =>
      if dst.isLocal then some (if passedup then kfreeSkb 0 s else brPassFrameUp 0 s)
      else some (brForwardSkb st.br dst.dst skb 0 s)

/-- The ledger that is left, or `none` where a null pointer is dereferenced or the stack is
overwritten. -/
def brHandleFrameFinish (st : FinishState) (skb : Skb) : Option (Ledger Use) :=
  match skb.brPort with
  | none => some (kfreeSkb 0 .start)
  | some p =>
    if (st.br.port p).state = .disabled then some (kfreeSkb 0 .start)
    else if (st.br.port p).state = .learning then some (kfreeSkb 0 .start)
    else
      let (passedup, s) := passPromisc ok st.promisc .start
      if phoneOverruns st skb then none
      else if phoneDrops st skb then some (kfreeSkb 0 s)
      else deliverFrame ok env st (phoneRewrite st skb).toFrame passedup s

section

variable (br : NetBridge) (dst : Nat) (skb : Frame) (b : Nat) (s : Ledger Use)

theorem brForwardSkb_spends : Spends [b] s (brForwardSkb br dst skb b s) := by
  unfold brForwardSkb
  split
  · exact .give s b _
  · exact .give s b _

private theorem brForwardSkb_attempts : (brForwardSkb br dst skb b s).attempts = s.attempts := by
  unfold brForwardSkb
  split
  · rfl
  · rfl

end

/-- Flooding spends the one buffer that it is given: every copy is made before its port is
reached. -/
theorem floodLoop_spends (b : Nat) (ports : List Nat)
    (prev : Option Nat) (s : Ledger Use) : Spends [b] s (floodLoop ok b ports prev s) := by
  induction ports generalizing prev s with
  | nil =>
    cases prev with
    | none => exact .give s b _
    | some prev => exact .give s b _
  | cons p rest ih =>
    cases prev with
    | none => exact ih (some p) s
    | some prev =>
      simp only [floodLoop]
      cases hok : ok s.attempts with
      | false =>
        rw [Ledger.clone_failed hok]
        exact .failed (.give _ b _)
      | true =>
        rw [Ledger.clone_ok hok]
        exact .cloned ((Spends.give _ s.fresh _).trans (ih (some p) _))

section

variable (ok : Nat → Bool) (br : NetBridge) (skb : Frame) (b : Nat) (s : Ledger Use)

theorem brFloodForward_spends : Spends [b] s (brFloodForward ok br skb b false s) :=
  floodLoop_spends ok b _ none s

private theorem brFloodForward_clone_spends : Spends [] s (brFloodForward ok br skb b true s) := by
  simp only [brFloodForward]
  cases hok : ok s.attempts with
  | false =>
    rw [Ledger.clone_failed hok]
    exact .failed (.refl _)
  | true =>
    rw [Ledger.clone_ok hok]
    exact .cloned (floodLoop_spends ok s.fresh _ none _)

end

def matching (dest : Mac) (entries : List Entry) : Nat :=
  entries.countP (fun e => e.grpMac == dest && e.devDst.isSome)

def Copies (attempts n : Nat) : Prop :=
  ∀ i < n, ok (attempts + i) = true

theorem copies_succ_iff (attempts n : Nat) :
    Copies ok attempts (n + 1) ↔ ok attempts = true ∧ Copies ok (attempts + 1) n := by
  constructor
  · intro h
    refine ⟨h 0 (by omega), ?_⟩
    intro i hi
    rw [add_assoc, add_comm 1 i]
    exact h (i + 1) (by omega)
  · rintro ⟨hfirst, hrest⟩ i hi
    cases i with
    | zero => exact hfirst
    | succ i =>
      have hlater := hrest i (by omega)
      rw [add_assoc, add_comm 1 i] at hlater
      exact hlater

/-- A part of the code gets through exactly if `n` copies can be had, and hands them all on. -/
def Needs (n : Nat) (s : Ledger Use) (result : Option (Ledger Use)) : Prop :=
  (Copies ok s.attempts n ∧ ∃ t, result = some t ∧ Spends [] s t) ∨
    (¬Copies ok s.attempts n ∧ result = none)

theorem needs_none (s : Ledger Use) : Needs ok 0 s (some s) :=
  .inl ⟨fun i hi => absurd hi (Nat.not_lt_zero i), s, rfl, .refl s⟩

private theorem snoopingCopies_needs (br : NetBridge) (skb : Frame) (dest : Mac)
    (entries : List Entry) (s : Ledger Use) :
    Needs ok (matching dest entries) s (snoopingCopies ok br skb dest entries s) := by
  induction entries generalizing s with
  | nil => exact needs_none ok s
  | cons e rest ih =>
    simp only [snoopingCopies]
    split
    next hgroup =>
      cases hport : e.devDst with
      | none =>
        have hcount : matching dest (e :: rest) = matching dest rest := by
          simp [matching, hport]
        rw [hcount]
        exact ih s
      | some dst =>
        have hcount : matching dest (e :: rest) = matching dest rest + 1 := by
          simp [matching, hport, hgroup]
        rw [hcount, Needs, copies_succ_iff]
        cases hok : ok s.attempts with
        | false =>
          rw [Ledger.clone_failed hok]
          exact .inr ⟨fun h => Bool.noConfusion h.1, rfl⟩
        | true =>
          rw [Ledger.clone_ok hok]
          have hrest := ih (brForwardSkb br dst skb s.fresh ⟨s.attempts + 1, s.fresh + 1, s.given⟩)
          rw [Needs, brForwardSkb_attempts] at hrest
          rcases hrest with ⟨hcopies, t, ht, hspends⟩ | ⟨hcopies, hnone⟩
          · refine .inl ⟨⟨rfl, hcopies⟩, t, ht, .cloned ?_⟩
            exact (brForwardSkb_spends br dst skb s.fresh _).trans hspends
          · exact .inr ⟨fun h => hcopies h.2, hnone⟩
    next hgroup =>
      have hcount : matching dest (e :: rest) = matching dest rest := by
        simp [matching, hgroup]
      rw [hcount]
      exact ih s

def snoopingWants (table : Table) (skb : Frame) (dest : Mac) : Nat :=
  if table.enable = 0 ∨ skb.protocol ≠ ethPIp then 0
  else if table.enable = 1 ∧ (dest = upnpMac ∨ dest = ripv2Mac) then 0
  else if skb.data 9 = ipprotoIgmp then
    match skb.brPort with
    | none => 0
    | some devPort =>
      if igmpType skb = 0x17 ∧ brIgmpSnoopingEmpty (leftGroup skb)
          (brIgmpSnoopingDel devPort (leftGroup skb) skb.hSource table.entries) then 1
      else 0
  else matching dest table.entries

private theorem snoopingBuffers_needs (br : NetBridge) (table : Table)
    (skb : Frame) (dest : Mac) (s : Ledger Use) :
    Needs ok (snoopingWants table skb dest) s (snoopingBuffers ok br table skb dest s) := by
  unfold snoopingWants snoopingBuffers
  split
  · exact needs_none ok s
  split
  · exact needs_none ok s
  split
  · cases skb.brPort with
    | none => exact needs_none ok s
    | some devPort =>
      simp only
      split
      · rw [Needs, copies_succ_iff]
        cases hok : ok s.attempts with
        | false =>
          rw [Ledger.clone_failed hok]
          exact .inr ⟨fun h => Bool.noConfusion h.1, rfl⟩
        | true =>
          rw [Ledger.clone_ok hok]
          refine .inl ⟨⟨rfl, fun i hi => absurd hi (Nat.not_lt_zero i)⟩, _, rfl, ?_⟩
          exact .cloned (brFloodForward_spends ok br skb s.fresh _)
      · exact needs_none ok s
  · exact snoopingCopies_needs ok br skb dest table.entries s

/-- It is a leave message, or there is a member of the group, or, in mode 1, it is not for
everyone. -/
def SnoopingTakes (table : Table) (skb : Frame) (dest : Mac) : Prop :=
  table.enable ≠ 0 ∧ skb.protocol = ethPIp ∧
    ¬(table.enable = 1 ∧ (dest = upnpMac ∨ dest = ripv2Mac)) ∧
    if skb.data 9 = ipprotoIgmp then skb.brPort.isSome ∧ igmpType skb = 0x17
    else 0 < matching dest table.entries ∨ (table.enable = 1 ∧ skb.hDest ≠ broadcastMac)

/-- The loop reports a match exactly if an entry has the group. -/
theorem forwardLoop_matched (br : NetBridge) (skb : Frame) (dest : Mac) (entries : List Entry) :
    (forwardLoop br skb dest entries).2 = true ↔ 0 < matching dest entries := by
  induction entries with
  | nil => simp [forwardLoop, matching]
  | cons e rest ih =>
    simp only [forwardLoop]
    split
    next hgroup =>
      cases hport : e.devDst with
      | none => simpa [matching, hport] using ih
      | some dst => simp [matching, hport, hgroup]
    next hgroup =>
      simpa [matching, hgroup] using ih

private theorem snoopIgmp_eq (br : NetBridge) (skb : Frame) (forward : Bool)
    (devPort : Nat) (entries : List Entry) (dest : Mac) :
    (snoopIgmp env br skb forward devPort entries dest).status =
      (if igmpType skb = 0x17 then 1 else 0) ∧
    (snoopIgmp env br skb forward devPort entries dest).copies =
      if igmpType skb = 0x17 ∧ brIgmpSnoopingEmpty (leftGroup skb)
          (brIgmpSnoopingDel devPort (leftGroup skb) skb.hSource entries) then
        brFlood br skb forward
      else [] := by
  by_cases hleave : igmpType skb = 0x17
  · have htype : skb.data ((skb.data 0).toNat % 16 * 4) = 0x17 := hleave
    simp [snoopIgmp, htype, hleave, leftGroup]
  · simp only [hleave, false_and, if_false, snoopIgmp]
    split
    · exact ⟨rfl, rfl⟩
    split
    · exact ⟨rfl, rfl⟩
    unfold igmpType at hleave
    rw [if_neg hleave]
    exact ⟨rfl, rfl⟩

private theorem status_ne_zero_iff (br : NetBridge) (table : Table) (skb : Frame) (dest : Mac) :
    (brIgmpSnoopingForward env br table skb dest true).status ≠ 0 ↔
      SnoopingTakes table skb dest := by
  unfold brIgmpSnoopingForward SnoopingTakes
  split
  next hoff =>
    refine iff_of_false (fun h => h rfl) ?_
    rintro ⟨henable, hip, _⟩
    exact hoff.elim henable (fun h => h hip)
  rename_i hon
  rw [not_or, not_not] at hon
  split
  next hspecial =>
    exact iff_of_false (fun h => h rfl) (fun h => h.2.2.1 hspecial)
  rename_i hplain
  split
  · cases hport : skb.brPort with
    | none => simp
    | some devPort =>
      simp only [(snoopIgmp_eq env br skb true devPort table.entries dest).1]
      split
      next hleave =>
        exact iff_of_true Int.one_ne_zero ⟨hon.1, hon.2, hplain, rfl, hleave⟩
      next hother =>
        exact iff_of_false (fun h => h rfl) (fun h => hother h.2.2.2.2)
  · simp only [← forwardLoop_matched br skb]
    split
    next htaken =>
      exact iff_of_true Int.one_ne_zero ⟨hon.1, hon.2, hplain, htaken⟩
    next hleft =>
      exact iff_of_false (fun h => h rfl) (fun h => hleft h.2.2.2)

section

variable (ok : Nat → Bool) (promisc : Bool) (s : Ledger Use)

theorem passPromisc_spends : Spends [] s (passPromisc ok promisc s).2 := by
  cases promisc with
  | false => exact .refl s
  | true =>
    simp only [passPromisc, if_true]
    cases hok : ok s.attempts with
    | false =>
      rw [Ledger.clone_failed hok]
      exact .failed (.refl _)
    | true =>
      rw [Ledger.clone_ok hok]
      exact .cloned (.give _ s.fresh _)

private theorem passPromisc_passed :
    (passPromisc ok promisc s).1 = true ↔ promisc = true ∧ ok s.attempts = true := by
  cases promisc with
  | false => simp [passPromisc]
  | true =>
    simp only [passPromisc, if_true]
    cases hok : ok s.attempts with
    | false => simp [Ledger.clone_failed hok]
    | true => simp [Ledger.clone_ok hok]

private theorem passPromisc_attempts :
    (passPromisc ok promisc s).2.attempts = s.attempts + if promisc then 1 else 0 := by
  cases promisc with
  | false => rfl
  | true =>
    simp only [passPromisc, if_true]
    cases hok : ok s.attempts with
    | false => simp [Ledger.clone_failed hok]
    | true => simp [Ledger.clone_ok hok, brPassFrameUp, Ledger.give]

end

section
variable (ok : Nat → Bool) (env : Env) (st : FinishState) (passedup : Bool) {skb : Frame}

private theorem deliverFrame_unicast (hunicast : isMulticast skb.hDest = false) (s : Ledger Use) :
    ∃ t, deliverFrame ok env st skb passedup s = some t ∧ Spends [0] s t := by
  simp only [deliverFrame, hunicast, Bool.false_eq_true, if_false]
  cases st.fdb skb.hDest with
  | none => exact ⟨_, rfl, brFloodForward_spends ok st.br skb 0 s⟩
  | some dst =>
    simp only
    split
    · refine ⟨_, rfl, ?_⟩
      split
      · exact .give s 0 _
      · exact .give s 0 _
    · exact ⟨_, rfl, brForwardSkb_spends st.br dst.dst skb 0 s⟩

/-- If a copy went up already and snooping takes care of the frame, the buffer is left over. -/
theorem deliverFrame_multicast (hmulticast : isMulticast skb.hDest = true) (s : Ledger Use) :
    (Copies ok s.attempts (snoopingWants st.table skb skb.hDest) ∧
      ∃ t, deliverFrame ok env st skb passedup s = some t ∧
        (passedup = true ∧ SnoopingTakes st.table skb skb.hDest → Spends [] s t) ∧
        (¬(passedup = true ∧ SnoopingTakes st.table skb skb.hDest) → Spends [0] s t)) ∨
    (¬Copies ok s.attempts (snoopingWants st.table skb skb.hDest) ∧
      deliverFrame ok env st skb passedup s = none) := by
  have htakes := status_ne_zero_iff env st.br st.table skb skb.hDest
  simp only [deliverFrame, hmulticast, if_true]
  rcases snoopingBuffers_needs ok st.br st.table skb skb.hDest s with
    ⟨hcopies, t, ht, hspends⟩ | ⟨hcopies, hnone⟩
  · refine .inl ⟨hcopies, ?_⟩
    rw [ht, ← htakes]
    refine ⟨_, rfl, ?_, ?_⟩
    · rintro ⟨rfl, hstatus⟩
      rw [if_neg hstatus]
      exact hspends
    intro hkept
    cases passedup with
    | false =>
      have hflood : Spends [] t
          (if (brIgmpSnoopingForward env st.br st.table skb skb.hDest true).status = 0
            then brFloodForward ok st.br skb 0 true t else t) := by
        split
        · exact brFloodForward_clone_spends ok st.br skb 0 t
        · exact .refl t
      exact (hspends.trans hflood).trans (.give _ 0 _)
    | true =>
      have hstatus : (brIgmpSnoopingForward env st.br st.table skb skb.hDest true).status = 0 := by
        by_contra hstatus
        exact hkept ⟨rfl, hstatus⟩
      rw [if_pos hstatus]
      exact hspends.trans (brFloodForward_spends ok st.br skb 0 t)
  · refine .inr ⟨hcopies, ?_⟩
    rw [hnone]

end

/-- The frame came in on a port of the bridge that takes frames. -/
def Handled (st : FinishState) (skb : Skb) : Prop :=
  ∃ p, skb.brPort = some p ∧ (st.br.port p).state ≠ .disabled ∧ (st.br.port p).state ≠ .learning

def Snooped (st : FinishState) (skb : Skb) : Prop :=
  Handled st skb ∧ phoneDrops st skb = false ∧ isMulticast skb.hDest = true

/-- The rewriting for phones changes bytes of UDP packets only. -/
private theorem phoneRewrite_cases (skb : Skb) :
    phoneRewrite st skb = skb ∨ ∃ data, phoneRewrite st skb = { skb with data := data } ∧
      data 9 = 17 ∧ skb.data 9 = 17 := by
  unfold phoneRewrite
  split
  next hrequest =>
    have hudp : skb.data 9 = 17 := by
      have hmatch := hrequest.2.2.1
      simp only [isDhcpRequest, Bool.and_eq_true, beq_iff_eq] at hmatch
      exact hmatch.1.1.1.1.2
    simp only
    split
    · exact .inl rfl
    split
    · refine .inr ⟨_, rfl, ?_, hudp⟩
      rw [Buffer.fill_outside _ _ (.inl (by unfold dhcpOptionLen; omega))]
      exact hudp
    · exact .inl rfl
  · exact .inl rfl

/-- So snooping sees the same frame before and after it. -/
theorem phoneRewrite_snooping (skb : Skb) :
    (phoneRewrite st skb).hDest = skb.hDest ∧
    (∀ dest, snoopingWants st.table (phoneRewrite st skb).toFrame dest =
      snoopingWants st.table skb.toFrame dest) ∧
    (∀ dest, SnoopingTakes st.table (phoneRewrite st skb).toFrame dest ↔
      SnoopingTakes st.table skb.toFrame dest) := by
  rcases phoneRewrite_cases st skb with hsame | ⟨data, hsame, hnew, hold⟩
  · rw [hsame]
    exact ⟨rfl, fun _ => rfl, fun _ => Iff.rfl⟩
  have hudp : ¬((17 : UInt8) = ipprotoIgmp) := by decide
  rw [hsame]
  refine ⟨rfl, ?_, ?_⟩
  · intro dest
    simp only [snoopingWants, hnew, hold, hudp, if_false]
  · intro dest
    simp only [SnoopingTakes, hnew, hold, hudp, if_false]

section

variable (ok : Nat → Bool) (env : Env) {st : FinishState} {skb : Skb}

/-- A frame with a long vendor option does not come back from the copy of it. -/
private theorem finish_overrun (h : Handled st skb) (hover : phoneOverruns st skb = true) :
    brHandleFrameFinish ok env st skb = none := by
  obtain ⟨p, hport, henabled, hready⟩ := h
  simp only [brHandleFrameFinish, hport, henabled, hready, hover, if_false, if_true]

section
variable (hcopied : Handled st skb → phoneOverruns st skb = false)
include hcopied

private theorem finish_unsnooped (hnot : ¬Snooped st skb) :
    ∃ s, brHandleFrameFinish ok env st skb = some s ∧ s.Settled := by
  have hfreed (s : Ledger Use) (h : Spends [] .start s) :
      ∃ t, some (kfreeSkb 0 s) = some t ∧ t.Settled :=
    ⟨_, rfl, (h.trans (.give s 0 .free)).settled⟩
  have hup := passPromisc_spends ok st.promisc .start
  unfold brHandleFrameFinish
  cases hport : skb.brPort with
  | none => exact hfreed _ (.refl _)
  | some p =>
    simp only
    split
    · exact hfreed _ (.refl _)
    rename_i henabled
    split
    · exact hfreed _ (.refl _)
    rename_i hready
    rw [hcopied ⟨p, hport, henabled, hready⟩, if_neg Bool.false_ne_true]
    split
    · exact hfreed _ hup
    rename_i hkept
    rw [Bool.not_eq_true] at hkept
    have hunicast : isMulticast (phoneRewrite st skb).hDest = false := by
      rw [(phoneRewrite_snooping st skb).1, ← Bool.not_eq_true]
      exact fun hcast => hnot ⟨⟨p, hport, henabled, hready⟩, hkept, hcast⟩
    obtain ⟨t, ht, hspends⟩ :=
      deliverFrame_unicast ok env st (passPromisc ok st.promisc .start).1 hunicast
        (passPromisc ok st.promisc .start).2
    exact ⟨t, ht, (hup.trans hspends).settled⟩

private theorem finish_snooped (h : Snooped st skb) :
    brHandleFrameFinish ok env st skb =
      deliverFrame ok env st (phoneRewrite st skb).toFrame
        (passPromisc ok st.promisc .start).1 (passPromisc ok st.promisc .start).2 := by
  obtain ⟨⟨p, hport, henabled, hready⟩, hkept, _⟩ := h
  have hcopied := hcopied ⟨p, hport, henabled, hready⟩
  simp only [brHandleFrameFinish, hport, henabled, hready, hcopied, hkept, if_false,
    Bool.false_eq_true]

end

end

/-- `br_handle_frame_finish` hands on its buffer, and each copy made of it, exactly once, if and
only if no vendor option of 128 bytes or more is copied, no copy for snooping fails and the frame
is not one that a promiscuous bridge passed up and snooping takes care of. -/
theorem frame_consumed_once_iff (ok : Nat → Bool) (env : Env) (st : FinishState) (skb : Skb) :
    (∃ s, brHandleFrameFinish ok env st skb = some s ∧ s.Settled) ↔
      (Handled st skb → phoneOverruns st skb = false) ∧
      (Snooped st skb →
        Copies ok (if st.promisc then 1 else 0) (snoopingWants st.table skb.toFrame skb.hDest) ∧
        ¬(st.promisc = true ∧ ok 0 = true ∧ SnoopingTakes st.table skb.toFrame skb.hDest)) := by
  by_cases hcopied : Handled st skb → phoneOverruns st skb = false
  swap
  · refine iff_of_false ?_ (fun h => hcopied h.1)
    rw [Classical.not_imp, Bool.not_eq_false] at hcopied
    rw [finish_overrun ok env hcopied.1 hcopied.2]
    rintro ⟨s, ⟨⟩, _⟩
  rw [and_iff_right hcopied]
  rcases Classical.em (Snooped st skb) with hsnooped | hnot
  · obtain ⟨hdest, hwants, htakes⟩ := phoneRewrite_snooping st skb
    have hup := passPromisc_spends ok st.promisc .start
    have hcast : isMulticast (phoneRewrite st skb).hDest = true := by
      rw [hdest]
      exact hsnooped.2.2
    have hdeliver := deliverFrame_multicast ok env st
      (passPromisc ok st.promisc .start).1 hcast (passPromisc ok st.promisc .start).2
    rw [passPromisc_attempts, passPromisc_passed, hdest, hwants, htakes, and_assoc] at hdeliver
    rw [finish_snooped ok env hcopied hsnooped]
    simp only [hsnooped, forall_const]
    rw [show (Ledger.start : Ledger Use).attempts = 0 from rfl, zero_add] at hdeliver
    rcases hdeliver with ⟨hcopies, t, ht, hlost, hspent⟩ | ⟨hcopies, hnone⟩
    · rw [ht]
      constructor
      · rintro ⟨s, ⟨⟩, hsettled⟩
        exact ⟨hcopies, fun hleak => (hup.trans (hlost hleak)).not_settled hsettled⟩
      · rintro ⟨_, hkept⟩
        exact ⟨t, rfl, (hup.trans (hspent hkept)).settled⟩
    · rw [hnone]
      refine iff_of_false ?_ (fun h => hcopies h.1)
      rintro ⟨s, ⟨⟩, _⟩
  · exact iff_of_true (finish_unsnooped ok env hcopied hnot) (fun h => absurd h hnot)

/-- A promiscuous bridge with the ports `nas0`, `eth0` and `nas1`, and snooping in mode 1 with no
members. -/
def promiscState : FinishState where
  br := threePorts
  promisc := true
  table := ⟨[], 1⟩
  fdb := fun _ => none
  dhcpoption := []
  dhcpIpphoneVlan := 0

/-- A multicast stream through a promiscuous bridge: its copy goes up, and the buffer is lost. -/
theorem promiscuous_stream_leaks :
    ¬∃ s, brHandleFrameFinish (fun _ => true) ⟨0, true⟩ promiscState ⟨streamFrame, 100⟩ = some s ∧
      s.Settled := by
  rintro ⟨s, hs, hsettled⟩
  have hleft : s = ⟨1, 2, [(1, .passUp)]⟩ := by
    have hvalue : brHandleFrameFinish (fun _ => true) ⟨0, true⟩ promiscState ⟨streamFrame, 100⟩ =
        some ⟨1, 2, [(1, .passUp)]⟩ := by decide
    exact Option.some.inj (hs.symm.trans hvalue)
  have hbuffer := hsettled 0
  rw [hleft] at hbuffer
  exact absurd hbuffer (by decide)

end EchoLife.Bridge
