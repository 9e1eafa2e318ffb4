import EchoLife.Bridge.SnoopingList

/-!
Who gets a multicast frame. The loop hands out one copy for every entry of the
table, so a port gets as many copies as hosts behind it have joined the group;
the table that snooping builds up has one entry for each of these hosts.
-/

namespace EchoLife.Bridge

open List

/-- The port forwards, the frame did not come in on it, and does not go from one WAN interface to
another. -/
def Deliverable (p : Port) (skb : Frame) : Prop :=
  p.state = .forwarding ∧ skb.dev.ifindex ≠ p.dev.ifindex ∧
    ¬(p.dev.char 0 = 0x6E ∧ skb.dev.char 0 = 0x6E)

theorem shouldDeliver_iff (p : Port) (skb : Frame) :
    shouldDeliver p skb = true ↔ Deliverable p skb := by
  simp only [shouldDeliver, Deliverable, Bool.and_eq_true, Bool.not_eq_true',
    Bool.or_eq_false_iff, Bool.and_eq_false_iff, beq_eq_false_iff_ne, bne_eq_false_iff_eq]
  tauto

def members (dest : Mac) (p : Nat) (entries : List Entry) : Nat :=
  entries.countP (fun e => e.grpMac == dest && e.devDst == some p)

private theorem count_brForward (br : NetBridge) (dst p : Nat) (skb : Frame) :
    (brForward br dst skb).count p = if shouldDeliver (br.port p) skb ∧ dst = p then 1 else 0 := by
  unfold brForward
  by_cases hsame : dst = p
  · subst hsame
    cases shouldDeliver (br.port dst) skb with
    | true => simp
    | false => simp
  · cases shouldDeliver (br.port dst) skb with
    | true => simp [hsame]
    | false => simp [hsame]

theorem forwardLoop_count (br : NetBridge) (skb : Frame) (dest : Mac)
    (entries : List Entry) (p : Nat) :
    (forwardLoop br skb dest entries).1.count p =
      if shouldDeliver (br.port p) skb then members dest p entries else 0 := by
  induction entries with
  | nil => simp [forwardLoop, members]
  | cons e rest ih =>
    simp only [forwardLoop, members, countP_cons] at ih ⊢
    by_cases hgroup : e.grpMac = dest
    · cases hport : e.devDst with
      | none =>
        rw [if_pos hgroup]
        simp only [ih]
        simp
      | some dst =>
        rw [if_pos hgroup]
        simp only [count_append, ih, count_brForward]
        by_cases hsame : dst = p
        · subst hsame
          cases shouldDeliver (br.port dst) skb with
          | true => simp [hgroup, add_comm]
          | false => simp
        · simp [hsame]
    · simp [ih, hgroup]

theorem forward_count (env : Env) (br : NetBridge) {table : Table} {skb : Frame}
    {dest : Mac} (forward : Bool) (henable : table.enable ≠ 0)
    (hip : skb.protocol = ethPIp) (higmp : skb.data 9 ≠ ipprotoIgmp)
    (hgroup : table.enable = 1 → dest ≠ upnpMac ∧ dest ≠ ripv2Mac) (p : Nat) :
    (brIgmpSnoopingForward env br table skb dest forward).copies.count p =
      if shouldDeliver (br.port p) skb then members dest p table.entries else 0 := by
  have hskip : ¬(table.enable = 1 ∧ (dest = upnpMac ∨ dest = ripv2Mac)) := by
    rintro ⟨hmode, hspecial⟩
    obtain ⟨hupnp, hripv2⟩ := hgroup hmode
    exact hspecial.elim hupnp hripv2
  have hactive : ¬(table.enable = 0 ∨ skb.protocol ≠ ethPIp) := by
    rintro (hoff | hother)
    · exact henable hoff
    · exact hother hip
  simp only [brIgmpSnoopingForward]
  rw [if_neg hactive, if_neg hskip, if_neg higmp]
  exact forwardLoop_count br skb dest table.entries p

/-- A multicast frame other than IGMP, with snooping enabled: a deliverable port with one member
of the group gets one copy, one with several at least one, and no other port any. In mode 1 frames
to the UPnP and RIPv2 groups are left to the caller, which floods them. -/
theorem multicast_reaches_members (env : Env) (br : NetBridge) (table : Table)
    (skb : Frame) (dest : Mac) (forward : Bool) (henable : table.enable ≠ 0)
    (hip : skb.protocol = ethPIp) (higmp : skb.data 9 ≠ ipprotoIgmp)
    (hgroup : table.enable = 1 → dest ≠ upnpMac ∧ dest ≠ ripv2Mac) (p : Nat) :
    (Deliverable (br.port p) skb → 0 < members dest p table.entries →
      0 < (brIgmpSnoopingForward env br table skb dest forward).copies.count p) ∧
    (Deliverable (br.port p) skb → members dest p table.entries = 1 →
      (brIgmpSnoopingForward env br table skb dest forward).copies.count p = 1) ∧
    (¬Deliverable (br.port p) skb ∨ members dest p table.entries = 0 →
      (brIgmpSnoopingForward env br table skb dest forward).copies.count p = 0) := by
  rw [forward_count env br forward henable hip higmp hgroup, ← shouldDeliver_iff]
  cases shouldDeliver (br.port p) skb with
  | true =>
    refine ⟨fun _ h => h, fun _ h => h, ?_⟩
    rintro (hnot | hnone)
    · exact absurd rfl hnot
    · exact hnone
  | false => simp

/-- The WAN interfaces `nas0` and `nas1` and the LAN interface `eth0`, all forwarding. -/
def threePorts : NetBridge where
  port := fun i =>
    if i = 0 then ⟨⟨10, [0x6E, 0x61, 0x73, 0x30]⟩, .forwarding⟩
    else if i = 1 then ⟨⟨11, [0x65, 0x74, 0x68, 0x30]⟩, .forwarding⟩
    else ⟨⟨12, [0x6E, 0x61, 0x73, 0x31]⟩, .forwarding⟩
  portList := [0, 1, 2]

def streamFrame : Frame where
  dev := ⟨10, [0x6E, 0x61, 0x73, 0x30]⟩
  brPort := some 0
  protocol := ethPIp
  hDest := 0x01005e010203
  hSource := 0x020000000001
  data := fun i => if i = 9 then 17 else 0

def oneMember : Table where
  entries := [⟨some 1, 0x01005e010203, 0x020000000002, 0⟩]
  enable := 1

theorem stream_reaches_member :
    members 0x01005e010203 1 oneMember.entries = 1 ∧
    Deliverable (threePorts.port 1) streamFrame ∧
    (brIgmpSnoopingForward ⟨0, true⟩ threePorts oneMember streamFrame 0x01005e010203
      true).copies.count 1 = 1 := by
  have hdeliverable : Deliverable (threePorts.port 1) streamFrame :=
    (shouldDeliver_iff _ _).mp (by decide)
  refine ⟨by decide, hdeliverable, ?_⟩
  exact (multicast_reaches_members ⟨0, true⟩ threePorts oneMember streamFrame
    0x01005e010203 true (by decide) rfl (by decide) (fun _ => by decide) 1).2.1
    hdeliverable (by decide)

/-- Two hosts behind `eth0` and one behind `nas1` have joined: `eth0` gets the frame twice, and
`nas1`, which forwards, not at all. -/
theorem two_hosts_get_two_copies :
    (brIgmpSnoopingForward ⟨0, true⟩ threePorts
      ⟨[⟨some 1, 0x01005e010203, 0x020000000002, 0⟩, ⟨some 1, 0x01005e010203, 0x020000000003, 0⟩,
        ⟨some 2, 0x01005e010203, 0x020000000004, 0⟩], 1⟩
      streamFrame 0x01005e010203 true).copies = [1, 1] ∧
    (threePorts.port 2).state = .forwarding ∧
    streamFrame.dev.ifindex ≠ (threePorts.port 2).dev.ifindex := by
  decide

def Entry.key (e : Entry) : Option Nat × Mac × Mac :=
  (e.devDst, e.grpMac, e.hostMac)

structure SoundEntries (entries : List Entry) : Prop where
  distinct : (entries.map Entry.key).Nodup
  plain : ∀ e ∈ entries, e.grpMac ≠ upnpMac ∧ e.grpMac ≠ ripv2Mac

variable {entries : List Entry}

theorem SoundEntries.sublist {fewer : List Entry} (h : SoundEntries entries)
    (hsub : fewer.Sublist entries) : SoundEntries fewer :=
  ⟨h.distinct.sublist (hsub.map Entry.key), fun e he => h.plain e (hsub.subset he)⟩

theorem Entry.isFor_iff (e : Entry) (devPort : Nat) (grpMac hostMac : Mac) :
    e.isFor devPort grpMac hostMac = true ↔ e.key = (some devPort, grpMac, hostMac) := by
  simp only [Entry.isFor, Entry.key, Bool.and_eq_true, beq_iff_eq, Prod.mk.injEq]
  tauto

theorem Entry.key_refreshed (e : Entry) (p : Prop) [Decidable p] (time : Nat) :
    (if p then { e with time := time } else e).key = e.key := by
  split
  · rfl
  · rfl

section

variable (env : Env) (devPort : Nat) (grpMac hostMac : Mac) (entries : List Entry)

theorem update_keys :
    (brIgmpSnoopingUpdate env devPort grpMac hostMac entries).1.map Entry.key =
      entries.map Entry.key := by
  simp only [brIgmpSnoopingUpdate, map_map, Function.comp_def, Entry.key_refreshed]

theorem updated_iff :
    (brIgmpSnoopingUpdate env devPort grpMac hostMac entries).2 = true ↔
      (some devPort, grpMac, hostMac) ∈ entries.map Entry.key := by
  simp only [brIgmpSnoopingUpdate, any_eq_true, Entry.isFor_iff, mem_map]

end

variable (env : Env) (devPort : Nat) (grpMac hostMac : Mac)

section

variable (h : SoundEntries entries)
include h

theorem SoundEntries.update :
    SoundEntries (brIgmpSnoopingUpdate env devPort grpMac hostMac entries).1 := by
  have hkeys := update_keys env devPort grpMac hostMac entries
  constructor
  · rw [hkeys]
    exact h.distinct
  intro e he
  have hkey := mem_map_of_mem (f := Entry.key) he
  rw [hkeys] at hkey
  obtain ⟨old, hold, hsame⟩ := mem_map.mp hkey
  have hgroup : old.grpMac = e.grpMac := congrArg (fun k => k.2.1) hsame
  rw [← hgroup]
  exact h.plain old hold

theorem SoundEntries.add : SoundEntries (brIgmpSnoopingAdd env devPort grpMac hostMac entries) := by
  have hupdated := h.update env devPort grpMac hostMac
  simp only [brIgmpSnoopingAdd]
  split
  · exact h
  rename_i hspecial
  rw [not_or] at hspecial
  split
  · exact hupdated
  rename_i hfresh
  rw [updated_iff] at hfresh
  split
  · refine ⟨?_, ?_⟩
    · rw [map_cons, nodup_cons, update_keys]
      exact ⟨hfresh, h.distinct⟩
    exact forall_mem_cons.mpr ⟨hspecial, hupdated.plain⟩
  · exact hupdated

theorem SoundEntries.del : SoundEntries (brIgmpSnoopingDel devPort grpMac hostMac entries) :=
  h.sublist eraseP_sublist

theorem SoundEntries.calls (calls : List TableCall) :
    SoundEntries (Run.run (TableCall.onEntries env devPort) calls entries) := by
  apply Run.run_invariant (P := SoundEntries) _ h
  intro c _ now hnow
  cases c with
  | add grpMac hostMac => exact hnow.add env devPort grpMac hostMac
  | del grpMac hostMac => exact hnow.del devPort grpMac hostMac

end

inductive TableEvent where
  | frame (env : Env) (br : NetBridge) (skb : Frame) (dest : Mac) (forward : Bool)
  | timeout (env : Env)
  | clear
  | setEnable (enable : Int)

def TableEvent.step : TableEvent → Table → Table
  | .frame env br skb dest forward, t =>
    { t with entries := (brIgmpSnoopingForward env br t skb dest forward).entries }
  | .timeout env, t =>
    { t with entries := brIgmpSnoopingQueryTimeout env t.entries }
  | .clear, t => { t with entries := [] }
  | .setEnable enable, t => { t with enable := enable }

theorem SoundEntries.step (event : TableEvent) {t : Table}
    (h : SoundEntries t.entries) : SoundEntries (event.step t).entries := by
  cases event with
  | frame env br skb dest forward =>
    simp only [TableEvent.step]
    cases hport : skb.brPort with
    | none =>
      rw [forward_entries_host env skb br t dest forward hport]
      exact h
    | some devPort =>
      rw [forward_entries_calls env devPort skb br t dest forward hport]
      exact h.calls env devPort _
  | timeout env => exact h.sublist filter_sublist
  | clear => exact ⟨nodup_nil, by simp [TableEvent.step]⟩
  | setEnable enable => exact h

def joinedHosts (dest : Mac) (p : Nat) (entries : List Entry) : Finset Mac :=
  ((entries.filter (fun e => e.grpMac == dest && e.devDst == some p)).map Entry.hostMac).toFinset

theorem members_eq_card (h : SoundEntries entries) (dest : Mac) (p : Nat) :
    members dest p entries = (joinedHosts dest p entries).card := by
  set joined := entries.filter (fun e => e.grpMac == dest && e.devDst == some p) with hjoined
  have hnodup : (joined.map Entry.hostMac).Nodup := by
    have hkeys : (joined.map Entry.key).Nodup :=
      h.distinct.sublist (filter_sublist.map Entry.key)
    have hsame : joined.map Entry.key =
        (joined.map Entry.hostMac).map (fun host => (some p, dest, host)) := by
      rw [map_map]
      apply map_congr_left
      intro e he
      have hmatch := (mem_filter.mp he).2
      rw [Bool.and_eq_true, beq_iff_eq, beq_iff_eq] at hmatch
      simp only [Entry.key, Function.comp_apply, hmatch.1, hmatch.2]
    rw [hsame] at hkeys
    exact hkeys.of_map
  rw [joinedHosts, ← hjoined, toFinset_card_of_nodup hnodup, length_map, members,
    countP_eq_length_filter]

end EchoLife.Bridge
