import EchoLife.Bridge.Wiring

/-!
Whether the ports that the snooping list names exist. Joins come in on ports of
bridges only, but nothing takes the entries of a port out of the list when
`del_nbp` takes the port off its bridge.
-/

namespace EchoLife.Bridge

open List Run

variable {env : Env} {devPort : Nat} {e : Entry} {s : SnoopingList} {event : Event} {k : Kernel}

theorem TableCall.mem_onEntries {c : TableCall}
    {entries : List Entry} (he : e ∈ c.onEntries env devPort entries) :
    e.devDst = some devPort ∨ ∃ old ∈ entries, e.devDst = old.devDst := by
  cases c with
  | del grpMac hostMac => exact .inr ⟨e, mem_of_mem_eraseP he, rfl⟩
  | add grpMac hostMac =>
    have hupdated : e ∈ (brIgmpSnoopingUpdate env devPort grpMac hostMac entries).1 →
        ∃ old ∈ entries, e.devDst = old.devDst := by
      intro hmem
      obtain ⟨old, hold, rfl⟩ := mem_map.mp hmem
      refine ⟨old, hold, ?_⟩
      split
      · rfl
      · rfl
    simp only [onEntries, brIgmpSnoopingAdd] at he
    split at he
    · exact .inr ⟨e, he, rfl⟩
    split at he
    · exact .inr (hupdated he)
    split at he
    · rcases mem_cons.mp he with rfl | hrest
      · exact .inl rfl
      · exact .inr (hupdated hrest)
    · exact .inr (hupdated he)

theorem SnoopingList.mem_forward {skb : Frame}
    (he : e ∈ (s.forward env devPort skb).table.entries) :
    e.devDst = some devPort ∨ ∃ old ∈ s.table.entries, e.devDst = old.devDst := by
  simp only [forward, run_call_table] at he
  revert e
  apply run_invariant (P := fun now : List Entry => ∀ e ∈ now,
    e.devDst = some devPort ∨ ∃ old ∈ s.table.entries, e.devDst = old.devDst)
  · intro c _ now h e he
    rcases TableCall.mem_onEntries he with hnew | ⟨old, hold, hsame⟩
    · exact .inl hnew
    · rw [hsame]
      exact h old hold
  · intro e he
    exact .inr ⟨e, he, rfl⟩

theorem SnoopingList.mem_expire (he : e ∈ (s.expire env).table.entries) : e ∈ s.table.entries := by
  unfold expire at he
  split at he
  · exact he
  split at he
  · exact mem_of_mem_filter he
  · exact he

theorem Event.entry_port (he : e ∈ (event.step k).snooping.table.entries) :
    (∃ old ∈ k.snooping.table.entries, e.devDst = old.devDst) ∨
    ∃ env skb p, event = .receive env skb ∧ k.handled skb = some p ∧ e.devDst = some p := by
  have hstep := event.snoopingStep k
  generalize (event.step k).snooping = next at hstep he
  cases hstep with
  | same => exact .inl ⟨e, he, rfl⟩
  | forward env skb p hevent hhandled =>
    rcases SnoopingList.mem_forward he with hnew | hold
    · exact .inr ⟨env, skb, p, hevent, hhandled, hnew⟩
    · exact .inl hold
  | expire env => exact .inl ⟨e, SnoopingList.mem_expire he, rfl⟩
  | clear => cases he
  | setEnable enable => exact .inl ⟨e, he, rfl⟩

/-- When `del_nbp` takes a port off its bridge, no entry names it. -/
def Event.Tidy : Event → Kernel → Prop
  | .resume, k =>
    match k.rtnl with
    | .unlinking p _ _ => ∀ e ∈ k.snooping.table.entries, e.devDst ≠ some p
    | _ => True
  | _, _ => True

def Kernel.EntriesAttached (k : Kernel) : Prop :=
  ∀ e ∈ k.snooping.table.entries, ∃ p, e.devDst = some p ∧ k.Attached p

theorem Event.entriesAttached_step (htidy : event.Tidy k)
    (hwired : k.Wired) (h : k.EntriesAttached) : (event.step k).EntriesAttached := by
  intro e he
  rcases Event.entry_port he with ⟨old, hold, hsame⟩ | ⟨env, skb, p, rfl, hhandled, hport⟩
  · obtain ⟨p, hp, hattached⟩ := h old hold
    refine ⟨p, hsame.trans hp, hattached.step hwired ?_⟩
    rintro rfl rest b hrtnl
    simp only [Tidy, hrtnl] at htidy
    exact htidy old hold hp
  · obtain ⟨hdevice, hforwarding⟩ := Kernel.of_handled hhandled
    have hattached : k.Attached p := by
      apply hwired.attached hdevice
      rw [hforwarding]
      exact PortState.noConfusion
    refine ⟨p, hport, hattached.step hwired ?_⟩
    nofun

/-- If no port is taken off a bridge while an entry names it, every entry names a port of an
existing bridge, in every state reached. -/
theorem entries_name_bridge_ports (memory : Nat → BridgePort) (k : Kernel)
    (hreach : Reaches Event.step (fun event k => event.Possible k ∧ event.Tidy k)
      (.initial memory) k) :
    ∀ e ∈ k.snooping.table.entries, ∃ p, e.devDst = some p ∧ k.Attached p := by
  have hboth : k.Wired ∧ k.EntriesAttached := by
    apply hreach.invariant (P := fun k : Kernel => k.Wired ∧ k.EntriesAttached)
    · refine ⟨Kernel.wired_initial memory, ?_⟩
      nofun
    · rintro event k ⟨hpossible, htidy⟩ ⟨hwired, hattached⟩
      exact ⟨event.wired_step hpossible hwired, event.entriesAttached_step htidy hwired hattached⟩
  exact hboth.2

/-- A member joins on the first bridge, and then the port of the given bridge is
taken off. -/
def portRemoved (i : Nat) : Kernel :=
  run Event.step (twoBridges ++ [.receive ⟨0, true⟩ (joinFrame 0),
    .request (.delIf i (ethDevice i)), .resume, .resume, .resume]) bootKernel

theorem entry_keeps_port_of_first_bridge :
    (portRemoved 1).snooping.table.entries ≠ [] ∧
    ∀ e ∈ (portRemoved 1).snooping.table.entries,
      ∃ p, e.devDst = some p ∧ (portRemoved 1).Attached p := by
  have hreach : Reaches Event.step (fun event k => event.Possible k ∧ event.Tidy k)
      bootKernel (portRemoved 1) := by
    apply Reaches.run_allowed .start
    apply Allowed.and
    · exact twoBridges_possible.append ⟨rfl, trivial, trivial, trivial, trivial, trivial⟩
    apply Allowed.append
    · exact ⟨trivial, trivial, trivial, trivial, trivial, trivial, trivial, trivial,
        trivial, trivial, trivial, trivial, trivial, trivial⟩
    refine ⟨trivial, trivial, trivial, ?_, trivial, trivial⟩
    intro e he hport
    rw [mem_singleton.mp he] at hport
    cases hport
  exact ⟨cons_ne_nil _ _, entries_name_bridge_ports _ _ hreach⟩

/-- If it is the port that the member joined on, its entry names a port of no
bridge. -/
theorem entry_of_removed_port_stays :
    Reaches Event.step Event.Possible bootKernel (portRemoved 0) ∧
    ∃ e ∈ (portRemoved 0).snooping.table.entries,
      e.devDst = some 0 ∧ ¬(portRemoved 0).Attached 0 := by
  constructor
  · apply Reaches.run_allowed .start
    exact twoBridges_possible.append ⟨rfl, trivial, trivial, trivial, trivial, trivial⟩
  refine ⟨_, mem_cons_self, rfl, ?_⟩
  rintro ⟨b, hb⟩
  match b with
  | 0 => cases hb
  | 1 => cases hb with
    | tail _ hrest => cases hrest
  | b + 2 => cases hb

end EchoLife.Bridge
