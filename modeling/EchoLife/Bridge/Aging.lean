import EchoLife.Bridge.Kernel

/-!
Whether the entries of the snooping list age out. The timer is started for the
first entry ever, and the flag that says so stays set; `br_igmp_snooping_clear`
stops the timer. What is inserted after that stays for good.
-/

namespace EchoLife.Bridge

open List Run

/-- The call inserts an entry if there is none of the member. -/
def TableCall.Inserts (env : Env) : TableCall → Prop
  | .add grpMac _ => env.kmallocOk = true ∧ grpMac ≠ upnpMac ∧ grpMac ≠ ripv2Mac
  | .del _ _ => False

namespace SnoopingList

/-- The timer was started once and is not pending. -/
def Stopped (s : SnoopingList) : Prop :=
  s.igmpStartTimer = true ∧ s.igmpTimer = none

/-- Without a pending timer there are no entries. -/
structure Ages (s : SnoopingList) : Prop where
  idle : s.igmpStartTimer = false → s.igmpTimer = none ∧ s.table.entries = []
  stopped : s.Stopped → s.table.entries = []

theorem Ages.timer {s : SnoopingList} (h : s.Ages) (hentries : s.table.entries ≠ []) :
    s.igmpTimer.isSome := by
  cases htimer : s.igmpTimer with
  | some expires => rfl
  | none =>
    exfalso
    cases hstart : s.igmpStartTimer with
    | true => exact hentries (h.stopped ⟨hstart, htimer⟩)
    | false => exact hentries (h.idle hstart).2

section
variable {s : SnoopingList} {env : Env} {devPort : Nat} {c : TableCall}

/-- A call keeps the timer and an empty list, or inserts an entry and comes to the start of the
timer. -/
theorem call_cases (env : Env) (devPort : Nat) (c : TableCall) (s : SnoopingList) :
    (∃ entries, (s.table.entries = [] → entries = []) ∧
      s.call env devPort c = s.withEntries entries) ∨
    (c.Inserts env ∧ ∃ entries, s.call env devPort c = (s.withEntries entries).startTimer env) := by
  cases c with
  | del grpMac hostMac =>
    refine .inl ⟨_, ?_, rfl⟩
    intro hempty
    rw [hempty]
    rfl
  | add grpMac hostMac =>
    have hupdate : s.table.entries = [] →
        (brIgmpSnoopingUpdate env devPort grpMac hostMac s.table.entries).1 = [] := by
      intro hempty
      rw [hempty]
      rfl
    simp only [call, add]
    split
    · exact .inl ⟨s.table.entries, id, rfl⟩
    rename_i hplain
    rw [not_or] at hplain
    split
    · exact .inl ⟨_, hupdate, rfl⟩
    split
    next hmemory =>
      exact .inr ⟨⟨hmemory, hplain⟩, _, rfl⟩
    · exact .inl ⟨_, hupdate, rfl⟩

private theorem startTimer_stopped_iff : (s.startTimer env).Stopped ↔ s.Stopped := by
  unfold startTimer
  split
  · exact Iff.rfl
  rename_i hstart
  constructor
  · intro h
    cases h.2
  · intro h
    exact absurd h.1 hstart

theorem call_stopped_iff : (s.call env devPort c).Stopped ↔ s.Stopped := by
  rcases call_cases env devPort c s with ⟨entries, _, hcall⟩ | ⟨_, entries, hcall⟩
  · rw [hcall]
    exact Iff.rfl
  · rw [hcall, startTimer_stopped_iff]
    exact Iff.rfl

theorem Ages.call (h : s.Ages) (hready : s.Stopped → ¬c.Inserts env) :
    (s.call env devPort c).Ages := by
  rcases call_cases env devPort c s with
    ⟨entries, hempty, hcall⟩ | ⟨hinserts, entries, hcall⟩
  · rw [hcall]
    constructor
    · intro hstart
      obtain ⟨htimer, hnone⟩ := h.idle hstart
      exact ⟨htimer, hempty hnone⟩
    · intro hstopped
      exact hempty (h.stopped hstopped)
  · constructor
    · intro hstart
      rw [hcall] at hstart
      unfold startTimer at hstart
      split at hstart
      next hstarted =>
        rw [hstarted] at hstart
        cases hstart
      · cases hstart
    · intro hstopped
      exact absurd hinserts (hready (call_stopped_iff.mp hstopped))

theorem Ages.forward {skb : Frame} (h : s.Ages)
    (hready : s.Stopped → ∀ c ∈ forwardCalls s.table.enable skb skb.hDest, ¬c.Inserts env) :
    (s.forward env devPort skb).Ages := by
  refine (run_invariant (P := fun t : SnoopingList => t.Ages ∧ (t.Stopped → s.Stopped))
    ?_ ⟨h, id⟩).1
  rintro c hc t ⟨hages, hsame⟩
  refine ⟨hages.call (fun hstopped => hready (hsame hstopped) c hc), ?_⟩
  rw [call_stopped_iff]
  exact hsame

theorem Ages.expire (h : s.Ages) : (s.expire env).Ages := by
  unfold SnoopingList.expire
  split
  · exact h
  rename_i expires htimer
  split
  · constructor
    · intro hstart
      have hnone := (h.idle hstart).1
      rw [htimer] at hnone
      cases hnone
    · intro hstopped
      cases hstopped.2
  · exact h

theorem Ages.clear : s.clear.Ages :=
  ⟨fun _ => ⟨rfl, rfl⟩, fun _ => rfl⟩

theorem Ages.setEnable (h : s.Ages) (enable : Int) : (s.setEnable enable).Ages :=
  ⟨h.idle, h.stopped⟩

end

end SnoopingList

/-- A frame with a join does not come in while the timer is stopped. -/
def Event.TimerReady : Event → Kernel → Prop
  | .receive env skb, k =>
    (k.handled skb).isSome → k.snooping.Stopped →
      ∀ c ∈ forwardCalls k.snooping.table.enable skb skb.hDest, ¬c.Inserts env
  | _, _ => True

theorem Event.ages_step {event : Event} {k : Kernel} (hready : event.TimerReady k)
    (h : k.snooping.Ages) : (event.step k).snooping.Ages := by
  have hstep := event.snoopingStep k
  generalize (event.step k).snooping = next at hstep ⊢
  cases hstep with
  | same => exact h
  | forward env skb p hevent hhandled =>
    subst hevent
    exact h.forward (hready (by rw [hhandled]; rfl))
  | expire env => exact h.expire
  | clear => exact .clear
  | setEnable enable => exact h.setEnable enable

/-- In a run in which no join comes in while the timer is stopped, it is pending whenever there is
an entry. -/
theorem entries_have_timer (memory : Nat → BridgePort) (k : Kernel)
    (hreach : Reaches Event.step (fun event k => event.Possible k ∧ event.TimerReady k)
      (.initial memory) k)
    (hentries : k.snooping.table.entries ≠ []) : k.snooping.igmpTimer.isSome := by
  have hages : k.snooping.Ages := by
    apply hreach.invariant (P := fun k : Kernel => k.snooping.Ages)
    · exact ⟨fun _ => ⟨rfl, rfl⟩, fun _ => rfl⟩
    · intro event k hready h
      exact event.ages_step hready.2 h
  exact hages.timer hentries

theorem joined_entry_has_timer :
    (run Event.step (twoBridges ++ [.receive ⟨0, true⟩ (joinFrame 0)])
      bootKernel).snooping.igmpTimer.isSome := by
  apply entries_have_timer
  · apply Reaches.run_allowed .start
    apply Allowed.and
    · exact twoBridges_possible.append ⟨rfl, trivial⟩
    apply Allowed.append
    · simp [twoBridges, bringUp, Allowed, Event.TimerReady]
    refine ⟨?_, trivial⟩
    intro _ hstopped
    cases hstopped.1
  · exact cons_ne_nil _ _

/-- Two bridges; a member joins on the first, the second is deleted, and the member
reports again. -/
def secondBridgeDeleted : List Event :=
  [.receive ⟨0, true⟩ (joinFrame 0), .request (.devStop 1), .request (.delBridge 1),
    .resume, .resume, .resume, .resume, .receive ⟨1, true⟩ (joinFrame 0)]

/-- Its entry will not age: the timer of the whole list is no longer pending. -/
theorem timer_lost_with_other_bridge :
    ∃ k, Reaches Event.step Event.Possible bootKernel k ∧
      k.snooping.table.entries ≠ [] ∧ k.snooping.igmpTimer = none := by
  refine ⟨run Event.step (twoBridges ++ secondBridgeDeleted) bootKernel, ?_, ?_, rfl⟩
  · apply Reaches.run_allowed .start
    exact twoBridges_possible.append
      ⟨rfl, trivial, trivial, trivial, trivial, trivial, trivial, rfl, trivial⟩
  · exact cons_ne_nil _ _

theorem stopped_forever (events : List Event) {k : Kernel} (h : k.snooping.Stopped) :
    (run Event.step events k).snooping.Stopped := by
  apply run_invariant (P := fun k : Kernel => k.snooping.Stopped) _ h
  intro event _ k h
  have hstep := event.snoopingStep k
  generalize (event.step k).snooping = next at hstep ⊢
  cases hstep with
  | same => exact h
  | forward env skb p _ _ =>
    apply run_invariant (P := SnoopingList.Stopped) _ h
    intro c _ t ht
    exact SnoopingList.call_stopped_iff.mpr ht
  | expire env =>
    simp only [SnoopingList.expire, h.2]
    exact h
  | clear => exact ⟨h.1, rfl⟩
  | setEnable enable => exact h

theorem timer_stays_lost : (run Event.step [.receive ⟨2, true⟩ (joinFrame 0)]
    (run Event.step (twoBridges ++ secondBridgeDeleted) bootKernel)).snooping.Stopped :=
  stopped_forever _ ⟨rfl, rfl⟩

/-! ### When an entry goes -/

/-- An entry set at `start` is there at all ticks until its deadline; the first tick after that,
up to a round of the counter late, removes it exactly if it comes within the window and before the
counter wraps. -/
theorem snooping_expiry_iff (start now : Nat) (ticks : List Nat)
    (hticks : ∀ tick ∈ ticks, start ≤ tick ∧ tick ≤ start + igmpQueryTimeout * hz)
    (hpast : start + igmpQueryTimeout * hz < now)
    (hlate : now < start + igmpQueryTimeout * hz + 2 ^ 32) (e : Entry)
    (he : e.time = Env.expiry ⟨start, true⟩) (entries : List Entry) (hmem : e ∈ entries) :
    let tick := fun now => brIgmpSnoopingQueryTimeout ⟨now, true⟩
    e ∈ run tick ticks entries ∧
      (e ∉ run tick (ticks ++ [now]) entries ↔
        SoftState.Timely (igmpQueryTimeout * hz) now (start + igmpQueryTimeout * hz)) :=
  SoftState.sweep_exact hmem he (by decide) hticks hpast hlate

def entrySetAt (start : Nat) : Entry :=
  ⟨none, 0, 0, Env.expiry ⟨start, true⟩⟩

theorem entry_kept_and_removed :
    entrySetAt 7 ∈ run (fun now => brIgmpSnoopingQueryTimeout ⟨now, true⟩) [2000, 28000]
      [entrySetAt 7] ∧
    entrySetAt 7 ∉ run (fun now => brIgmpSnoopingQueryTimeout ⟨now, true⟩)
      ([2000, 28000] ++ [32000]) [entrySetAt 7] := by
  have hexact := snooping_expiry_iff 7 32000 [2000, 28000] (by decide) (by decide) (by decide)
    (entrySetAt 7) rfl [entrySetAt 7] mem_cons_self
  exact ⟨hexact.1, hexact.2.mpr ⟨by decide, by decide⟩⟩

/-- An entry whose deadline is the last value of the counter is never removed. -/
theorem entry_at_wrap_stays : ¬∃ ticks, entrySetAt (2 ^ 32 - 30001) ∉
    run (fun now => brIgmpSnoopingQueryTimeout ⟨now, true⟩) ticks
      [entrySetAt (2 ^ 32 - 30001)] := by
  rintro ⟨ticks, hgone⟩
  apply hgone ((SoftState.mem_run_sweep ticks _).mpr ?_)
  refine ⟨mem_cons_self, ?_⟩
  intro now _
  have htime : (entrySetAt (2 ^ 32 - 30001)).time = 2 ^ 32 - 1 := rfl
  have hword : SoftState.word now < 2 ^ 32 := Nat.mod_lt _ (by decide)
  rw [htime, SoftState.overdue, decide_eq_false (by omega), Bool.false_and]

end EchoLife.Bridge
