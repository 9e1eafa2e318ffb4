import EchoLife.Bridge.Multicast

/-!
The snooping table as a membership relation. Reports and leaves announce and withdraw members, the
timer collects those not heard of for `IGMP_QUERY_TIMEOUT` seconds; the table has one entry for
each member, as long as no tick finds `jiffies` wrapped around since an entry was due.
-/

namespace EchoLife.Bridge

open Bool Function List Option Run

abbrev MemberKey := Option Nat × Mac × Mac

def Excluded (grpMac : Mac) : Prop :=
  grpMac = upnpMac ∨ grpMac = ripv2Mac

/-- A frame, with the ports and whether there is memory for an entry; a run of
`br_igmp_snooping_query_timeout`; time that passes. -/
inductive SnoopingEvent where
  | frame (kmallocOk : Bool) (br : NetBridge) (skb : Frame) (dest : Mac)
      (forward : Bool)
  | tick
  | wait (elapsed : Nat)

structure ClockedTable where
  now : Nat
  table : Table

def SnoopingEvent.step : SnoopingEvent → ClockedTable → ClockedTable
  | .frame kmallocOk br skb dest forward, s =>
    { s with
      table := (TableEvent.frame ⟨s.now, kmallocOk⟩ br skb dest forward).step s.table }
  | .tick, s => { s with table := (TableEvent.timeout ⟨s.now, true⟩).step s.table }
  | .wait elapsed, s => { s with now := s.now + elapsed }

section
variable (enable : Int)

def bootTable : ClockedTable :=
  ⟨initialJiffies, ⟨[], enable⟩⟩

def TableCall.announce (devPort : Nat) : TableCall → SoftState.Event MemberKey
  | .add grpMac hostMac => .join (some devPort, grpMac, hostMac)
  | .del grpMac hostMac => .leave (some devPort, grpMac, hostMac)

def SnoopingEvent.announces : SnoopingEvent → List (SoftState.Event MemberKey)
  | .frame _ _ skb dest _ =>
    match skb.brPort with
    | none => []
    | some devPort => (forwardCalls enable skb dest).map (TableCall.announce devPort)
  | .tick => [.tick]
  | .wait elapsed => [.wait elapsed]

def history (events : List SnoopingEvent) : List (SoftState.Event MemberKey) :=
  events.flatMap (SnoopingEvent.announces enable)

def membershipTime : Nat := igmpQueryTimeout * hz

def SnoopingEvent.expected (event : SnoopingEvent) :
    SoftState.State MemberKey → SoftState.State MemberKey :=
  run (SoftState.Event.step membershipTime) (event.announces enable)

/-- There is memory for the members a frame reports; a tick is not late for a due member, and
`jiffies` did not wrap since. -/
def SnoopingEvent.Timely : SnoopingEvent → SoftState.State MemberKey → Prop
  | .frame kmallocOk _ skb dest _, _ =>
    kmallocOk = true ∨ ∀ grpMac hostMac,
      .add grpMac hostMac ∈ forwardCalls enable skb dest → Excluded grpMac
  | .tick, s => ∀ k deadline, s.deadline k = some deadline → deadline < s.now →
      SoftState.Timely membershipTime s.now deadline
  | .wait _, _ => True

end

/-- The entries are those of the members, with the low words of their deadlines. -/
structure Represents (entries : List Entry) (deadline : MemberKey → Option Nat) : Prop where
  sound : SoundEntries entries
  member : ∀ e ∈ entries, ∃ d, deadline e.key = some d ∧ e.time = SoftState.word d
  entered : ∀ k d, deadline k = some d → ¬Excluded k.2.1 → k ∈ entries.map Entry.key

variable {s : SoftState.State MemberKey}

section
variable {entries : List Entry} {deadline : MemberKey → Option Nat} {env : Env}
  {devPort : Nat} {grpMac hostMac : Mac}

theorem Represents.update (h : Represents entries deadline) :
    ∀ e ∈ (brIgmpSnoopingUpdate env devPort grpMac hostMac entries).1, ∃ d,
      update deadline (some devPort, grpMac, hostMac)
        (some (env.jiffies + membershipTime)) e.key = some d ∧
      e.time = SoftState.word d := by
  intro e he
  obtain ⟨old, hold, rfl⟩ := mem_map.mp he
  rw [Entry.key_refreshed]
  cases hfor : old.isFor devPort grpMac hostMac with
  | true =>
    rw [(old.isFor_iff _ _ _).mp hfor, update_self]
    exact ⟨_, rfl, rfl⟩
  | false =>
    have hother : old.key ≠ (some devPort, grpMac, hostMac) := by
      rw [← not_eq_true, old.isFor_iff] at hfor
      exact hfor
    rw [update_of_ne hother]
    exact h.member old hold

theorem Represents.add (h : Represents entries deadline) (env : Env) (devPort : Nat)
    (grpMac hostMac : Mac) (hmemory : env.kmallocOk = true ∨ Excluded grpMac) :
    Represents (brIgmpSnoopingAdd env devPort grpMac hostMac entries)
      (Function.update deadline (some devPort, grpMac, hostMac)
        (some (env.jiffies + membershipTime))) := by
  refine ⟨h.sound.add env devPort grpMac hostMac, ?_, ?_⟩
  · simp only [brIgmpSnoopingAdd]
    split
    next hexcluded =>
      intro e he
      have hother : e.key ≠ (some devPort, grpMac, hostMac) := by
        intro hsame
        have hgroup : e.grpMac = grpMac := congrArg (fun k => k.2.1) hsame
        have hplain := h.sound.plain e he
        rw [hgroup] at hplain
        exact hexcluded.elim hplain.1 hplain.2
      rw [update_of_ne hother]
      exact h.member e he
    · split
      · exact h.update
      split
      · exact forall_mem_cons.mpr ⟨⟨_, update_self _ _ _, rfl⟩, h.update⟩
      · exact h.update
  · intro k d hmember hplain
    have hold : k ≠ (some devPort, grpMac, hostMac) → k ∈ entries.map Entry.key := by
      intro hother
      rw [update_of_ne hother] at hmember
      exact h.entered k d hmember hplain
    simp only [brIgmpSnoopingAdd]
    split
    next hexcluded =>
      apply hold
      rintro rfl
      exact hplain hexcluded
    rename_i hnormal
    split
    next hupdated =>
      rw [update_keys]
      rcases eq_or_ne k (some devPort, grpMac, hostMac) with rfl | hother
      · exact (updated_iff _ _ _ _ _).mp hupdated
      · exact hold hother
    · rw [if_pos (hmemory.resolve_right hnormal), map_cons, update_keys]
      rcases eq_or_ne k (some devPort, grpMac, hostMac) with rfl | hother
      · exact mem_cons_self
      · exact mem_cons_of_mem _ (hold hother)

private theorem del_keys (devPort : Nat) (grpMac hostMac : Mac) (entries : List Entry) :
    (brIgmpSnoopingDel devPort grpMac hostMac entries).map Entry.key =
      (entries.map Entry.key).erase (some devPort, grpMac, hostMac) := by
  rw [erase_eq_eraseP', eraseP_map, brIgmpSnoopingDel]
  congr 2
  funext e
  rw [Bool.eq_iff_iff, e.isFor_iff, comp_apply, beq_iff_eq]

theorem Represents.del (h : Represents entries deadline) :
    Represents (brIgmpSnoopingDel devPort grpMac hostMac entries)
      (Function.update deadline (some devPort, grpMac, hostMac) none) := by
  have hkeys (k : MemberKey) :
      k ∈ (brIgmpSnoopingDel devPort grpMac hostMac entries).map Entry.key ↔
        k ≠ (some devPort, grpMac, hostMac) ∧ k ∈ entries.map Entry.key := by
    rw [del_keys]
    exact h.sound.distinct.mem_erase_iff
  refine ⟨h.sound.del devPort grpMac hostMac, ?_, ?_⟩
  · intro e he
    have hother := ((hkeys e.key).mp (mem_map_of_mem he)).1
    rw [update_of_ne hother]
    exact h.member e (mem_of_mem_eraseP he)
  intro k d hmember hplain
  rcases eq_or_ne k (some devPort, grpMac, hostMac) with rfl | hother
  · rw [update_self] at hmember
    cases hmember
  · rw [update_of_ne hother] at hmember
    exact (hkeys k).mpr ⟨hother, h.entered k d hmember hplain⟩

theorem Represents.calls {calls : List TableCall}
    (h : Represents entries s.deadline) (env : Env) (devPort : Nat) (hclock : env.jiffies = s.now)
    (hmemory : env.kmallocOk = true ∨
      ∀ grpMac hostMac, .add grpMac hostMac ∈ calls → Excluded grpMac) :
    Represents (run (TableCall.onEntries env devPort) calls entries)
        (run (fun c => (c.announce devPort).step membershipTime) calls s).deadline ∧
      (run (fun c => (c.announce devPort).step membershipTime) calls s).now = s.now := by
  induction calls generalizing entries s with
  | nil => exact ⟨h, rfl⟩
  | cons c rest ih =>
    have hrest : env.kmallocOk = true ∨
        ∀ grpMac hostMac, .add grpMac hostMac ∈ rest → Excluded grpMac :=
      hmemory.imp_right (fun hall g host hmem => hall g host (mem_cons_of_mem c hmem))
    cases c with
    | add grpMac hostMac =>
      refine ih ?_ hclock hrest
      have hadd := h.add env devPort grpMac hostMac
        (hmemory.imp_right (fun hall => hall grpMac hostMac mem_cons_self))
      rw [hclock] at hadd
      exact hadd
    | del grpMac hostMac => exact ih h.del hclock hrest

theorem Represents.tick (h : Represents entries s.deadline)
    (hclock : env.jiffies = s.now) (hbounded : s.Bounded membershipTime)
    (htimely : ∀ k deadline, s.deadline k = some deadline → deadline < s.now →
      SoftState.Timely membershipTime s.now deadline) :
    Represents (brIgmpSnoopingQueryTimeout env entries)
      (SoftState.Event.step membershipTime .tick s).deadline := by
  have hmem (e : Entry) : e ∈ brIgmpSnoopingQueryTimeout env entries ↔
      e ∈ entries ∧ SoftState.overdue membershipTime (SoftState.word s.now) e.time = false := by
    rw [brIgmpSnoopingQueryTimeout, mem_filter, not_eq_true', hclock, membershipTime]
  refine ⟨h.sound.sublist filter_sublist, ?_, ?_⟩
  · intro e he
    obtain ⟨hold, hkept⟩ := (hmem e).mp he
    obtain ⟨d, hdeadline, htime⟩ := h.member e hold
    refine ⟨d, filter_eq_some_iff.mpr ⟨hdeadline, ?_⟩, htime⟩
    rw [decide_eq_true_eq]
    by_contra hpast
    rw [not_le] at hpast
    rw [htime, SoftState.overdue_of_timely hpast (htimely _ _ hdeadline hpast)] at hkept
    cases hkept
  · intro k d hkept hplain
    obtain ⟨hdeadline, hahead⟩ := filter_eq_some_iff.mp hkept
    rw [decide_eq_true_eq] at hahead
    obtain ⟨e, he, rfl⟩ := mem_map.mp (h.entered k d hdeadline hplain)
    obtain ⟨same, hsame, htime⟩ := h.member e he
    rw [hdeadline, some.injEq] at hsame
    subst hsame
    refine mem_map_of_mem ((hmem e).mpr ⟨he, ?_⟩)
    rw [htime]
    exact SoftState.not_overdue_of_ahead hahead (hbounded _ _ hdeadline) (by decide)

end

structure Tracks (enable : Int) (c : ClockedTable) (s : SoftState.State MemberKey) : Prop where
  enabled : c.table.enable = enable
  clock : c.now = s.now
  bounded : s.Bounded membershipTime
  represents : Represents c.table.entries s.deadline

theorem Tracks.step {enable : Int} (event : SnoopingEvent) (c : ClockedTable)
    (s : SoftState.State MemberKey) (htimely : event.Timely enable s)
    (h : Tracks enable c s) : Tracks enable (event.step c) (event.expected enable s) := by
  have hbounded : (event.expected enable s).Bounded membershipTime :=
    run_invariant (P := SoftState.State.Bounded membershipTime)
      (fun a _ _ hs => hs.step membershipTime a) h.bounded
  cases event with
  | frame kmallocOk br skb dest forward =>
    cases hport : skb.brPort with
    | none =>
      have hsame : SnoopingEvent.expected enable (.frame kmallocOk br skb dest forward) s = s := by
        simp only [SnoopingEvent.expected, SnoopingEvent.announces, hport, run_nil]
      rw [hsame]
      refine ⟨h.enabled, h.clock, h.bounded, ?_⟩
      simp only [SnoopingEvent.step, TableEvent.step]
      rw [forward_entries_host _ skb br c.table dest forward hport]
      exact h.represents
    | some devPort =>
      have hrun : SnoopingEvent.expected enable
          (.frame kmallocOk br skb dest forward) s =
          run (fun c => (c.announce devPort).step membershipTime)
            (forwardCalls enable skb dest) s := by
        simp only [SnoopingEvent.expected, SnoopingEvent.announces, hport, run_map]
      obtain ⟨hrepresents, hnow⟩ :=
        h.represents.calls ⟨c.now, kmallocOk⟩ devPort h.clock htimely
      rw [← hrun] at hrepresents hnow
      refine ⟨h.enabled, h.clock.trans hnow.symm, hbounded, ?_⟩
      simp only [SnoopingEvent.step, TableEvent.step]
      rw [forward_entries_calls _ devPort skb br c.table dest forward hport, h.enabled]
      exact hrepresents
  | tick => exact ⟨h.enabled, h.clock, hbounded, h.represents.tick h.clock h.bounded htimely⟩
  | wait elapsed =>
    refine ⟨h.enabled, ?_, hbounded, h.represents⟩
    simp only [SnoopingEvent.step, h.clock]
    rfl

theorem Tracks.boot (enable : Int) : Tracks enable (bootTable enable) (.empty initialJiffies) where
  enabled := rfl
  clock := rfl
  bounded := by rintro k d ⟨⟩
  represents := ⟨⟨nodup_nil, by simp [bootTable]⟩, by simp [bootTable], by rintro k d ⟨⟩⟩

/-- In every run from boot whose reports find memory and whose ticks are timely, the table has
exactly one entry for each port, group and host whose last report is later than its last leave and
has not expired, for the groups that are entered at all, and no other. -/
theorem table_holds_members (enable : Int) (events : List SnoopingEvent)
    (htimely : Allowed (SnoopingEvent.expected enable) (SnoopingEvent.Timely enable)
      events (.empty initialJiffies)) (k : MemberKey) :
    (SoftState.Member membershipTime initialJiffies (history enable events) k ∧ ¬Excluded k.2.1 →
      ((run SnoopingEvent.step events (bootTable enable)).table.entries.map
        Entry.key).count k = 1) ∧
    (¬(SoftState.Member membershipTime initialJiffies (history enable events) k ∧ ¬Excluded k.2.1) →
      ((run SnoopingEvent.step events (bootTable enable)).table.entries.map
        Entry.key).count k = 0) := by
  have htracks := htimely.simulation (R := Tracks enable)
    (fun event c s hok h => h.step event c s hok) (Tracks.boot enable)
  have hexpected : run (SnoopingEvent.expected enable) events (.empty initialJiffies) =
      SoftState.after membershipTime initialJiffies (history enable events) :=
    (run_flatMap _ _ events _).symm
  rw [hexpected] at htracks
  obtain ⟨_, _, _, hsound, hmember, hentered⟩ := htracks
  rw [SoftState.member_iff]
  constructor
  · rintro ⟨hlive, hplain⟩
    obtain ⟨d, hdeadline⟩ := isSome_iff_exists.mp hlive
    exact count_eq_one_of_mem hsound.distinct (hentered k d hdeadline hplain)
  intro hnone
  rw [count_eq_zero]
  intro hkey
  obtain ⟨e, he, rfl⟩ := mem_map.mp hkey
  obtain ⟨d, hdeadline, _⟩ := hmember e he
  refine hnone ⟨isSome_iff_exists.mpr ⟨d, hdeadline⟩, ?_⟩
  rintro (hupnp | hripv2)
  · exact (hsound.plain e he).1 hupnp
  · exact (hsound.plain e he).2 hripv2

def reportFrame : Frame where
  dev := ⟨11, [0x65, 0x74, 0x68, 0x30]⟩
  brPort := some 1
  protocol := ethPIp
  hDest := 0x01005e010203
  hSource := 0x020000000002
  data := fun i => if i = 0 then 0x45 else if i = 9 then 2 else if i = 20 then 0x16 else 0

def reportEvent : SnoopingEvent :=
  .frame true threePorts reportFrame 0x01005e010203 true

def reportedMember : MemberKey :=
  (some 1, 0x01005e010203, 0x020000000002)

theorem report_entered_then_collected :
    ((run SnoopingEvent.step [reportEvent, .wait 30000] (bootTable 1)).table.entries.map
      Entry.key).count reportedMember = 1 ∧
    ((run SnoopingEvent.step [reportEvent, .wait 30001, .tick]
      (bootTable 1)).table.entries.map Entry.key).count reportedMember = 0 := by
  constructor
  · refine (table_holds_members 1 [reportEvent, .wait 30000]
      ⟨.inl rfl, trivial, trivial⟩ reportedMember).1 ⟨?_, ?_⟩
    · rw [SoftState.member_iff]
      rfl
    · rintro (hupnp | hripv2)
      · cases hupnp
      · cases hripv2
  · refine (table_holds_members 1 [reportEvent, .wait 30001, .tick]
      ⟨.inl rfl, trivial, ?_, trivial⟩ reportedMember).2 ?_
    · intro k d hdeadline hpast
      rcases eq_or_ne k reportedMember with rfl | hother
      · cases hdeadline
        exact ⟨by decide, by decide⟩
      · cases (update_of_ne hother _ _).symm.trans hdeadline
    · rintro ⟨hmember, _⟩
      rw [SoftState.member_iff] at hmember
      cases hmember

/-- An entry is due just before `jiffies` wraps around. The check that follows comes after the
wrap, and the entry stays. -/
theorem entry_outlives_wrap :
    (run SnoopingEvent.step (.wait 29999 :: reportEvent ::
        (List.replicate 16 [.wait (igmpTimerCheckTimeout * hz), .tick]).flatten)
      (bootTable 1)).table.entries.map Entry.key = [reportedMember] ∧
    ¬SoftState.Member membershipTime initialJiffies
      (history 1 (.wait 29999 :: reportEvent ::
        (List.replicate 16 [.wait (igmpTimerCheckTimeout * hz), .tick]).flatten))
      reportedMember := by
  constructor
  · rfl
  · rw [SoftState.member_iff]
    decide

end EchoLife.Bridge
