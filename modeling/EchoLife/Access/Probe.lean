import EchoLife.Access.Limit
import EchoLife.Access.Removal

/-!
The ARP probe timers of the current devices. Whether a probe is running is read off a counter that
only the timeout raises: before the first timeout none seems to run. A trigger then arms the
pending timer again, and a device that leaves takes its pending timer along.
-/

namespace EchoLife.Access

open Buckets Function List Option Run

/-- The probe timer is pending and has not yet run out once. -/
def Device.waits (d : Device) : Prop :=
  d.probe = true ∧ d.times = 0

def ProbesCurrent (s : State) : Prop :=
  ∀ id, (s.devs id).probe = true → id ∈ entries s.crntDevs

/-! ### Arming the timers -/

def probeTurn (wanted : Fin accDevtypeButt → Bool) (now : State) (id : Nat) : State :=
  if wanted (now.devs id).devType ∧ (now.devs id).times = 0 then addProbeTimer id now
  else now

variable {id : Nat} {saddr : Addr} {p : Packet}

section

variable (wanted : Fin accDevtypeButt → Bool)

theorem probeTurn_devs_of_ne (s : State) {j : Nat}
    (hj : j ≠ id) : (probeTurn wanted s id).devs j = s.devs j := by
  unfold probeTurn
  split
  · exact update_of_ne hj ..
  · rfl

private theorem probeTurn_twice (s : State) (id : Nat) :
    ∃ more, (probeTurn wanted s id).twice = more ++ s.twice ∧
      (more = [] ↔ (wanted (s.devs id).devType → ¬ (s.devs id).waits)) := by
  unfold probeTurn
  split
  next harm =>
    cases hpending : (s.devs id).probe with
    | true =>
      refine ⟨[id], by simp [addProbeTimer, hpending], iff_of_false (by simp) ?_⟩
      exact fun hnone => hnone harm.1 ⟨hpending, harm.2⟩
    | false =>
      refine ⟨[], by simp [addProbeTimer, hpending], iff_of_true rfl ?_⟩
      rintro - ⟨hyes, -⟩
      rw [hpending] at hyes
      cases hyes
  next hspared =>
    refine ⟨[], rfl, iff_of_true rfl ?_⟩
    exact fun hwanted hwaits => hspared ⟨hwanted, hwaits.2⟩

/-- A round of probes arms no timer twice exactly if no wanted device waits. A turn does not touch
the devices that are still to come. -/
private theorem probeFold_twice {ids : List Nat} (hnodup : ids.Nodup) (s : State) :
    ∃ more, (ids.foldl (probeTurn wanted) s).twice = more ++ s.twice ∧
      (more = [] ↔ ∀ id ∈ ids, wanted (s.devs id).devType → ¬ (s.devs id).waits) := by
  induction ids generalizing s with
  | nil => exact ⟨[], rfl, by simp⟩
  | cons id rest ih =>
    obtain ⟨hnot, hrest⟩ := nodup_cons.mp hnodup
    obtain ⟨first, htwice, hfirst⟩ := probeTurn_twice wanted s id
    obtain ⟨later, hlater, hothers⟩ := ih hrest (probeTurn wanted s id)
    have hsame (j : Nat) (hj : j ∈ rest) : (probeTurn wanted s id).devs j = s.devs j := by
      apply probeTurn_devs_of_ne
      rintro rfl
      exact hnot hj
    refine ⟨later ++ first, ?_, ?_⟩
    · rw [foldl_cons, hlater, htwice, append_assoc]
    · rw [append_eq_nil_iff, and_comm, forall_mem_cons, hfirst, hothers]
      exact and_congr_right' (forall₂_congr fun j hj => by rw [hsame j hj])

private theorem probeFold_probe (ids : List Nat) (s : State)
    {j : Nat} (hprobe : ((ids.foldl (probeTurn wanted) s).devs j).probe = true) :
    (s.devs j).probe = true ∨ j ∈ ids := by
  induction ids generalizing s with
  | nil => exact .inl hprobe
  | cons id rest ih =>
    rcases ih (probeTurn wanted s id) hprobe with hbefore | hmem
    · by_cases hj : j = id
      · exact .inr (hj ▸ mem_cons_self)
      · rw [probeTurn_devs_of_ne wanted s hj] at hbefore
        exact .inl hbefore
    · exact .inr (mem_cons_of_mem id hmem)

end

def Wanted (type : Option Nat) (s : State) (id : Nat) : Prop :=
  ∀ t, type = some t → (s.types (s.devs id).devType).type = t

variable {s s' : State} {d : Device}

private theorem probeIdle_spec (h : Sound s) (wanted : Fin accDevtypeButt → Bool) :
    ((probeIdle wanted s).twice = s.twice ↔
      ∀ id ∈ entries s.crntDevs, wanted (s.devs id).devType → ¬ (s.devs id).waits) ∧
    ∀ j, ((probeIdle wanted s).devs j).probe = true →
      (s.devs j).probe = true ∨ j ∈ entries s.crntDevs := by
  have hround : probeIdle wanted s = (entries s.crntDevs).foldl (probeTurn wanted) s := rfl
  obtain ⟨more, htwice, hmore⟩ := probeFold_twice wanted h.crnt_nodup s
  rw [hround]
  constructor
  · rw [← hmore, htwice]
    exact append_left_eq_self
  · exact fun j hprobe => probeFold_probe wanted _ s hprobe

/-- What a kick does to the timers, in terms of the state before it. -/
private theorem kick_spec (h : Sound s) (type : Option Nat) :
    ((ipaccKickIdleOutoff type s).1.twice = s.twice ↔
      ∀ id ∈ entries s.crntDevs, Wanted type s id → ¬ (s.devs id).waits) ∧
    ∀ j, ((ipaccKickIdleOutoff type s).1.devs j).probe = true →
      (s.devs j).probe = true ∨ j ∈ entries s.crntDevs := by
  cases type with
  | none =>
    obtain ⟨htwice, hprobe⟩ := probeIdle_spec h fun _ => true
    refine ⟨htwice.trans ?_, hprobe⟩
    simp [Wanted]
  | some type =>
    obtain ⟨htwice, hprobe⟩ := probeIdle_spec h fun i => (s.types i).type == type
    refine ⟨htwice.trans ?_, hprobe⟩
    simp [Wanted]

/-! ### Changes that arm nothing -/

/-- No timer is armed, none becomes pending and no current device leaves. -/
structure Calm (s s' : State) : Prop where
  twice : s'.twice = s.twice
  probe : ∀ j, (s'.devs j).probe = true → (s.devs j).probe = true
  crnt : ∀ j ∈ entries s.crntDevs, j ∈ entries s'.crntDevs

theorem Calm.refl (s : State) : Calm s s :=
  ⟨rfl, fun _ => id, fun _ => id⟩

theorem Calm.trans {s'' : State} (h : Calm s s') (h' : Calm s' s'') : Calm s s'' :=
  ⟨h'.twice.trans h.twice, fun j hj => h.probe j (h'.probe j hj),
    fun j hj => h'.crnt j (h.crnt j hj)⟩

theorem Calm.current (h : Calm s s') (hcurrent : ProbesCurrent s) : ProbesCurrent s' :=
  fun j hj => h.crnt j (hcurrent j (h.probe j hj))

theorem calm_setDev
    (hprobe : d.probe = true → (s.devs id).probe = true) : Calm s (s.setDev id d) := by
  refine ⟨rfl, fun j hj => ?_, fun _ hj => hj⟩
  by_cases hjid : j = id
  · subst hjid
    simp only [State.setDev, update_self] at hj
    exact hprobe hj
  · simp only [State.setDev, update_of_ne hjid] at hj
    exact hj

section

variable (id : Nat) (s : State)

theorem calm_hold : Calm s (hold id s) :=
  calm_setDev fun hprobe => hprobe

theorem calm_put : Calm s (ipaccPutDev id s) := by
  have hset : Calm s (s.setDev id { s.devs id with refcnt := (s.devs id).refcnt - 1 }) :=
    calm_setDev fun hprobe => hprobe
  exact ⟨hset.twice, hset.probe, hset.crnt⟩

private theorem calm_retimer : Calm s (ipaccDevRetimer id s) := by
  unfold ipaccDevRetimer
  split
  · exact .refl s
  · exact calm_setDev fun hprobe => hprobe

theorem calm_linkCrnt : Calm s (linkCrnt id s) := by
  refine ⟨rfl, fun j hj => ?_, fun j hj => mem_entries_insert.mpr (.inr hj)⟩
  by_cases hjid : j = id
  · subst hjid
    simp only [linkCrnt, State.setDev, update_self] at hj
    split at hj <;> exact hj
  · simp only [linkCrnt, State.setDev, update_of_ne hjid] at hj
    exact hj

end

theorem calm_alloc (hd : d.probe = false) : Calm s (s.alloc d) := by
  have hset : Calm s (s.setDev s.next d) := by
    refine calm_setDev fun hprobe => ?_
    rw [hd] at hprobe
    cases hprobe
  exact ⟨hset.twice, hset.probe, hset.crnt⟩

theorem calm_registered (hd : d.probe = false) : Calm s (s.registered d) :=
  ⟨(calm_alloc hd).twice, (calm_alloc hd).probe, (calm_alloc hd).crnt⟩

private theorem calm_add2allow (desc : DevDesc) (ipFlg : Nat) (mem : Bool) (s : State) :
    Calm s (ipaccAdd2allow desc ipFlg mem s).1 := by
  by_cases htype : desc.type < accDevtypeButt
  · cases hfind : findAllow desc.addr s with
    | none =>
      rw [add2allow_new htype hfind]
      split
      · exact calm_registered rfl
      · exact .refl s
    | some id =>
      rw [add2allow_known htype hfind]
      exact (calm_hold id s).trans (calm_put id _)
  · rw [add2allow_refused htype]
    exact .refl s

private theorem calm_add2crnt (mem : Option Nat)
    (hcrnt : findCrnt saddr s = none) : Calm s (ipaccAdd2crnt saddr mem s).1 := by
  cases hallow : findAllow saddr s with
  | some id =>
    rw [add2crnt_registered mem hcrnt hallow]
    exact (calm_hold id s).trans (calm_linkCrnt id _)
  | none =>
    rw [add2crnt_unknown mem hcrnt hallow]
    cases mem with
    | none => exact .refl s
    | some junk => exact (calm_alloc rfl).trans (calm_linkCrnt s.next _)

theorem calm_rmFromAllow (addr : Addr) (s : State) : Calm s (ipaccRmFromAllow addr s).1 := by
  cases hfind : findAllow addr s with
  | none =>
    rw [rmFromAllow_none hfind]
    exact .refl s
  | some id =>
    rw [rmFromAllow_eq hfind]
    refine ⟨rfl, fun j hj => ?_, fun _ hj => hj⟩
    obtain ⟨refcnt, dirty, hdev⟩ := deregistered_core id s j
    rw [hdev] at hj
    exact hj

private theorem calm_probeReply (addr : Addr) (s : State) : Calm s (ipaccArpProbeReply addr s) := by
  unfold ipaccArpProbeReply ipaccGetFromCrnt
  cases findCrnt addr s with
  | none => exact .refl s
  | some id =>
    simp only [map_some]
    split
    · exact (calm_hold id s).trans (calm_put id _)
    · refine (calm_hold id s).trans (Calm.trans ?_ (calm_put id _))
      exact calm_setDev nofun

theorem Spared.calm (h : Spared p s) : Calm s (ipaccRestricCheck p s).1 := by
  rcases h with hsame | ⟨_, id, -, hput⟩
  · rw [hsame]
    exact .refl s
  · rw [hput]
    exact ((calm_hold id s).trans (calm_retimer id _)).trans (calm_put id _)

/-! ### Triggers and removals -/

def NoneWaits (type : Option Nat) (s : State) : Prop :=
  ∀ id ∈ entries s.crntDevs, Wanted type s id → ¬ (s.devs id).waits

theorem noneWaits_congr {type : Option Nat} (hcrnt : s'.crntDevs = s.crntDevs)
    (htypes : s'.types = s.types)
    (hdevs : ∀ id ∈ entries s.crntDevs, (s'.devs id).devType = (s.devs id).devType ∧
      (s'.devs id).probe = (s.devs id).probe ∧ (s'.devs id).times = (s.devs id).times) :
    NoneWaits type s' ↔ NoneWaits type s := by
  unfold NoneWaits
  rw [hcrnt]
  refine forall₂_congr fun id hid => ?_
  obtain ⟨htype, hprobe, htimes⟩ := hdevs id hid
  simp only [Wanted, Device.waits, htypes, htype, hprobe, htimes]

theorem noneWaits_hold (type : Option Nat) (id : Nat) (s : State) :
    NoneWaits type (hold id s) ↔ NoneWaits type s := by
  refine noneWaits_congr rfl rfl fun j _ => ?_
  by_cases hj : j = id
  · subst hj
    simp only [hold, State.setDev, update_self, and_self]
  · simp only [hold, State.setDev, update_of_ne hj, and_self]

theorem Sound.noneWaits_registered (h : Sound s) (type : Option Nat)
    (d : Device) : NoneWaits type (s.registered d) ↔ NoneWaits type s := by
  refine noneWaits_congr rfl rfl fun j hj => ?_
  have hne := ne_of_lt (h.crntBelow j hj)
  simp only [State.registered, State.alloc, State.setDev, update_of_ne hne, and_self]

theorem Calm.kick {now : State} (hcalm : Calm s now) (hsound : Sound now)
    (hcurrent : ProbesCurrent s) (type : Option Nat) :
    ((ipaccKickIdleOutoff type now).1.twice = s.twice ↔ NoneWaits type now) ∧
      ProbesCurrent (ipaccKickIdleOutoff type now).1 := by
  obtain ⟨htwice, hprobe⟩ := kick_spec hsound type
  rw [← hcalm.twice]
  refine ⟨htwice, fun j hj => ?_⟩
  have hcrnt : (ipaccKickIdleOutoff type now).1.crntDevs = now.crntDevs := by
    have hsame := congrArg State.crntDevs (view_kick type now)
    exact hsame
  rw [hcrnt]
  exact (hprobe j hj).elim (hcalm.current hcurrent j) id

theorem Device.probe_dropped (d : Device) : d.leave.stopProbe.probe = true ↔ d.waits := by
  have hleave : d.leave.probe = d.probe ∧ d.leave.times = d.times := by
    unfold Device.leave
    split <;> exact ⟨rfl, rfl⟩
  unfold Device.stopProbe Device.waits
  rw [hleave.2]
  split
  next hpos =>
    exact iff_of_false nofun fun hwaits => absurd hwaits.2 (ne_of_gt hpos)
  next hzero =>
    rw [hleave.1]
    exact (and_iff_left (Nat.eq_zero_of_not_pos hzero)).symm

/-- Timers stay with current devices exactly if none that leaves waits for its first timeout. -/
theorem Drops.probes {gone : Nat → Prop} (h : Drops gone s s') (hcurrent : ProbesCurrent s) :
    ProbesCurrent s' ↔ ∀ id, gone id → ¬ (s.devs id).waits := by
  constructor
  · intro hafter id hgone hwaits
    have hprobe : (s'.devs id).probe = true := by
      rw [h.dropped id hgone]
      exact (Device.probe_dropped _).mpr hwaits
    exact ((h.crnt id).mp (hafter id hprobe)).2 hgone
  · intro hnone id hprobe
    by_cases hgone : gone id
    · rw [h.dropped id hgone] at hprobe
      exact absurd ((Device.probe_dropped _).mp hprobe) (hnone id hgone)
    · rw [h.kept id hgone] at hprobe
      exact (h.crnt id).mpr ⟨hcurrent id hprobe, hgone⟩

/-! ### Every event -/

/-- No device that waits for its first probe timeout is triggered or leaves the current lists. -/
def Unhurried : Event → State → Prop
  | .restart, s => NoneWaits none s
  | .lanPortUpDown, s => NoneWaits none s
  | .packet p, s => ∀ saddr, Subject s p saddr → findCrnt saddr s = none →
      (s.enable = accModeBytotal → NoneWaits none s) ∧
      (s.enable = accModeBytype →
        (∀ id, findAllow saddr s = some id →
          (s.types (s.devs id).devType).type < accDevtypeOther →
          fullByType (s.types (s.devs id).devType) = true →
          NoneWaits (some (s.types (s.devs id).devType).type) s) ∧
        (findAllow saddr s = none → p.mem.isSome →
          fullByType (s.types ⟨accDevtypePc, accDevtypePc_lt⟩) = true →
          NoneWaits (some (s.types ⟨accDevtypePc, accDevtypePc_lt⟩).type) s))
  | .unregdev addr, s => ∀ id, findCrnt addr s = some id → ¬ (s.devs id).waits
  | .set desc, s => ∀ id ∈ entries s.crntDevs, s.inited = true →
      ∀ i, Clears desc s i (s.devs id).devType → ¬ (s.devs id).waits
  | .devTimeout id, s => (s.devs id).timer = true →
      ∀ j, findCrnt (s.devs id).addr s = some j → ¬ (s.devs j).waits
  | _, _ => True

/-- The event arms no pending probe timer, and afterwards only current devices have one. -/
def KeepsProbes (event : Event) (s : State) : Prop :=
  (step event s).twice = s.twice ∧ ProbesCurrent (step event s)

section Events
variable (h : Sound s) (hcurrent : ProbesCurrent s)
include h hcurrent

omit h in
theorem Calm.keepsProbes {event : Event} (hcalm : Calm s (step event s)) : KeepsProbes event s :=
  ⟨hcalm.twice, hcalm.current hcurrent⟩

private theorem keepsProbes_kick (type : Option Nat) :
    ((ipaccKickIdleOutoff type s).1.twice = s.twice ∧
      ProbesCurrent (ipaccKickIdleOutoff type s).1) ↔ NoneWaits type s := by
  obtain ⟨htwice, hafter⟩ := (Calm.refl s).kick h hcurrent type
  exact (and_iff_left hafter).trans htwice

private theorem keepsProbes_unregdev (addr : Addr) :
    KeepsProbes (.unregdev addr) s ↔ Unhurried (.unregdev addr) s := by
  have hcalm := calm_rmFromAllow addr s
  have hcrnt := findCrnt_rmFromAllow addr addr s
  have hdrops := (h.rmFromAllow addr).drops_rmFromCrnt addr
  have hdev (id : Nat) : ((ipaccRmFromAllow addr s).1.devs id).waits ↔ (s.devs id).waits := by
    cases hfind : findAllow addr s with
    | none => rw [rmFromAllow_none hfind]
    | some other =>
      obtain ⟨refcnt, dirty, hsame⟩ := deregistered_core other s id
      rw [rmFromAllow_eq hfind, hsame]
      exact Iff.rfl
  simp only [KeepsProbes, step, ipaccRstricUnregdev, Unhurried]
  split
  · rw [hdrops.probes (hcalm.current hcurrent), hdrops.twice, hcalm.twice, hcrnt]
    simp only [hdev, true_and]
  rename_i hinited
  refine iff_of_true ⟨rfl, hcurrent⟩ fun id hid => ?_
  rw [findCrnt, if_neg hinited] at hid
  cases hid

private theorem keepsProbes_set (desc : RestricDesc) :
    KeepsProbes (.set desc) s ↔ Unhurried (.set desc) s := by
  have hdrops := h.drops_setRestric desc
  simp only [KeepsProbes, step, Unhurried]
  rw [hdrops.probes hcurrent, hdrops.twice]
  simp only [true_and, and_imp, forall_exists_index]

private theorem keepsProbes_devTimeout (id : Nat) :
    KeepsProbes (.devTimeout id) s ↔ Unhurried (.devTimeout id) s := by
  simp only [KeepsProbes, step, ipaccDevTimeout, Unhurried]
  split
  next htimer =>
    have hcalm : Calm s (s.setDev id { s.devs id with timer := false }) :=
      calm_setDev fun hprobe => hprobe
    have hview : (s.setDev id { s.devs id with timer := false }).view = s.view :=
      view_setDev rfl
    have hdrops := (h.of_view hview).drops_rmFromCrnt (s.devs id).addr
    have hdev (j : Nat) : ((s.setDev id { s.devs id with timer := false }).devs j).waits ↔
        (s.devs j).waits := by
      by_cases hj : j = id
      · subst hj
        simp only [State.setDev, update_self]
        exact Iff.rfl
      · simp only [State.setDev, update_of_ne hj]
    rw [hdrops.probes (hcalm.current hcurrent), hdrops.twice, hcalm.twice, findCrnt_of_view hview]
    simp only [hdev, true_and, htimer, forall_true_left]
  next htimer =>
    exact iff_of_true ⟨rfl, hcurrent⟩ fun hpending => absurd hpending htimer

private theorem keepsProbes_probeTimeout (id : Nat) : KeepsProbes (.probeTimeout id) s := by
  simp only [KeepsProbes, step, ipaccArpProbeTimeout]
  split
  next hprobe =>
    split
    · have hcalm : Calm s (s.setDev id { s.devs id with probe := false }) := calm_setDev (by simp)
      have hview : (s.setDev id { s.devs id with probe := false }).view = s.view :=
        view_setDev rfl
      have hdrops := (h.of_view hview).drops_rmFromCrnt (s.devs id).addr
      have hremoved : ProbesCurrent (ipaccRmFromCrnt (s.devs id).addr
          (s.setDev id { s.devs id with probe := false })).1 := by
        refine (hdrops.probes (hcalm.current hcurrent)).mpr fun j hj hwaits => ?_
        rw [findCrnt_of_view hview] at hj
        obtain ⟨hmem, haddr⟩ := findCrnt_some hj
        have hsame : j = id :=
          inj_on_of_nodup_map h.crntAddr hmem (hcurrent id hprobe) haddr
        subst hsame
        have hpending := hwaits.1
        simp only [State.setDev, update_self] at hpending
        cases hpending
      have htwice := hdrops.twice.trans hcalm.twice
      split
      · have hoff := calm_rmFromAllow (s.devs id).addr (ipaccRmFromCrnt (s.devs id).addr
          (s.setDev id { s.devs id with probe := false })).1
        exact ⟨hoff.twice.trans htwice, hoff.current hremoved⟩
      · exact ⟨htwice, hremoved⟩
    · have hcalm : Calm s (s.setDev id { s.devs id with times := (s.devs id).times + 1 }) :=
        calm_setDev fun hpending => hpending
      exact ⟨hcalm.twice, hcalm.current hcurrent⟩
  · exact ⟨rfl, hcurrent⟩

private theorem keepsProbes_bytotal (hcrnt : findCrnt saddr s = none)
    (hcheck : ipaccRestricCheck p s = checkBytotal saddr p.mem s) :
    KeepsProbes (.packet p) s ↔ NoneWaits none s := by
  obtain ⟨htwice, hafter⟩ := (Calm.refl s).kick h hcurrent none
  simp only [KeepsProbes, step, hcheck]
  rcases checkBytotal_cases s saddr p.mem with ⟨-, -, hstay⟩ | ⟨-, -, hadd⟩
  · rw [hstay]
    exact (and_iff_left hafter).trans htwice
  · have hcalm := calm_add2crnt p.mem ((findCrnt_of_view (view_kick none s) saddr).trans hcrnt)
    rw [hadd, hcalm.twice]
    exact (and_iff_left (hcalm.current hafter)).trans htwice

section

variable (hcrnt : findCrnt saddr s = none)
  (hcheck : ipaccRestricCheck p s = checkBytype saddr p.mem s)
include hcrnt hcheck

/-- A packet of a registered device kicks only if its class is full. -/
private theorem keepsProbes_found (hallow : findAllow saddr s = some id) :
    KeepsProbes (.packet p) s ↔
      ((s.types (s.devs id).devType).type < accDevtypeOther →
        fullByType (s.types (s.devs id).devType) = true →
        NoneWaits (some (s.types (s.devs id).devType).type) s) := by
  have hview := view_hold id s
  have hhold := calm_hold id s
  simp only [KeepsProbes, step, hcheck]
  rw [checkBytype_found p.mem hcrnt hallow]
  by_cases hother : (s.types (s.devs id).devType).type < accDevtypeOther
  · rw [if_pos hother]
    cases hfull : fullByType (s.types (s.devs id).devType) with
    | true =>
      obtain ⟨htwice, hafter⟩ := hhold.kick (h.of_view hview) hcurrent
        (some (s.types (s.devs id).devType).type)
      have hput := calm_put id
        (ipaccKickIdleOutoff (some (s.types (s.devs id).devType).type) (hold id s)).1
      rw [noneWaits_hold] at htwice
      simp only [if_true, hput.twice, hother, forall_true_left]
      exact (and_iff_left (hput.current hafter)).trans htwice
    | false =>
      have hcalm : Calm s (ipaccPutDev id (linkCrnt id (hold id (hold id s)))) :=
        ((hhold.trans (calm_hold id _)).trans (calm_linkCrnt id _)).trans (calm_put id _)
      exact iff_of_true ⟨hcalm.twice, hcalm.current hcurrent⟩ fun _ => by simp
  · rw [if_neg hother]
    have hcalm := hhold.trans (calm_put id (hold id s))
    exact iff_of_true ⟨hcalm.twice, hcalm.current hcurrent⟩ fun hless => absurd hless hother

/-- A packet of a new device is judged as that of a computer. -/
private theorem keepsProbes_new (hinited : s.inited = true) (hallow : findAllow saddr s = none) :
    KeepsProbes (.packet p) s ↔
      (p.mem.isSome → fullByType (s.types ⟨accDevtypePc, accDevtypePc_lt⟩) = true →
        NoneWaits (some (s.types ⟨accDevtypePc, accDevtypePc_lt⟩).type) s) := by
  simp only [KeepsProbes, step, hcheck]
  cases hmem : p.mem with
  | none =>
    rw [checkBytype_unbacked hallow]
    exact iff_of_true ⟨rfl, hcurrent⟩ (by simp)
  | some junk =>
    have hview := view_hold s.next (s.registered (staticDevice saddr))
    have hregistered := h.registered hallow
    have hcalm : Calm s (hold s.next (s.registered (staticDevice saddr))) :=
      (calm_registered rfl).trans (calm_hold s.next _)
    rw [checkBytype_new h junk hinited hcrnt hallow]
    cases hfull : fullByType (s.types ⟨accDevtypePc, accDevtypePc_lt⟩) with
    | true =>
      obtain ⟨htwice, hafter⟩ := hcalm.kick (hregistered.of_view hview) hcurrent
        (some (s.types ⟨accDevtypePc, accDevtypePc_lt⟩).type)
      rw [noneWaits_hold, h.noneWaits_registered] at htwice
      simp only [if_true, isSome_some, forall_true_left]
      exact (and_iff_left hafter).trans htwice
    | false =>
      have hlink := (hcalm.trans (calm_hold s.next _)).trans (calm_linkCrnt s.next _)
      exact iff_of_true ⟨hlink.twice, hlink.current hcurrent⟩ fun _ => by simp

end

theorem keepsProbes_packet (p : Packet) : KeepsProbes (.packet p) s ↔ Unhurried (.packet p) s := by
  rcases restricCheck_cases p s with ⟨hspared, hknown⟩ | ⟨saddr, hsubject, hcrnt, hcase⟩
  · refine iff_of_true (Calm.keepsProbes hcurrent hspared.calm) fun other hother hnone => ?_
    exact absurd hnone (hknown other hother)
  have hmodes : accModeBytotal ≠ accModeBytype := by decide
  rcases hcase with ⟨hmode, hcheck⟩ | ⟨hmode, hcheck⟩
  · rw [keepsProbes_bytotal h hcurrent hcrnt hcheck]
    constructor
    · intro hnone other _ _
      exact ⟨fun _ => hnone, fun htype => absurd (hmode.symm.trans htype) hmodes⟩
    · intro hunhurried
      exact (hunhurried saddr hsubject hcrnt).1 hmode
  · cases hallow : findAllow saddr s with
    | some id =>
      rw [keepsProbes_found h hcurrent hcrnt hcheck hallow]
      constructor
      · intro hnone other hother _
        rw [hsubject.unique hother, hallow]
        refine ⟨fun htotal => absurd (htotal.symm.trans hmode) hmodes, fun _ => ⟨?_, by simp⟩⟩
        intro found hfound
        obtain rfl := some_inj.mp hfound
        exact hnone
      · intro hunhurried
        exact ((hunhurried saddr hsubject hcrnt).2 hmode).1 id hallow
    | none =>
      rw [keepsProbes_new h hcurrent hcrnt hcheck hsubject.inited hallow]
      constructor
      · intro hnone other hother _
        rw [hsubject.unique hother, hallow]
        exact ⟨fun htotal => absurd (htotal.symm.trans hmode) hmodes,
          fun _ => ⟨by simp, fun _ => hnone⟩⟩
      · intro hunhurried
        exact ((hunhurried saddr hsubject hcrnt).2 hmode).2 hallow

/-- For every event, the timers follow exactly if it hurries no probe. -/
private theorem keepsProbes_iff (event : Event) : KeepsProbes event s ↔ Unhurried event s := by
  cases event with
  | packet p => exact keepsProbes_packet h hcurrent p
  | regdev desc mem =>
    refine iff_of_true (Calm.keepsProbes hcurrent ?_) trivial
    simp only [step, ipaccRstricRegdev]
    split
    · exact calm_add2allow desc accDynamicIp mem s
    · exact .refl s
  | unregdev addr => exact keepsProbes_unregdev h hcurrent addr
  | set desc => exact keepsProbes_set h hcurrent desc
  | addwan wan mem =>
    refine iff_of_true ?_ trivial
    obtain ⟨wans, hwans⟩ := addwan_eq (s := s) wan mem
    simp only [KeepsProbes, step, hwans]
    exact ⟨trivial, hcurrent⟩
  | delwan name => exact iff_of_true ⟨rfl, hcurrent⟩ trivial
  | restart => exact keepsProbes_kick h hcurrent none
  | lanPortUpDown => exact keepsProbes_kick h hcurrent none
  | arpReply addr =>
    exact iff_of_true (Calm.keepsProbes hcurrent (calm_probeReply addr s)) trivial
  | devTimeout id => exact keepsProbes_devTimeout h hcurrent id
  | probeTimeout id => exact iff_of_true (keepsProbes_probeTimeout h hcurrent id) trivial

end Events

/-- Along a run no pending probe timer is armed and no device leaves the current lists with one,
exactly if no device that waits for its first probe timeout is triggered or taken out. -/
theorem probe_timers_iff (events : List Event) :
    Allowed step KeepsProbes events ipaccInit ↔ Allowed step Unhurried events ipaccInit := by
  apply Allowed.iff_of_invariant (P := fun s => Sound s ∧ ProbesCurrent s)
  · intro event s hs
    exact keepsProbes_iff hs.1 hs.2 event
  · intro event s hs hkeeps
    exact ⟨hs.1.step event, hkeeps.2⟩
  · exact ⟨sound_ipaccInit, nofun⟩

def threeByTotal : RestricDesc :=
  { oneByTotal with totalAllow := 3 }

def packetFrom (addr : Addr) : Event :=
  .packet { wan := "nas0", iph := some addr, mem := some accDynamicIp }

/-- A second and a third device arm the probe of the first twice. If the lifetime of the first
ends after the second has come, it leaves with its probe timer pending. -/
theorem third_device_arms_again :
    (run step [.set threeByTotal, packetFrom 0xC0A80102, packetFrom 0xC0A80103,
      packetFrom 0xC0A80104] ipaccInit).twice = [0] ∧
    ((run step [.set threeByTotal, .regdev ⟨accDevtypePc, 0xC0A80102, 60⟩ true,
      packetFrom 0xC0A80102, packetFrom 0xC0A80103, .devTimeout 0] ipaccInit).devs 0).probe = true ∧
    0 ∉ entries (run step [.set threeByTotal, .regdev ⟨accDevtypePc, 0xC0A80102, 60⟩ true,
      packetFrom 0xC0A80102, packetFrom 0xC0A80103, .devTimeout 0] ipaccInit).crntDevs := by
  refine ⟨rfl, rfl, ?_⟩
  have hleft : entries (run step [.set threeByTotal,
      .regdev ⟨accDevtypePc, 0xC0A80102, 60⟩ true, packetFrom 0xC0A80102,
      packetFrom 0xC0A80103, .devTimeout 0] ipaccInit).crntDevs = [1] := rfl
  rw [hleft]
  simp

end EchoLife.Access
