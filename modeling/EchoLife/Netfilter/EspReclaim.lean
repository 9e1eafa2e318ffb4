import EchoLife.Netfilter.Esp

/-!
When the entries of the ESP table are given back: an entry is freed by its own timer only, after a
number of intervals without a packet. The timer is started again with the connection that is
stored in the entry, and not at all if there is none.
-/

namespace EchoLife.Netfilter.Esp

open Bool Function List Run

variable {t : Table}

def Pending (t : Table) : Prop :=
  ∀ i, (t i).inuse = true → (t i).timer.isSome = true

/-- A timer that expires finds a connection in its entry, or frees the entry. -/
def Rearmed : Event → Table → Prop
  | .packet .., _ => True
  | .timeout _ i, t =>
    (t i).timer.isSome = true →
      (t i).ct.isSome = true ∨ (t i).pktRcvd = 0 ∧ espTmoutCount ≤ (t i).ntimeouts + 1

instance (event : Event) (t : Table) : Decidable (Rearmed event t) :=
  match event with
  | .packet .. => .isTrue trivial
  | .timeout _ i =>
    inferInstanceAs (Decidable ((t i).timer.isSome = true →
      (t i).ct.isSome = true ∨ (t i).pktRcvd = 0 ∧ espTmoutCount ≤ (t i).ntimeouts + 1))

theorem pending_packet (hsound : TableSound t) (hpending : Pending t) (now src dst spi : Nat)
    (new : Option Nat) : Pending (tableStep (.packet now src dst spi new) t) := by
  simp only [tableStep]
  cases hentry : espPktToTuple now t src dst spi with
  | none => exact hpending
  | some found =>
    obtain ⟨i, e⟩ := found
    intro j huse
    have hsame := (newConnection_same (update t i e.count) spi new j).1
    rw [hsame.inuse] at huse
    rw [hsame.timer]
    rcases eq_or_ne j i with rfl | hji
    · rw [update_self] at huse ⊢
      obtain ⟨_, ⟨_, rfl⟩ | ⟨_, ⟨_, rfl⟩ | ⟨_, _, rfl⟩⟩⟩ := espPktToTuple_cases hentry
      · have hlearn := learnSpi_same (t j) spi src
        exact hlearn.timer ▸ hpending j (hlearn.inuse ▸ huse)
      · rcases updateSpi_cases (hsound j) src dst spi with
          ⟨_, hold, _, _, _, _, htimer, _, _⟩ | ⟨_, hupdate⟩
        · exact htimer ▸ hpending j hold
        · exact hupdate.timer ▸ hpending j (hupdate.inuse ▸ huse)
      · rfl
    · rw [update_of_ne hji] at huse ⊢
      exact hpending j huse

variable {e : Entry} {i : Nat}

private theorem espRefreshCt_timer (huse : e.inuse = true) (now : Nat) :
    ((espRefreshCt now e).inuse = true → (espRefreshCt now e).timer.isSome = true) ↔
      e.ct.isSome = true ∨ e.pktRcvd = 0 ∧ espTmoutCount ≤ e.ntimeouts + 1 := by
  unfold espRefreshCt
  split
  next hreceived =>
    cases hct : e.ct.isSome with
    | true => simp [rearm, hct]
    | false => simp [rearm, huse, hct, hreceived]
  rename_i hsilent
  split
  next hold =>
    simp [espFreeEntry, huse, Entry.zero, not_not.mp hsilent, hold]
  rename_i hyoung
  cases hct : e.ct.isSome with
  | true => simp [rearm, hct]
  | false => simp [rearm, huse, hct, hyoung]

theorem pending_step_iff (hsound : TableSound t) (hpending : Pending t)
    (event : Event) : Pending (tableStep event t) ↔ Rearmed event t := by
  cases event with
  | packet now src dst spi new =>
    exact iff_of_true (pending_packet hsound hpending now src dst spi new) trivial
  | timeout now i =>
    simp only [tableStep, Rearmed]
    cases htimer : (t i).timer.isSome with
    | false => exact iff_of_true hpending (by rintro ⟨⟩)
    | true =>
      have huse := (hsound i).inuse_of_timer htimer
      rw [if_pos rfl, ← espRefreshCt_timer huse now]
      constructor
      · intro hafter _
        simpa using hafter i
      intro hentry j
      rcases eq_or_ne j i with rfl | hji
      · simpa using hentry rfl
      · simpa [update_of_ne hji] using hpending j

/-! ### The number of intervals -/

def Hits (i : Nat) : Event → Table → Prop
  | .packet now src dst spi _, t => ∃ e, espPktToTuple now t src dst spi = some (i, e)
  | .timeout .., _ => False

def isTimeout (i : Nat) : Event → Bool
  | .packet .. => false
  | .timeout _ j => j == i

def lifetime (e : Entry) : Nat :=
  if e.inuse then
    if e.pktRcvd ≠ 0 then espTmoutCount + 1 else espTmoutCount - e.ntimeouts
  else 0

private theorem lifetime_le (e : Entry) : lifetime e ≤ espTmoutCount + 1 := by
  unfold lifetime
  split
  · split
    · exact le_refl _
    · omega
  · exact Nat.zero_le _

theorem inuse_of_lifetime (hsound : EntrySound i e) (h : lifetime e = 0) : e.inuse = false := by
  by_contra huse
  have huse := eq_true_of_not_eq_false huse
  have hyoung := (hsound.live huse).2.2
  rw [lifetime, if_pos huse] at h
  split at h
  · omega
  · omega

private theorem lifetime_refresh (huse : e.inuse = true) (now : Nat) :
    lifetime (espRefreshCt now e) ≤ lifetime e - 1 := by
  unfold espRefreshCt
  split
  next hreceived =>
    simp [lifetime, rearm, huse, hreceived]
  rename_i hsilent
  split
  · simp [lifetime, espFreeEntry, huse, Entry.zero]
  · simp only [lifetime, rearm, huse, if_true, if_neg hsilent]
    omega

private theorem lifetime_step (hsound : TableSound t) (hpending : Pending t)
    {event : Event} (hquiet : ¬Hits i event t) :
    lifetime (tableStep event t i) ≤ lifetime (t i) - (if isTimeout i event then 1 else 0) := by
  cases event with
  | packet now src dst spi new =>
    simp only [tableStep, isTimeout, false_eq_true, if_false, Nat.sub_zero]
    cases hentry : espPktToTuple now t src dst spi with
    | none => exact le_refl _
    | some found =>
      obtain ⟨j, e⟩ := found
      have hij : i ≠ j := by
        rintro rfl
        exact hquiet ⟨e, hentry⟩
      have hsame := newConnection_same (update t j e.count) spi new i
      rw [update_of_ne hij] at hsame
      rw [lifetime, hsame.1.inuse, hsame.2.1, hsame.1.ntimeouts]
      exact le_refl _
  | timeout now j =>
    simp only [tableStep]
    rcases eq_or_ne j i with rfl | hji
    · cases htimer : (t j).timer.isSome with
      | true =>
        have huse := (hsound j).inuse_of_timer htimer
        simpa [isTimeout] using lifetime_refresh huse now
      | false =>
        have hfree : (t j).inuse = false := by
          by_contra huse
          have hrunning := hpending j (eq_true_of_not_eq_false huse)
          rw [htimer] at hrunning
          cases hrunning
        simp [lifetime, hfree]
    · have hother : isTimeout i (.timeout now j) = false := by
        simpa [isTimeout] using hji
      simp only [hother, false_eq_true, if_false, Nat.sub_zero]
      split
      · rw [update_of_ne hji.symm]
      · exact Nat.le_refl _

private theorem lifetime_run {events : List Event} (hsound : TableSound t)
    (hpending : Pending t) (hrearmed : Allowed tableStep Rearmed events t)
    (hquiet : Allowed tableStep (fun event t => ¬Hits i event t) events t) :
    lifetime (run tableStep events t i) ≤ lifetime (t i) - events.countP (isTimeout i) := by
  induction events generalizing t with
  | nil => exact le_refl _
  | cons event rest ih =>
    have hstep := lifetime_step hsound hpending hquiet.1
    have hrest := ih (hsound.step event)
      ((pending_step_iff hsound hpending event).mpr hrearmed.1) hrearmed.2 hquiet.2
    rw [run_cons, countP_cons]
    omega

/-! ### Reclaiming -/

/-- In every run each entry in use has its timer pending in each state exactly if every timer that
expires finds a connection in its entry or frees it. Then an entry without more packets is free
after thirteen expiries of its timer. -/
theorem esp_reclaim_iff (events : List Event) :
    (Allowed tableStep (fun event t => Pending (tableStep event t)) events .empty ↔
      Allowed tableStep Rearmed events .empty) ∧
    ∀ i later, Allowed tableStep Rearmed (events ++ later) .empty →
      Allowed tableStep (fun event t => ¬Hits i event t) later (run tableStep events .empty) →
      espTmoutCount + 1 ≤ later.countP (isTimeout i) →
      (run tableStep (events ++ later) .empty i).inuse = false := by
  have hkeep : ∀ event t, TableSound t ∧ Pending t → Rearmed event t →
      TableSound (tableStep event t) ∧ Pending (tableStep event t) := by
    rintro event t ⟨hsound, hpending⟩ hrearmed
    exact ⟨hsound.step event, (pending_step_iff hsound hpending event).mpr hrearmed⟩
  have hstart : TableSound .empty ∧ Pending .empty :=
    ⟨sound_empty, by rintro i ⟨⟩⟩
  constructor
  · symm
    refine Allowed.iff_of_invariant ?_ hkeep hstart
    rintro event t ⟨hsound, hpending⟩
    exact (pending_step_iff hsound hpending event).symm
  intro i later hrearmed hquiet hexpiries
  obtain ⟨hbefore, hlater⟩ := hrearmed.of_append
  obtain ⟨hsound, hpending⟩ := hbefore.invariant hkeep hstart
  have hlife := lifetime_run hsound hpending hlater hquiet
  have hbound := lifetime_le (run tableStep events .empty i)
  obtain ⟨hend, _⟩ := hrearmed.invariant hkeep hstart
  apply inuse_of_lifetime (hend i)
  rw [run_append]
  omega

/-! ### A tunnel that pauses -/

def tunnelPacket (spi : Nat) (new : Option Nat) : Event :=
  .packet 0 3232235778 134744072 spi new

def silence : List Event :=
  replicate 13 (.timeout 0 0)

theorem silent_tunnel_reclaimed :
    (run tableStep ([tunnelPacket 7 (some 1)] ++ silence) .empty 0).inuse = false :=
  (esp_reclaim_iff [tunnelPacket 7 (some 1)]).2 0 silence
    (by decide +kernel)
    (by simp [silence, replicate, Allowed, Hits])
    (le_refl _)

/-- The connection of the silent tunnel is still there when it sends again, and none is stored in
its new entry: the timer stops and the entry stays in use. -/
theorem resumed_tunnel_not_pending :
    (run tableStep ([tunnelPacket 7 (some 1)] ++ silence ++
        [tunnelPacket 8 none, .timeout 0 0]) .empty 0).inuse = true ∧
      (run tableStep ([tunnelPacket 7 (some 1)] ++ silence ++
        [tunnelPacket 8 none, .timeout 0 0]) .empty 0).timer = none :=
  ⟨rfl, rfl⟩

end EchoLife.Netfilter.Esp
