import EchoLife.Netfilter.Esp

/-!
Which tunnel an ESP packet is taken to belong to. Each pair of a LAN host and its peer is meant to
have a translated SPI of its own, and a packet from the WAN to go to a pair of its sender. Beside
the table it is written down which translated SPI the packets of which pair were given, as long as
the pair has an entry and the slot is not given to another pair.
-/

namespace EchoLife.Netfilter.Esp

open Bool Function List Option Run Slots

abbrev Pair := Nat × Nat

def Entry.pair (e : Entry) : Pair :=
  (e.lIp, e.rIp)

def Entry.view (e : Entry) : Bool × Pair × Nat :=
  (e.inuse, e.pair, e.tspi)

def hasEntry (t : Table) (p : Pair) : Bool :=
  (firstSlot maxPorts (fun e => e.inuse && e.pair == p) t).isSome

structure State where
  table : Table
  given : List (Pair × Nat)

def State.empty : State :=
  ⟨.empty, []⟩

def retire (tspi : Nat) (given : List (Pair × Nat)) : List (Pair × Nat) :=
  given.filter (fun record => record.2 != tspi)

def keptByPacket (before e : Entry) (given : List (Pair × Nat)) : List (Pair × Nat) :=
  if e.pair = before.pair then given else retire e.tspi given

def keptByTimeout (before after : Entry) (given : List (Pair × Nat)) : List (Pair × Nat) :=
  if before.inuse && !after.inuse then retire before.tspi given else given

section
variable (lan : Nat → Bool)

def recordPacket (src dst tspi : Nat) (given : List (Pair × Nat)) : List (Pair × Nat) :=
  if lan src then ((src, dst), tspi) :: given else given

def step (event : Event) (s : State) : State :=
  { table := tableStep event s.table
    given :=
      (match event with
      | .packet now src dst spi _ =>
        match espPktToTuple now s.table src dst spi with
        | some (i, e) =>
          recordPacket lan src dst e.tspi (keptByPacket (s.table i) e s.given)
        | none => s.given
      | .timeout _ i =>
        keptByTimeout (s.table i) (tableStep event s.table i) s.given).filter
        (fun record => hasEntry (tableStep event s.table) record.1) }

/-! ### The property and its condition -/

def Apart (s : State) : Prop :=
  ∀ p q tspi, (p, tspi) ∈ s.given → (q, tspi) ∈ s.given → p = q

/-- A packet from the WAN that is given the entry of a LAN host comes from its peer. -/
def Attributed : Event → State → Prop
  | .packet now src dst spi _, s =>
    lan src = false → ∀ i e, espPktToTuple now s.table src dst spi = some (i, e) →
      e.inuse = true → lan e.lIp = true → e.rIp = src
  | .timeout .., _ => True

/-- The slot that a packet shares with packets that came before it: the first with its
SPI, or the first that waits for the SPI of this source. -/
def sharedSlot (t : Table) (src spi : Nat) : Option Nat :=
  match searchEspEntryBySpi t spi with
  | some i => some i
  | none => (searchEspEntryByIp t src).filter (fun i => !(t i).fromHost src)

/-- The slot belongs to another pair of the LAN; or it belongs to none, and packets of
another pair were given its translated SPI. -/
def Rival (s : State) (i : Nat) (p : Pair) : Prop :=
  if (s.table i).inuse = true ∧ lan (s.table i).lIp = true then (s.table i).pair ≠ p
  else ∃ q, q ≠ p ∧ (q, (s.table i).tspi) ∈ s.given

/-- A packet of a pair with an entry does not share a slot with another pair, and one from the WAN
shares that of a LAN host only with its peer. -/
def Separate : Event → State → Prop
  | .packet _ src dst spi _, s =>
    ∀ i, sharedSlot s.table src spi = some i →
      (lan src = true → hasEntry s.table (src, dst) = true → ¬Rival lan s i (src, dst)) ∧
      (lan src = false → (s.table i).inuse = true → lan (s.table i).lIp = true →
        (s.table i).rIp = src)
  | .timeout .., _ => True

end

/-! ### Entries of pairs -/

theorem hasEntry_iff (t : Table) (p : Pair) :
    hasEntry t p = true ↔ ∃ i < maxPorts, (t i).inuse = true ∧ (t i).pair = p := by
  constructor
  · intro h
    obtain ⟨i, hfirst⟩ := isSome_iff_exists.mp h
    have hhit := firstSlot_hit hfirst
    simp only [and_eq_true, beq_iff_eq] at hhit
    exact ⟨i, firstSlot_lt hfirst, hhit⟩
  · rintro ⟨i, hi, huse, hpair⟩
    apply isSome_iff_exists.mpr
    exact firstSlot_isSome hi (by simp [huse, hpair])

variable {e : Entry} {src dst spi i : Nat} {t : Table} {lan : Nat → Bool} {s : State}
  {e' before : Entry} {now tspi : Nat} {new : Option Nat}

theorem SameTunnel.view (h : SameTunnel e e') : e'.view = e.view := by
  rw [Entry.view, Entry.view, Entry.pair, Entry.pair, h.inuse, h.lIp, h.rIp, h.tspi]

theorem Entry.view_eq_iff :
    e'.view = e.view ↔ e'.inuse = e.inuse ∧ e'.pair = e.pair ∧ e'.tspi = e.tspi := by
  rw [Entry.view, Entry.view, Prod.mk.injEq, Prod.mk.injEq]

theorem tableStep_packet_view
    (hentry : espPktToTuple now t src dst spi = some (i, e)) (new : Option Nat) (j : Nat) :
    (tableStep (.packet now src dst spi new) t j).view = if j = i then e.view else (t j).view := by
  simp only [tableStep, hentry]
  rw [(newConnection_same _ spi new j).1.view, update_apply]
  split
  · exact (count_same e).view
  · rfl

/-- How a packet comes to its slot: it shares the slot, the slot is that of its host,
or the slot is new. -/
theorem espPktToTuple_shared (h : TableSound t)
    (hentry : espPktToTuple now t src dst spi = some (i, e)) :
    sharedSlot t src spi = some i ∧ e.view = (t i).view ∨
      sharedSlot t src spi = none ∧ e.pair = (src, dst) ∧ e.inuse = true ∧
        ((t i).lIp = src ∧ (t i).inuse = true ∧ e.tspi = (t i).tspi ∨
          (t i).inuse = false ∧ i < maxPorts ∧ e.tspi = i + tempSpiStart) := by
  obtain ⟨hi, ⟨hspi, rfl⟩ | ⟨hspi, ⟨hip, rfl⟩ | ⟨hip, hfree, rfl⟩⟩⟩ :=
    espPktToTuple_cases hentry
  · exact .inl ⟨by simp [sharedSlot, hspi], (learnSpi_same (t i) spi src).view⟩
  · rcases updateSpi_cases (h i) src dst spi with
      ⟨hsrc, huse, hhost, hlip, hrip, htspi, _, _, huse'⟩ | ⟨hother, hsame⟩
    · refine .inr ⟨by simp [sharedSlot, hspi, hip, hhost], ?_, huse', .inl ⟨hsrc, huse, htspi⟩⟩
      rw [Entry.pair, hlip, hrip]
    · exact .inl ⟨by simp [sharedSlot, hspi, hip, hother], hsame.view⟩
  · exact .inr ⟨by simp [sharedSlot, hspi, hip], rfl, rfl, .inr ⟨hfree, hi, rfl⟩⟩

private theorem espPktToTuple_of_shared (h : sharedSlot t src spi = some i) (now dst : Nat) :
    ∃ e, espPktToTuple now t src dst spi = some (i, e) := by
  unfold sharedSlot at h
  unfold espPktToTuple
  cases hspi : searchEspEntryBySpi t spi with
  | some k =>
    rw [hspi] at h
    cases h
    exact ⟨_, rfl⟩
  | none =>
    rw [hspi] at h
    obtain ⟨hip, _⟩ := filter_eq_some_iff.mp h
    rw [hip]
    exact ⟨_, rfl⟩

/-! ### What is recorded -/

/-- Records are of pairs with an entry and of slots in use, apart from those of free slots; the
pair of a slot in use for a LAN host is recorded. -/
structure Recorded (lan : Nat → Bool) (s : State) : Prop where
  sound : TableSound s.table
  live : ∀ record ∈ s.given, hasEntry s.table record.1 = true
  slots : ∀ record ∈ s.given, record.2 = 0 ∨
    ∃ i, (s.table i).inuse = true ∧ (s.table i).tspi = record.2
  own : ∀ i, (s.table i).inuse = true → lan (s.table i).lIp = true →
    ((s.table i).pair, (s.table i).tspi) ∈ s.given

theorem TableSound.tspi_ne (h : TableSound t) {j : Nat} (hi : (t i).inuse = true)
    (hj : (t j).inuse = true) (hne : i ≠ j) : (t i).tspi ≠ (t j).tspi := by
  have hti := ((h i).live hi).2.1
  have htj := ((h j).live hj).2.1
  omega

variable {given : List (Pair × Nat)} {record : Pair × Nat}

theorem mem_retire : record ∈ retire tspi given ↔ record ∈ given ∧ record.2 ≠ tspi := by
  simp [retire]

theorem mem_keptByPacket (h : record ∈ keptByPacket before e given) :
    record ∈ given ∧ (e.pair ≠ before.pair → record.2 ≠ e.tspi) := by
  unfold keptByPacket at h
  split at h
  next hsame =>
    exact ⟨h, fun hne => absurd hsame hne⟩
  · have hkept := mem_retire.mp h
    exact ⟨hkept.1, fun _ => hkept.2⟩

private theorem keptByPacket_mem (h : record ∈ given) (hne : record.2 ≠ e.tspi) :
    record ∈ keptByPacket before e given := by
  unfold keptByPacket
  split
  · exact h
  · exact mem_retire.mpr ⟨h, hne⟩

theorem mem_recordPacket :
    record ∈ recordPacket lan src dst tspi given ↔
      lan src = true ∧ record = ((src, dst), tspi) ∨ record ∈ given := by
  unfold recordPacket
  split
  next hlan =>
    simp [hlan]
  next hlan =>
    simp [hlan]

private theorem mem_given_packet
    (hentry : espPktToTuple now s.table src dst spi = some (i, e)) {record : Pair × Nat} :
    record ∈ (step lan (.packet now src dst spi new) s).given ↔
      (lan src = true ∧ record = ((src, dst), e.tspi) ∨
        record ∈ keptByPacket (s.table i) e s.given) ∧
      hasEntry (step lan (.packet now src dst spi new) s).table record.1 = true := by
  simp only [step, hentry, mem_filter, mem_recordPacket]

/-- For a change of one slot: a record that is left, or new, is of a slot in use or a free one;
other slots keep theirs; the slot's own pair is recorded. -/
theorem Recorded.change (h : Recorded lan s) (s' : State) (i : Nat) (base : List (Pair × Nat))
    (hafter : TableSound s'.table) (hothers : ∀ j ≠ i, (s'.table j).view = (s.table j).view)
    (hgiven : s'.given = base.filter (fun record => hasEntry s'.table record.1))
    (hslots : ∀ record ∈ base, record.2 = 0 ∨
      (s'.table i).inuse = true ∧ (s'.table i).tspi = record.2 ∨
      record ∈ s.given ∧ ((s.table i).inuse = true → (s.table i).tspi ≠ record.2))
    (hkeep : ∀ j ≠ i, (s.table j).inuse = true → ∀ record ∈ s.given,
      record.2 = (s.table j).tspi → record ∈ base)
    (hown : (s'.table i).inuse = true → lan (s'.table i).lIp = true →
      ((s'.table i).pair, (s'.table i).tspi) ∈ base) : Recorded lan s' := by
  refine ⟨hafter, ?_, ?_, ?_⟩
  · intro record hmem
    rw [hgiven] at hmem
    exact (mem_filter.mp hmem).2
  · intro record hmem
    rw [hgiven] at hmem
    rcases hslots record (mem_filter.mp hmem).1 with hzero | hhere | ⟨hold, hne⟩
    · exact .inl hzero
    · exact .inr ⟨i, hhere⟩
    rcases h.slots record hold with hzero | ⟨j, huse, hspi⟩
    · exact .inl hzero
    have hji : j ≠ i := by
      rintro rfl
      exact hne huse hspi
    obtain ⟨hinuse, _, htspi⟩ := Entry.view_eq_iff.mp (hothers j hji)
    exact .inr ⟨j, hinuse.trans huse, htspi.trans hspi⟩
  · intro j huse hlan
    rw [hgiven]
    have hlive : hasEntry s'.table (s'.table j).pair = true :=
      (hasEntry_iff _ _).mpr ⟨j, ((hafter j).live huse).1, huse, rfl⟩
    refine mem_filter.mpr ⟨?_, hlive⟩
    rcases eq_or_ne j i with rfl | hji
    · exact hown huse hlan
    obtain ⟨hinuse, hpair, htspi⟩ := Entry.view_eq_iff.mp (hothers j hji)
    have hip : (s'.table j).lIp = (s.table j).lIp := congrArg Prod.fst hpair
    have hold : (s.table j).inuse = true := hinuse ▸ huse
    rw [hpair, htspi]
    exact hkeep j hji hold _ (h.own j hold (hip ▸ hlan)) rfl

theorem step_packet_none (h : Recorded lan s)
    (hentry : espPktToTuple now s.table src dst spi = none) :
    step lan (.packet now src dst spi new) s = s := by
  have htable : tableStep (.packet now src dst spi new) s.table = s.table := by
    simp only [tableStep, hentry]
  have hgiven : s.given.filter (fun record => hasEntry s.table record.1) = s.given :=
    filter_eq_self.mpr h.live
  simp only [step, hentry, htable, hgiven]

private theorem espPktToTuple_keeps (h : TableSound s.table)
    (hentry : espPktToTuple now s.table src dst spi = some (i, e))
    (huse : (s.table i).inuse = true) : e.inuse = true ∧ e.tspi = (s.table i).tspi := by
  rcases espPktToTuple_shared h hentry with
    ⟨_, hsame⟩ | ⟨_, _, hinuse, ⟨_, _, hsame⟩ | ⟨hfree, _⟩⟩
  · obtain ⟨hinuse, _, htspi⟩ := Entry.view_eq_iff.mp hsame
    exact ⟨hinuse.trans huse, htspi⟩
  · exact ⟨hinuse, hsame⟩
  · rw [huse] at hfree
    cases hfree

theorem Recorded.own_recorded (h : Recorded lan s)
    (hentry : espPktToTuple now s.table src dst spi = some (i, e)) (huse : e.inuse = true)
    (hlan : lan e.lIp = true) :
    (e.pair, e.tspi) ∈ recordPacket lan src dst e.tspi (keptByPacket (s.table i) e s.given) := by
  rw [mem_recordPacket]
  rcases espPktToTuple_shared h.sound hentry with ⟨_, hsame⟩ | ⟨_, hown, _, _⟩
  · obtain ⟨hinuse, hpair, htspi⟩ := Entry.view_eq_iff.mp hsame
    have hip : e.lIp = (s.table i).lIp := congrArg Prod.fst hpair
    right
    rw [keptByPacket, if_pos hpair, hpair, htspi]
    exact h.own i (hinuse ▸ huse) (hip ▸ hlan)
  · have hsrc : e.lIp = src := congrArg Prod.fst hown
    exact .inl ⟨hsrc ▸ hlan, by rw [hown]⟩

theorem Recorded.packet (h : Recorded lan s) :
    Recorded lan (step lan (.packet now src dst spi new) s) := by
  cases hentry : espPktToTuple now s.table src dst spi with
  | none => exact (step_packet_none h hentry).symm ▸ h
  | some found =>
    obtain ⟨i, e⟩ := found
    have hview := tableStep_packet_view hentry new
    have hself := hview i
    rw [if_pos rfl] at hself
    obtain ⟨huse', hpair', htspi'⟩ := Entry.view_eq_iff.mp hself
    refine h.change (step lan (.packet now src dst spi new) s) i
      (recordPacket lan src dst e.tspi (keptByPacket (s.table i) e s.given))
      (h.sound.step (.packet now src dst spi new)) ?_ ?_ ?_ ?_ ?_
    · intro j hji
      exact (hview j).trans (if_neg hji)
    · simp only [step, hentry]
    · intro record hmem
      rcases mem_recordPacket.mp hmem with ⟨_, rfl⟩ | hkept
      · cases hinuse : e.inuse with
        | true => exact .inr (.inl ⟨huse'.trans hinuse, htspi'⟩)
        | false => exact .inl ((h.sound.entry hentry).idle hinuse).2.2.1
      · by_cases hspi : (s.table i).inuse = true ∧ (s.table i).tspi = record.2
        · obtain ⟨hinuse, htspi⟩ := espPktToTuple_keeps h.sound hentry hspi.1
          exact .inr (.inl ⟨huse'.trans hinuse, htspi'.trans (htspi.trans hspi.2)⟩)
        · exact .inr (.inr ⟨(mem_keptByPacket hkept).1, fun huse heq => hspi ⟨huse, heq⟩⟩)
    · intro j hji huse record hmem hspi
      refine mem_recordPacket.mpr (.inr ?_)
      rcases espPktToTuple_shared h.sound hentry with ⟨_, hsame⟩ | ⟨_, _, hinuse, _⟩
      · rw [keptByPacket, if_pos (Entry.view_eq_iff.mp hsame).2.1]
        exact hmem
      · refine keptByPacket_mem hmem ?_
        rw [hspi, ((h.sound j).live huse).2.1, ((h.sound.entry hentry).live hinuse).2.1]
        omega
    · intro huse hlan
      have hip : ((step lan (.packet now src dst spi new) s).table i).lIp = e.lIp :=
        congrArg Prod.fst hpair'
      have hown := h.own_recorded hentry (huse'.symm.trans huse) (hip ▸ hlan)
      have hrecord : (((step lan (.packet now src dst spi new) s).table i).pair,
          ((step lan (.packet now src dst spi new) s).table i).tspi) = (e.pair, e.tspi) :=
        Prod.ext hpair' htspi'
      rw [hrecord]
      exact hown

private theorem espRefreshCt_view (now : Nat) (e : Entry) :
    e.inuse = true ∧ espRefreshCt now e = .zero ∨ (espRefreshCt now e).view = e.view := by
  unfold espRefreshCt
  split
  · exact .inr rfl
  split
  · cases huse : e.inuse with
    | true => exact .inl ⟨rfl, by simp [espFreeEntry]⟩
    | false => exact .inr (by simp [espFreeEntry, huse, Entry.view, Entry.pair])
  · exact .inr rfl

private theorem tableStep_timeout_view (now i : Nat) (t : Table) :
    (∀ j ≠ i, (tableStep (.timeout now i) t j).view = (t j).view) ∧
      ((t i).inuse = true ∧ tableStep (.timeout now i) t i = .zero ∨
        (tableStep (.timeout now i) t i).view = (t i).view) := by
  simp only [tableStep]
  split
  · rw [update_self]
    refine ⟨?_, espRefreshCt_view now (t i)⟩
    intro j hji
    rw [update_of_ne hji]
  · exact ⟨fun _ _ => rfl, .inr rfl⟩

theorem Recorded.timeout (h : Recorded lan s)
    (now i : Nat) : Recorded lan (step lan (.timeout now i) s) := by
  obtain ⟨hothers, hself⟩ := tableStep_timeout_view now i s.table
  refine h.change (step lan (.timeout now i) s) i
    (keptByTimeout (s.table i) (tableStep (.timeout now i) s.table i) s.given)
    (h.sound.step (.timeout now i)) hothers rfl ?_ ?_ ?_
  · intro record hmem
    rcases hself with ⟨huse, hzero⟩ | hsame
    · rw [keptByTimeout, huse, hzero] at hmem
      obtain ⟨hold, hne⟩ := mem_retire.mp hmem
      exact .inr (.inr ⟨hold, fun _ heq => hne heq.symm⟩)
    obtain ⟨huse, _, htspi⟩ := Entry.view_eq_iff.mp hsame
    have hold : record ∈ s.given := by
      simpa [keptByTimeout, huse] using hmem
    by_cases hspi : (s.table i).inuse = true ∧ (s.table i).tspi = record.2
    · exact .inr (.inl ⟨huse.trans hspi.1, htspi.trans hspi.2⟩)
    · exact .inr (.inr ⟨hold, fun hinuse heq => hspi ⟨hinuse, heq⟩⟩)
  · intro j hji huse record hmem hspi
    unfold keptByTimeout
    split
    next hfreed =>
      refine mem_retire.mpr ⟨hmem, ?_⟩
      rw [hspi]
      exact h.sound.tspi_ne huse (and_eq_true_iff.mp hfreed).1 hji
    · exact hmem
  · intro huse hlan
    rcases hself with ⟨_, hzero⟩ | hsame
    · have hinuse : (tableStep (.timeout now i) s.table i).inuse = true := huse
      rw [hzero] at hinuse
      cases hinuse
    obtain ⟨hinuse, hpair, htspi⟩ := Entry.view_eq_iff.mp hsame
    have hip : (tableStep (.timeout now i) s.table i).lIp = (s.table i).lIp :=
      congrArg Prod.fst hpair
    have hown := h.own i (hinuse ▸ huse) (hip ▸ hlan)
    simp only [step, keptByTimeout, hpair, htspi, hinuse, Bool.and_not_self,
      Bool.false_eq_true, if_false]
    exact hown

/-! ### One packet -/

private theorem hasEntry_congr {t' : Table} (hview : ∀ j, (t' j).view = (t j).view) (p : Pair) :
    hasEntry t' p = true ↔ hasEntry t p = true := by
  rw [hasEntry_iff, hasEntry_iff]
  refine exists_congr (fun j => and_congr_right (fun _ => ?_))
  obtain ⟨huse, hpair, _⟩ := Entry.view_eq_iff.mp (hview j)
  rw [huse, hpair]

theorem Recorded.rival_iff (h : Recorded lan s) (hapart : Apart s) (i : Nat) (p : Pair) :
    Rival lan s i p ↔ ∃ q, q ≠ p ∧ (q, (s.table i).tspi) ∈ s.given := by
  unfold Rival
  split
  next hlan =>
    have hown := h.own i hlan.1 hlan.2
    constructor
    · intro hne
      exact ⟨(s.table i).pair, hne, hown⟩
    · rintro ⟨q, hne, hmem⟩ heq
      exact hne ((hapart q _ _ hmem hown).trans heq)
  · exact Iff.rfl

/-- Only the record of the packet itself can meet one of another pair. -/
theorem apart_packet_iff (hapart : Apart s)
    (hentry : espPktToTuple now s.table src dst spi = some (i, e)) :
    Apart (step lan (.packet now src dst spi new) s) ↔
      (lan src = true →
        hasEntry (step lan (.packet now src dst spi new) s).table (src, dst) = true →
        ∀ q, (q, e.tspi) ∈ keptByPacket (s.table i) e s.given →
          hasEntry (step lan (.packet now src dst spi new) s).table q = true → q = (src, dst)) := by
  constructor
  · intro hafter hlan hlive q hkept hother
    exact hafter q (src, dst) e.tspi
      ((mem_given_packet hentry).mpr ⟨.inr hkept, hother⟩)
      ((mem_given_packet hentry).mpr ⟨.inl ⟨hlan, rfl⟩, hlive⟩)
  intro hrule p q tspi hp hq
  obtain ⟨hp, hplive⟩ := (mem_given_packet hentry).mp hp
  obtain ⟨hq, hqlive⟩ := (mem_given_packet hentry).mp hq
  rcases hp with ⟨hlan, hp⟩ | hp
  · cases hp
    rcases hq with ⟨_, hq⟩ | hq
    · cases hq
      rfl
    · exact (hrule hlan hplive q hq hqlive).symm
  · rcases hq with ⟨hlan, hq⟩ | hq
    · cases hq
      exact hrule hlan hqlive p hp hplive
    · exact hapart p q tspi (mem_keptByPacket hp).1 (mem_keptByPacket hq).1

section

variable (h : Recorded lan s) (hapart : Apart s)
include h hapart

theorem Recorded.own_slot (hlan : lan src = true) (hpair : e.pair = (src, dst))
    (hslot : (s.table i).lIp = src ∧ (s.table i).inuse = true ∧ e.tspi = (s.table i).tspi ∨
      (s.table i).inuse = false ∧ i < maxPorts ∧ e.tspi = i + tempSpiStart) {q : Pair}
    (hkept : (q, e.tspi) ∈ keptByPacket (s.table i) e s.given) : q = (src, dst) := by
  obtain ⟨hold, hretired⟩ := mem_keptByPacket hkept
  rcases hslot with ⟨hsrc, huse, htspi⟩ | ⟨hfree, _, htspi⟩
  · by_cases hsame : e.pair = (s.table i).pair
    · have hown := h.own i huse (hsrc ▸ hlan)
      rw [← htspi, ← hsame, hpair] at hown
      exact hapart q (src, dst) e.tspi hold hown
    · exact absurd rfl (hretired hsame)
  · -- a record with the SPI of a free slot would be one of another slot
    rcases h.slots _ hold with hzero | ⟨j, huse, hspi⟩
    · rw [htspi, tempSpiStart] at hzero
      omega
    have hj := ((h.sound j).live huse).2.1
    have hji : j = i := by omega
    rw [hji, hfree] at huse
    cases huse

section

variable (hentry : espPktToTuple now s.table src dst spi = some (i, e))
include hentry

/-- The packet goes to a slot that it shares: nothing is seen to change, so that the
records tell whether another tunnel has the slot. -/
theorem separate_shared_iff
    (hshared : sharedSlot s.table src spi = some i) (hsame : e.view = (s.table i).view) :
    Apart (step lan (.packet now src dst spi new) s) ∧
        Attributed lan (.packet now src dst spi new) s ↔
      Separate lan (.packet now src dst spi new) s := by
  have hview := tableStep_packet_view hentry new
  have hall (j : Nat) :
      (tableStep (.packet now src dst spi new) s.table j).view = (s.table j).view := by
    rw [hview j]
    split
    next hji =>
      rw [hsame, hji]
    · rfl
  obtain ⟨hinuse, hpair, htspi⟩ := Entry.view_eq_iff.mp hsame
  have hlip : e.lIp = (s.table i).lIp := congrArg Prod.fst hpair
  have hrip : e.rIp = (s.table i).rIp := congrArg Prod.snd hpair
  rw [apart_packet_iff hapart hentry]
  simp only [step, hasEntry_congr hall, Attributed, Separate, hentry, hshared,
    some_inj, Prod.mk.injEq, keptByPacket, if_pos hpair, htspi, h.rival_iff hapart]
  constructor
  · rintro ⟨hrecords, hwan⟩ j rfl
    constructor
    · rintro hlan hlive ⟨q, hne, hmem⟩
      exact hne (hrecords hlan hlive q hmem (h.live _ hmem))
    · intro hlan huse hhost
      rw [← hrip]
      exact hwan hlan i e ⟨rfl, rfl⟩ (hinuse.trans huse) (hlip ▸ hhost)
  · intro hseparate
    obtain ⟨hrival, hwan⟩ := hseparate i rfl
    constructor
    · intro hlan hlive q hmem _
      by_contra hne
      exact hrival hlan hlive ⟨q, hne, hmem⟩
    · rintro hlan j e' ⟨rfl, rfl⟩ huse hhost
      rw [hrip]
      exact hwan hlan (hinuse ▸ huse) (hlip ▸ hhost)

private theorem apart_own_slot (hpair : e.pair = (src, dst))
    (hslot : (s.table i).lIp = src ∧ (s.table i).inuse = true ∧ e.tspi = (s.table i).tspi ∨
      (s.table i).inuse = false ∧ i < maxPorts ∧ e.tspi = i + tempSpiStart) :
    Apart (step lan (.packet now src dst spi new) s) ∧
      Attributed lan (.packet now src dst spi new) s := by
  rw [apart_packet_iff hapart hentry]
  constructor
  · intro hlan _ q hkept _
    exact h.own_slot hapart hlan hpair hslot hkept
  intro hlan j e' hsome _ hhost
  rw [hentry, some_inj] at hsome
  obtain ⟨rfl, rfl⟩ := hsome
  have hsrc : e.lIp = src := congrArg Prod.fst hpair
  rw [hsrc, hlan] at hhost
  cases hhost

end

private theorem separate_packet_iff :
    Apart (step lan (.packet now src dst spi new) s) ∧
        Attributed lan (.packet now src dst spi new) s ↔
      Separate lan (.packet now src dst spi new) s := by
  cases hentry : espPktToTuple now s.table src dst spi with
  | none =>
    refine iff_of_true ⟨(step_packet_none h hentry).symm ▸ hapart, ?_⟩ ?_
    · intro _ i e hsome
      rw [hentry] at hsome
      cases hsome
    · intro i hshared
      obtain ⟨e, hsome⟩ := espPktToTuple_of_shared hshared now dst
      rw [hentry] at hsome
      cases hsome
  | some found =>
    rcases espPktToTuple_shared h.sound hentry with
      ⟨hshared, hsame⟩ | ⟨hshared, hpair, -, hslot⟩
    · exact separate_shared_iff h hapart hentry hshared hsame
    apply iff_of_true (apart_own_slot h hapart hentry hpair hslot)
    intro j hsome
    rw [hshared] at hsome
    cases hsome

end

/-! ### Every run -/

theorem apart_timeout (hapart : Apart s) (now i : Nat) : Apart (step lan (.timeout now i) s) := by
  have hkept : ∀ record ∈ (step lan (.timeout now i) s).given, record ∈ s.given := by
    intro record hmem
    have hrest := (mem_filter.mp hmem).1
    simp only [keptByTimeout] at hrest
    split at hrest
    · exact (mem_retire.mp hrest).1
    · exact hrest
  intro p q tspi hp hq
  exact hapart p q tspi (hkept _ hp) (hkept _ hq)

private theorem separate_iff (h : Recorded lan s) (hapart : Apart s) (event : Event) :
    Apart (step lan event s) ∧ Attributed lan event s ↔ Separate lan event s := by
  cases event with
  | packet now src dst spi new => exact separate_packet_iff h hapart
  | timeout now i => exact iff_of_true ⟨apart_timeout hapart now i, trivial⟩ trivial

private theorem recorded_empty (lan : Nat → Bool) : Recorded lan .empty :=
  ⟨sound_empty, by simp [State.empty], by simp [State.empty], by rintro i ⟨⟩⟩

theorem Recorded.step (h : Recorded lan s) (event : Event) : Recorded lan (step lan event s) := by
  cases event with
  | packet now src dst spi new => exact h.packet
  | timeout now i => exact h.timeout now i

/-- In every run the translated SPIs of pairs with entries stay different and packets from the WAN
are attributed to pairs of their sender exactly if no packet shares a slot with another pair. -/
theorem esp_tunnels_apart_iff (lan : Nat → Bool) (events : List Event) :
    Allowed (step lan) (fun event s => Apart (step lan event s) ∧ Attributed lan event s)
        events .empty ↔
      Allowed (step lan) (Separate lan) events .empty := by
  refine Allowed.iff_of_invariant (P := fun s => Recorded lan s ∧ Apart s) ?_ ?_
    ⟨recorded_empty lan, by simp [Apart, State.empty]⟩
  · rintro event s ⟨h, hapart⟩
    exact separate_iff h hapart event
  · rintro event s ⟨h, _⟩ ⟨hapart, _⟩
    exact ⟨h.step event, hapart⟩

def twoTunnels : List Event :=
  [.packet 0 3232235778 16843009 100 (some 1), .packet 0 3232235779 33686018 200 (some 2)]

/-- The second host sends with the SPI of the first; a stranger sends with it as well. -/
theorem equal_spis_not_apart :
    ¬Apart (run (step lanByte) (twoTunnels ++ [.packet 0 3232235779 33686018 100 none]) .empty) ∧
    ¬Attributed lanByte (.packet 0 50529027 67372036 100 none)
      (run (step lanByte) twoTunnels .empty) := by
  constructor
  · intro hapart
    have hgiven : (run (step lanByte)
        (twoTunnels ++ [.packet 0 3232235779 33686018 100 none]) .empty).given =
      [((3232235779, 33686018), 1500), ((3232235779, 33686018), 1501),
        ((3232235778, 16843009), 1500)] := rfl
    have heq := hapart (3232235779, 33686018) (3232235778, 16843009) 1500
      (by simp [hgiven]) (by simp [hgiven])
    simp at heq
  · intro hattributed
    have hsource := hattributed rfl 0 _ rfl rfl rfl
    cases hsource

end EchoLife.Netfilter.Esp
