import EchoLife.Base.Run
import EchoLife.Base.Slots
import EchoLife.Board.Jiffies

/-!
The table of ESP tunnels. ESP has no ports, so connection tracking is given the translated SPI in
their place: the slot of the table that the packet belongs to. A packet is looked up by its SPI,
then by its addresses, and gets a new slot if neither is known. Each slot has a timer that
refreshes the connection stored in it and frees the slot when no packet came for a time.
-/

namespace EchoLife.Netfilter.Esp

open Bool Function Run Slots

/-! ### The table -/

def maxPorts : Nat := 64
def tempSpiStart : Nat := 1500
def espRefTmout : Nat := 30 * hz
def espConnTmout : Nat := 360 * hz
def espTmoutCount : Nat := 12

/-- `struct _esp_table`; the timer is given by the time at which it expires, if it is
pending. -/
structure Entry where
  lSpi : Nat
  rSpi : Nat
  lIp : Nat
  rIp : Nat
  tspi : Nat
  ct : Option Nat
  timer : Option Nat
  pktRcvd : Nat
  ntimeouts : Nat
  inuse : Bool
  deriving DecidableEq

def Entry.zero : Entry :=
  ⟨0, 0, 0, 0, 0, none, none, 0, 0, false⟩

abbrev Table := Nat → Entry

def espFreeEntry (e : Entry) : Entry :=
  if e.inuse then .zero else e

section
variable (now : Nat) (e : Entry)

/-- The end of `esp_refresh_ct`: without a connection the timer is not started again. -/
def rearm (e : Entry) : Entry :=
  { e with timer := if e.ct.isSome then some (now + espRefTmout) else none }

def espRefreshCt (e : Entry) : Entry :=
  if e.pktRcvd ≠ 0 then rearm now { e with pktRcvd := 0, ntimeouts := 0 }
  else if espTmoutCount ≤ e.ntimeouts + 1 then
    espFreeEntry { e with ntimeouts := e.ntimeouts + 1, timer := none }
  else rearm now { e with ntimeouts := e.ntimeouts + 1 }

def allocEspEntry (t : Table) : Option Nat :=
  firstSlot maxPorts (!·.inuse) t

/-- The new entry in slot `idx`, with what `esp_pkt_to_tuple` puts into it. -/
def freshEntry (idx src dst spi : Nat) : Entry :=
  { Entry.zero with
    lSpi := spi
    lIp := src
    rIp := dst
    tspi := idx + tempSpiStart
    timer := some (now + espRefTmout)
    inuse := true }

def lanByte (ip : Nat) : Bool :=
  ip / 16777216 % 256 == 192

def Entry.fromHost (e : Entry) (src : Nat) : Bool :=
  e.lIp == src && lanByte src

def searchEspEntryByIp (t : Table) (src : Nat) : Option Nat :=
  firstSlot maxPorts (fun e => e.fromHost src || e.rIp == src && e.rSpi == 0) t

/-- What `search_esp_entry_by_ip` writes into the entry that it finds. -/
def Entry.updateSpi (e : Entry) (src dst spi : Nat) : Entry :=
  if e.fromHost src then
    { e with lSpi := spi, rIp := dst, rSpi := if e.rIp = dst then e.rSpi else 0 }
  else { e with rSpi := spi }

def searchEspEntryBySpi (t : Table) (spi : Nat) : Option Nat :=
  firstSlot maxPorts (fun e => e.lSpi == spi || e.rSpi == spi) t

/-- What `search_esp_entry_by_spi` writes into the entry that it finds. -/
def Entry.learnSpi (e : Entry) (spi src : Nat) : Entry :=
  if e.lSpi = spi ∧ e.rIp = src then { e with rSpi := spi } else e

/-- `esp_pkt_to_tuple`: the slot of the packet, and its entry before the packet is
counted; none if the table is full. -/
def espPktToTuple (t : Table) (src dst spi : Nat) : Option (Nat × Entry) :=
  match searchEspEntryBySpi t spi with
  | some i => some (i, (t i).learnSpi spi src)
  | none =>
    match searchEspEntryByIp t src with
    | some i => some (i, (t i).updateSpi src dst spi)
    | none => (allocEspEntry t).map (fun i => (i, freshEntry now i src dst spi))

def Entry.count (e : Entry) : Entry :=
  { e with pktRcvd := e.pktRcvd + 1 }

def espNew (t : Table) (spi ct : Nat) : Table :=
  match searchEspEntryBySpi t spi with
  | some i => update t i { (t i).learnSpi spi 0 with ct := some ct }
  | none => t

/-! ### Events -/

inductive Event where
  /-- A packet, and the connection that is made for it if it does not belong to one. -/
  | packet (now src dst spi : Nat) (new : Option Nat)
  | timeout (now index : Nat)

def newConnection (t : Table) (spi : Nat) : Option Nat → Table
  | some ct => espNew t spi ct
  | none => t

def tableStep : Event → Table → Table
  | .packet now src dst spi new, t =>
    match espPktToTuple now t src dst spi with
    | some (i, e) => newConnection (update t i e.count) spi new
    | none => t
  | .timeout now i, t =>
    if (t i).timer.isSome then update t i (espRefreshCt now (t i)) else t

def Table.empty : Table :=
  fun _ => .zero

/-! ### What one event can do -/

/-- The parts of an entry that a packet for another tunnel and a new connection leave
alone. -/
structure SameTunnel (e e' : Entry) : Prop where
  lIp : e'.lIp = e.lIp
  rIp : e'.rIp = e.rIp
  tspi : e'.tspi = e.tspi
  timer : e'.timer = e.timer
  ntimeouts : e'.ntimeouts = e.ntimeouts
  inuse : e'.inuse = e.inuse

theorem SameTunnel.refl : SameTunnel e e :=
  ⟨rfl, rfl, rfl, rfl, rfl, rfl⟩

theorem learnSpi_same (spi src : Nat) : SameTunnel e (e.learnSpi spi src) := by
  unfold Entry.learnSpi
  split
  · exact ⟨rfl, rfl, rfl, rfl, rfl, rfl⟩
  · exact .refl e

theorem count_same : SameTunnel e e.count :=
  ⟨rfl, rfl, rfl, rfl, rfl, rfl⟩

end

theorem newConnection_same (t : Table) (spi : Nat) (new : Option Nat) (i : Nat) :
    SameTunnel (t i) (newConnection t spi new i) ∧
      (newConnection t spi new i).pktRcvd = (t i).pktRcvd ∧
      ((t i).ct.isSome = true → (newConnection t spi new i).ct.isSome = true) := by
  cases new with
  | none => exact ⟨.refl _, rfl, id⟩
  | some ct =>
    simp only [newConnection, espNew]
    cases searchEspEntryBySpi t spi with
    | none => exact ⟨.refl _, rfl, id⟩
    | some j =>
      dsimp only
      rcases eq_or_ne i j with rfl | hij
      · rw [update_self]
        have hlearn := learnSpi_same (t i) spi 0
        refine ⟨{ hlearn with }, ?_, fun _ => rfl⟩
        unfold Entry.learnSpi
        split
        · rfl
        · rfl
      · rw [update_of_ne hij]
        exact ⟨.refl _, rfl, id⟩

variable {e : Entry} {i : Nat} {t : Table}

/-- A packet is given a slot by its SPI, by the address of its host, by that of its
peer, or a new one. -/
theorem espPktToTuple_cases {now src dst spi : Nat}
    (h : espPktToTuple now t src dst spi = some (i, e)) :
    i < maxPorts ∧
      (searchEspEntryBySpi t spi = some i ∧ e = (t i).learnSpi spi src ∨
        searchEspEntryBySpi t spi = none ∧
          (searchEspEntryByIp t src = some i ∧ e = (t i).updateSpi src dst spi ∨
            searchEspEntryByIp t src = none ∧ (t i).inuse = false ∧
              e = freshEntry now i src dst spi)) := by
  unfold espPktToTuple at h
  cases hspi : searchEspEntryBySpi t spi with
  | some k =>
    rw [hspi] at h
    cases h
    exact ⟨firstSlot_lt hspi, .inl ⟨rfl, rfl⟩⟩
  | none =>
    rw [hspi] at h
    cases hip : searchEspEntryByIp t src with
    | some k =>
      rw [hip] at h
      cases h
      exact ⟨firstSlot_lt hip, .inr ⟨rfl, .inl ⟨rfl, rfl⟩⟩⟩
    | none =>
      rw [hip] at h
      obtain ⟨k, hk, hpair⟩ := Option.map_eq_some_iff.mp h
      cases hpair
      exact ⟨firstSlot_lt hk, .inr ⟨rfl, .inr ⟨rfl, by simpa using firstSlot_hit hk, rfl⟩⟩⟩

/-! ### What holds of every table -/

/-- A free entry has no addresses, no translated SPI and no timer; an entry in use has
the SPI of its slot and has not been idle for too long. -/
structure EntrySound (i : Nat) (e : Entry) : Prop where
  idle : e.inuse = false → e.lIp = 0 ∧ e.rIp = 0 ∧ e.tspi = 0 ∧ e.timer = none
  live : e.inuse = true → i < maxPorts ∧ e.tspi = i + tempSpiStart ∧ e.ntimeouts < espTmoutCount

def TableSound (t : Table) : Prop :=
  ∀ i, EntrySound i (t i)

theorem SameTunnel.sound {e' : Entry} (h : SameTunnel e e') (hsound : EntrySound i e) :
    EntrySound i e' := by
  constructor
  · rw [h.inuse, h.lIp, h.rIp, h.tspi, h.timer]
    exact hsound.idle
  · rw [h.inuse, h.tspi, h.ntimeouts]
    exact hsound.live

theorem TableSound.update (h : TableSound t) (he : EntrySound i e) : TableSound (update t i e) := by
  intro j
  rcases eq_or_ne j i with rfl | hji
  · rw [update_self]
    exact he
  · rw [update_of_ne hji]
    exact h j

theorem sound_zero (i : Nat) : EntrySound i .zero :=
  ⟨fun _ => ⟨rfl, rfl, rfl, rfl⟩, by rintro ⟨⟩⟩

private theorem fromHost_inuse {src : Nat} (h : EntrySound i e) (hhost : e.fromHost src = true) :
    e.lIp = src ∧ e.inuse = true := by
  obtain ⟨hip, hbyte⟩ := and_eq_true_iff.mp hhost
  have hsrc : e.lIp = src := by simpa using hip
  refine ⟨hsrc, ?_⟩
  by_contra hidle
  have hzero := (h.idle (eq_false_of_not_eq_true hidle)).1
  rw [← hsrc, hzero] at hbyte
  cases hbyte

/-- A packet looked up by its addresses has the host's own entry, turned to its peer, or one whose
peer is the source. -/
theorem updateSpi_cases (h : EntrySound i e) (src dst spi : Nat) :
    e.lIp = src ∧ e.inuse = true ∧ e.fromHost src = true ∧
        (e.updateSpi src dst spi).lIp = src ∧ (e.updateSpi src dst spi).rIp = dst ∧
        (e.updateSpi src dst spi).tspi = e.tspi ∧
        (e.updateSpi src dst spi).timer = e.timer ∧
        (e.updateSpi src dst spi).ntimeouts = e.ntimeouts ∧
        (e.updateSpi src dst spi).inuse = true ∨
      e.fromHost src = false ∧ SameTunnel e (e.updateSpi src dst spi) := by
  unfold Entry.updateSpi
  cases hhost : e.fromHost src with
  | true =>
    obtain ⟨hsrc, huse⟩ := fromHost_inuse h hhost
    exact .inl ⟨hsrc, huse, rfl, hsrc, rfl, rfl, rfl, rfl, huse⟩
  | false => exact .inr ⟨rfl, ⟨rfl, rfl, rfl, rfl, rfl, rfl⟩⟩

private theorem fresh_sound (now src dst spi : Nat) (hi : i < maxPorts) :
    EntrySound i (freshEntry now i src dst spi) :=
  ⟨by rintro ⟨⟩, fun _ => ⟨hi, rfl, Nat.succ_pos _⟩⟩

theorem TableSound.entry (h : TableSound t) {now src dst spi : Nat}
    (hentry : espPktToTuple now t src dst spi = some (i, e)) : EntrySound i e := by
  obtain ⟨hi, ⟨_, rfl⟩ | ⟨_, ⟨_, rfl⟩ | ⟨_, _, rfl⟩⟩⟩ := espPktToTuple_cases hentry
  · exact (learnSpi_same _ spi src).sound (h i)
  · rcases updateSpi_cases (h i) src dst spi with
      ⟨_, huse, _, _, _, htspi, _, hcount, huse'⟩ | ⟨_, hsame⟩
    · refine ⟨fun hidle => absurd huse' (by rw [hidle]; simp), fun _ => ?_⟩
      rw [htspi, hcount]
      exact (h i).live huse
    · exact hsame.sound (h i)
  · exact fresh_sound now src dst spi hi

theorem refresh_sound (h : EntrySound i e) (huse : e.inuse = true) (now : Nat) :
    EntrySound i (espRefreshCt now e) := by
  have hlive := h.live huse
  unfold espRefreshCt
  split
  · refine ⟨fun hidle => ?_, fun _ => ⟨hlive.1, hlive.2.1, Nat.succ_pos _⟩⟩
    rw [rearm, huse] at hidle
    cases hidle
  split
  · rw [espFreeEntry, if_pos huse]
    exact sound_zero i
  rename_i hyoung
  refine ⟨fun hidle => ?_, fun _ => ⟨hlive.1, hlive.2.1, Nat.lt_of_not_le hyoung⟩⟩
  rw [rearm, huse] at hidle
  cases hidle

theorem EntrySound.inuse_of_timer (h : EntrySound i e) (hpending : e.timer.isSome = true) :
    e.inuse = true := by
  by_contra hidle
  rw [(h.idle (eq_false_of_not_eq_true hidle)).2.2.2] at hpending
  cases hpending

theorem TableSound.step (h : TableSound t) (event : Event) : TableSound (tableStep event t) := by
  cases event with
  | packet now src dst spi new =>
    simp only [tableStep]
    cases hentry : espPktToTuple now t src dst spi with
    | none => exact h
    | some found =>
      obtain ⟨i, e⟩ := found
      have hcounted := h.update ((count_same e).sound (h.entry hentry))
      intro j
      exact (newConnection_same _ spi new j).1.sound (hcounted j)
  | timeout now i =>
    simp only [tableStep]
    split
    next hpending =>
      exact h.update (refresh_sound (h i) ((h i).inuse_of_timer hpending) now)
    · exact h

theorem sound_empty : TableSound .empty :=
  sound_zero

end EchoLife.Netfilter.Esp
