import EchoLife.Netfilter.IpsecConnections

/-!
That remembered connections exist, step by step. Packets and the timers of entries keep
the lifetimes in order, whatever the interleaving; what can go wrong is that somebody
else destroys a connection, or that an ESP entry has lost its timer.
-/

namespace EchoLife.Netfilter.IpsecConnections

open Bool Function Option Run Slots

/-! ### Steps that destroy nothing -/

variable {i now c : Nat} {slot : Slot} {e : Esp.Entry}

theorem forall_update {α : Type*} {P : α → Prop} {t : Nat → α} (h : ∀ i, P (t i))
    {a : α} (ha : P a) (j : Nat) : P (update t i a j) := by
  rcases eq_or_ne j i with rfl | hji
  · rw [update_self]
    exact ha
  · rw [update_of_ne hji]
    exact h j

variable {conns : Conns} {esp : Bool} {s : State} {timeout extra : Nat} {event : Event}

/-- An entry may store a connection that was just given a long timeout, or cut. -/
theorem Guarded.store (h : Guarded (period esp) esp now conns slot) {k : Conn}
    (hk : conns c = some k) (hesp : k.esp = esp) (hlong : LongOrCut (period esp) timeout)
    (hextra : k.extra = timeout) (hlate : now + timeout < k.expires + hz) :
    Guarded (period esp) esp now conns { slot with ct := some c } := by
  refine ⟨h.timer, ?_⟩
  rintro d ⟨huse, hct⟩
  cases hct
  refine ⟨k, hk, hesp, ?_⟩
  intro hwhole expires htimer
  have hnear := (h.timer huse expires htimer).2
  have henough := hlong (hextra ▸ hwhole)
  omega

/-- Every timeout of UDP outlasts the period of an entry's timer, but the one that cuts. -/
theorem udpTimeout_long (seenReply : Bool) (sport dport : Nat) :
    LongOrCut (period false) (udpTimeout seenReply sport dport) := by
  intro hwhole
  unfold udpTimeout at hwhole ⊢
  split_ifs at hwhole ⊢
  · decide
  · exact absurd rfl hwhole
  · decide
  · decide

private theorem espTimeout_long (stream : Bool) : LongOrCut (period true) (espTimeout stream) := by
  intro _
  cases stream with
  | true => decide
  | false => decide

theorem Guarded.start (esp : Bool) (now : Nat) (conns : Conns) (inuse : Bool) :
    Guarded (period esp) esp now conns ⟨inuse, some (now + period esp), none⟩ := by
  constructor
  · intro _ expires htimer
    cases htimer
    omega
  · rintro c ⟨_, hct⟩
    cases hct

/-- The connections of a packet leave both tables guarded. -/
theorem Kept.resolved {s' : State} (h : Kept s)
    (hresolved : Resolved s s' esp timeout c) : Kept s' := by
  obtain ⟨hnow, hipsec, hesp, hconns, _, hfresh⟩ := hresolved
  constructor
  · intro i
    rw [hnow, hipsec]
    exact (h.ipsec i).extend (hconns false)
  · intro i
    rw [hnow, hesp]
    exact (h.esp i).extend (hconns true)
  · rw [hipsec]
    exact h.running
  · rw [hesp]
    exact h.sound
  · exact hfresh

theorem Kept.ipsecUpdate (h : Kept s) {e : Isakmp.Entry}
    (hguarded : Guarded (period false) false s.now s.conns (ipsecSlot e)) (hrunning : Running i e) :
    Kept { s with ipsec := update s.ipsec i e } := by
  refine { h with ipsec := ?_, running := ?_ }
  · exact forall_update (P := fun e => Guarded (period false) false s.now s.conns
      (ipsecSlot e)) h.ipsec hguarded
  intro j
  dsimp only
  rcases eq_or_ne j i with rfl | hji
  · rw [update_self]
    exact hrunning
  · rw [update_of_ne hji]
    exact h.running j

theorem Running.same {e e' : Isakmp.Entry} (h : Running i e)
    (huse : e'.inuse = e.inuse) (htimer : e'.timer = e.timer) : Running i e' :=
  ⟨huse ▸ h.slot, by rw [htimer, huse, h.timer]⟩

theorem Kept.isakmpOut (h : Kept s) (flow : Flow) (seenReply : Bool)
    (sport lanIp cookie : Nat) : Kept (isakmpOut s flow seenReply sport lanIp cookie) := by
  unfold IpsecConnections.isakmpOut
  have hlong := udpTimeout_long seenReply sport ipsecPort
  cases hresolve : resolve s false (udpTimeout seenReply sport ipsecPort) flow with
  | none => exact h
  | some found =>
    obtain ⟨s', c⟩ := found
    have hresolved := h.resolve_cases hlong hresolve
    have hkept := h.resolved hresolved
    obtain ⟨k, hk, hesp, hextra, hlate⟩ := hresolved.conn
    dsimp only
    rw [← hresolved.ipsecTable, ← hresolved.now]
    rw [← hresolved.now] at hlate
    unfold Isakmp.outbound
    cases hentry : Isakmp.outboundEntry s'.now s'.ipsec lanIp cookie c with
    | none =>
      simp only [map_none]
      split
      · exact h
      · exact hkept
    | some entry =>
      obtain ⟨i, e⟩ := entry
      obtain ⟨hi, ⟨_, rfl⟩ | ⟨_, ⟨_, rfl⟩ | ⟨_, _, rfl⟩⟩⟩ :=
        Isakmp.outboundEntry_cases hentry
      · exact hkept.ipsecUpdate (hkept.ipsec i) ((hkept.running i).same rfl rfl)
      · exact hkept.ipsecUpdate
          ((hkept.ipsec i).store hk hesp hlong hextra hlate)
          ((hkept.running i).same rfl rfl)
      · exact hkept.ipsecUpdate
          ((Guarded.start false s'.now s'.conns true).store hk hesp hlong hextra hlate)
          ⟨fun _ => hi, rfl⟩

theorem Kept.isakmpIn (h : Kept s) (flow : Flow) (seenReply : Bool) (dport cookie : Nat) :
    Kept (isakmpIn s flow seenReply dport cookie) := by
  unfold IpsecConnections.isakmpIn
  cases hresolve : resolve s false (udpTimeout seenReply ipsecPort dport) flow with
  | none => exact h
  | some found =>
    obtain ⟨s', c⟩ := found
    have hresolved := h.resolve_cases (udpTimeout_long seenReply ipsecPort dport) hresolve
    have hkept := h.resolved hresolved
    rw [← hresolved.ipsecTable]
    unfold Isakmp.inbound
    cases Isakmp.searchIpsecEntryByCookie s'.ipsec cookie with
    | none => exact hkept
    | some i =>
      exact hkept.ipsecUpdate (hkept.ipsec i) ((hkept.running i).same rfl rfl)

private theorem espPktToTuple_slot {src dst spi : Nat} {t : Esp.Table}
    (hentry : Esp.espPktToTuple now t src dst spi = some (i, e)) :
    espSlot e = espSlot (t i) ∨ espSlot e = ⟨true, some (now + period true), none⟩ := by
  obtain ⟨_, ⟨_, rfl⟩ | ⟨_, ⟨_, rfl⟩ | ⟨_, _, rfl⟩⟩⟩ := Esp.espPktToTuple_cases hentry
  · left
    unfold Esp.Entry.learnSpi
    split
    · rfl
    · rfl
  · left
    unfold Esp.Entry.updateSpi
    split
    · rfl
    · rfl
  · exact .inr rfl

private theorem newConnection_slot (t : Esp.Table) (spi : Nat) (new : Option Nat) (i : Nat) :
    espSlot (Esp.newConnection t spi new i) = espSlot (t i) ∨
      ∃ c, new = some c ∧
        espSlot (Esp.newConnection t spi new i) = { espSlot (t i) with ct := some c } := by
  cases new with
  | none => exact .inl rfl
  | some c =>
    simp only [Esp.newConnection, Esp.espNew]
    cases Esp.searchEspEntryBySpi t spi with
    | none => exact .inl rfl
    | some j =>
      dsimp only
      rcases eq_or_ne i j with rfl | hij
      · rw [update_self]
        right
        refine ⟨c, rfl, ?_⟩
        unfold Esp.Entry.learnSpi
        split
        · rfl
        · rfl
      · rw [update_of_ne hij]
        exact .inl rfl

theorem Kept.espUpdate (h : Kept s)
    (hguarded : Guarded (period true) true s.now s.conns (espSlot e))
    (hsound : Esp.EntrySound i e) : Kept { s with esp := update s.esp i e } := by
  refine { h with esp := ?_, sound := h.sound.update hsound }
  exact forall_update (P := fun e => Guarded (period true) true s.now s.conns (espSlot e))
    h.esp hguarded

theorem Kept.espCounted (h : Kept s) {src dst spi : Nat}
    (hentry : Esp.espPktToTuple s.now s.esp src dst spi = some (i, e)) :
    Kept { s with esp := update s.esp i e.count } := by
  refine h.espUpdate ?_ ((Esp.count_same e).sound (h.sound.entry hentry))
  change Guarded (period true) true s.now s.conns (espSlot e)
  rcases espPktToTuple_slot hentry with hsame | hnew
  · rw [hsame]
    exact h.esp i
  · rw [hnew]
    exact .start true s.now s.conns true

theorem Kept.espPacket (h : Kept s) (flow : Flow) (stream : Bool) (src dst spi : Nat) :
    Kept (espPacket s flow stream src dst spi) := by
  unfold IpsecConnections.espPacket
  cases hentry : Esp.espPktToTuple s.now s.esp src dst spi with
  | none => exact h
  | some entry =>
    obtain ⟨i, e⟩ := entry
    cases hresolve : resolve s true (espTimeout stream) flow with
    | none => exact h.espCounted hentry
    | some found =>
      obtain ⟨s', c⟩ := found
      have hresolved := h.resolve_cases (espTimeout_long stream) hresolve
      obtain ⟨k, hk, hesp, hextra, hlate⟩ := hresolved.conn
      rw [← hresolved.now, ← hresolved.espTable] at hentry
      rw [← hresolved.now] at hlate
      rw [← hresolved.espTable]
      have hkept := (h.resolved hresolved).espCounted hentry
      refine { hkept with esp := ?_, sound := ?_ }
      · intro j
        rcases newConnection_slot (update s'.esp i e.count) spi
            (if flow.isFresh then some c else none) j with hsame | ⟨d, hnew, hstored⟩
        · rw [hsame]
          exact hkept.esp j
        have hd : d = c := by
          split at hnew
          · exact (some_inj.mp hnew).symm
          · cases hnew
        rw [hstored, hd]
        exact (hkept.esp j).store hk hesp (espTimeout_long stream) hextra hlate
      · intro j
        exact (Esp.newConnection_same _ spi _ j).1.sound (hkept.sound j)

/-! ### Timers of entries -/

theorem due_iff (now : Nat) (timer : Option Nat) :
    due now timer = true ↔ ∃ expires, timer = some expires ∧ expires ≤ now := by
  cases timer with
  | none => simp [due]
  | some expires => simp [due]

/-- A timer that extends the connection of its entry by more than its own period. -/
theorem Guarded.refresh
    (h : Guarded (period esp) esp now conns slot) (hlong : period esp + hz ≤ extra) :
    Guarded (period esp) esp now (refreshStored conns now extra slot.ct)
      { slot with timer := some (now + period esp) } := by
  constructor
  · intro _ expires htimer
    cases htimer
    omega
  rintro c ⟨huse, hct⟩
  obtain ⟨k, hk, hesp, _⟩ := h.conn c ⟨huse, hct⟩
  dsimp only at hct
  refine ⟨k.refreshAcct now extra, ?_, by simpa using hesp, ?_⟩
  · simp only [refreshStored, hct, hk, update_self]
  intro _ expires htimer
  cases htimer
  have hlate := refreshAcct_expires k now extra
  omega

/-- A refresh of one table's connection does not hurt the other table. -/
theorem Kept.refreshStored (h : Kept s) (hlong : period esp + hz ≤ extra)
    {ct : Option Nat} (hkind : ∀ c, ct = some c → ∃ k, s.conns c = some k ∧ k.esp = esp) :
    Kept { s with conns := refreshStored s.conns s.now extra ct } := by
  have hextends : ∀ kind, Extends (period kind) kind s.now s.conns
      (IpsecConnections.refreshStored s.conns s.now extra ct) := by
    intro kind
    refine refreshStored_extends s.now extra ?_
    intro c k hct hk hesp
    obtain ⟨k', hk', hesp'⟩ := hkind c hct
    obtain rfl := some_inj.mp (hk.symm.trans hk')
    rw [← hesp, hesp']
    exact fun _ => hlong
  refine ⟨fun i => (h.ipsec i).extend (hextends false),
    fun i => (h.esp i).extend (hextends true), h.running, h.sound, ?_⟩
  intro c hc
  have hnone := h.fresh c hc
  unfold IpsecConnections.refreshStored
  cases ct with
  | none => exact hnone
  | some d =>
    obtain ⟨k, hk, _⟩ := hkind d rfl
    have hne : c ≠ d := by
      rintro rfl
      rw [hk] at hnone
      cases hnone
    simp only [hk]
    rw [update_of_ne hne]
    exact hnone

theorem Guarded.idle {period : Nat} (hidle : slot.inuse = false) :
    Guarded period esp now conns slot := by
  constructor
  · intro huse
    rw [hidle] at huse
    cases huse
  · rintro c ⟨huse, _⟩
    rw [hidle] at huse
    cases huse

private theorem ipsecRefreshCt_slot {e : Isakmp.Entry} (huse : e.inuse = true) (now : Nat) :
    Isakmp.ipsecRefreshCt now e = .zero ∨
      ipsecSlot (Isakmp.ipsecRefreshCt now e) =
        { ipsecSlot e with timer := some (now + period false) } := by
  unfold Isakmp.ipsecRefreshCt
  split
  · exact .inr rfl
  split
  · exact .inl (by simp [Isakmp.ipsecFreeEntry, huse])
  · exact .inr rfl

theorem Kept.ipsecTimer (h : Kept s) (hdue : due s.now (s.ipsec i).timer = true) :
    Kept (ipsecTimer s i) := by
  obtain ⟨expires, htimer, _⟩ := (due_iff _ _).mp hdue
  have huse : (s.ipsec i).inuse = true := by
    rw [← (h.running i).timer, htimer]
    rfl
  unfold IpsecConnections.ipsecTimer
  rcases ipsecRefreshCt_slot huse s.now with hfreed | hslot
  · rw [hfreed]
    exact h.ipsecUpdate (.idle rfl) ⟨by rintro ⟨⟩, rfl⟩
  have hlong : period false + hz ≤ Isakmp.ctRefreshTimeout := by
    decide
  have hinuse : (Isakmp.ipsecRefreshCt s.now (s.ipsec i)).inuse = true :=
    (congrArg Slot.inuse hslot).trans huse
  have hpending : (Isakmp.ipsecRefreshCt s.now (s.ipsec i)).timer =
      some (s.now + period false) := congrArg Slot.timer hslot
  rw [if_pos (by rw [hpending]; rfl)]
  have hkind : ∀ c, (s.ipsec i).ct = some c → ∃ k, s.conns c = some k ∧ k.esp = false := by
    intro c hct
    obtain ⟨k, hk, hesp, _⟩ := (h.ipsec i).conn c ⟨huse, hct⟩
    exact ⟨k, hk, hesp⟩
  refine (h.refreshStored hlong hkind).ipsecUpdate ?_ ?_
  · rw [hslot]
    exact (h.ipsec i).refresh hlong
  · refine ⟨fun _ => (h.running i).slot huse, ?_⟩
    rw [hpending, hinuse]
    rfl

private theorem espRefreshCt_slot (huse : e.inuse = true) (now : Nat) :
    Esp.espRefreshCt now e = .zero ∨
      espSlot (Esp.espRefreshCt now e) =
        { espSlot e with
          timer := if e.ct.isSome then some (now + period true) else none } := by
  unfold Esp.espRefreshCt
  split
  · exact .inr rfl
  split
  · exact .inl (by simp [Esp.espFreeEntry, huse])
  · exact .inr rfl

theorem Kept.espTimer (h : Kept s) (hdue : due s.now (s.esp i).timer = true) :
    Kept (espTimer s i) := by
  obtain ⟨expires, htimer, _⟩ := (due_iff _ _).mp hdue
  have huse : (s.esp i).inuse = true :=
    (h.sound i).inuse_of_timer (by rw [htimer]; rfl)
  have hsound := Esp.refresh_sound (h.sound i) huse s.now
  unfold IpsecConnections.espTimer
  rcases espRefreshCt_slot huse s.now with hfreed | hslot
  · rw [hfreed]
    exact h.espUpdate (.idle rfl) (Esp.sound_zero i)
  have hpending : (Esp.espRefreshCt s.now (s.esp i)).timer =
      if (s.esp i).ct.isSome then some (s.now + period true) else none :=
    congrArg Slot.timer hslot
  cases hct : (s.esp i).ct.isSome with
  | false =>
    rw [hct] at hpending hslot
    rw [if_neg (by rw [hpending]; simp)]
    refine h.espUpdate ?_ hsound
    rw [hslot]
    refine ⟨by rintro _ _ ⟨⟩, ?_⟩
    rintro c ⟨_, hstored⟩
    have hnone : (s.esp i).ct = some c := hstored
    rw [hnone] at hct
    cases hct
  | true =>
    have hlong : period true + hz ≤ Esp.espConnTmout := by
      decide
    rw [hct] at hpending hslot
    rw [if_pos (by rw [hpending]; rfl)]
    have hkind : ∀ c, (s.esp i).ct = some c → ∃ k, s.conns c = some k ∧ k.esp = true := by
      intro c hstored
      obtain ⟨k, hk, hesp, _⟩ := (h.esp i).conn c ⟨huse, hstored⟩
      exact ⟨k, hk, hesp⟩
    refine (h.refreshStored hlong hkind).espUpdate ?_ hsound
    rw [hslot]
    exact (h.esp i).refresh hlong

/-! ### Destruction and time -/

/-- Connections that nobody stores may go. -/
theorem Kept.drop (h : Kept s) (hless : ∀ c, conns c = none ∨ conns c = s.conns c)
    (hstored : ∀ i c, (ipsecSlot (s.ipsec i)).Stores c ∨ (espSlot (s.esp i)).Stores c →
      conns c = s.conns c) :
    Kept { s with conns := conns } := by
  refine ⟨fun i => ⟨(h.ipsec i).timer, ?_⟩, fun i => ⟨(h.esp i).timer, ?_⟩, h.running, h.sound, ?_⟩
  · intro c hstores
    dsimp only
    rw [hstored i c (.inl hstores)]
    exact (h.ipsec i).conn c hstores
  · intro c hstores
    dsimp only
    rw [hstored i c (.inr hstores)]
    exact (h.esp i).conn c hstores
  · intro c hc
    rcases hless c with hnone | hsame
    · exact hnone
    · exact hsame.trans (h.fresh c hc)

theorem Kept.dropOne (h : Kept s)
    (hfree : ∀ i, ¬(ipsecSlot (s.ipsec i)).Stores c ∧ ¬(espSlot (s.esp i)).Stores c) :
    Kept { s with conns := update s.conns c none } := by
  refine h.drop ?_ ?_
  · intro d
    rcases eq_or_ne d c with rfl | hdc
    · exact .inl (update_self ..)
    · exact .inr (update_of_ne hdc ..)
  intro i d hstores
  refine update_of_ne ?_ ..
  rintro rfl
  rcases hstores with hstores | hstores
  · exact (hfree i).1 hstores
  · exact (hfree i).2 hstores

/-- A connection times out before the timer of its entry only if it is cut. -/
theorem Guarded.cut_of_due {period : Nat} (h : Guarded period esp now conns slot)
    (hstores : slot.Stores c) (hpending : slot.timer.isSome = true)
    (hdue : due now ((conns c).map (·.expires)) = true) : ∃ k, conns c = some k ∧ k.Cut := by
  obtain ⟨k, hk, _, hlater⟩ := h.conn c hstores
  obtain ⟨expires, htimer⟩ := isSome_iff_exists.mp hpending
  refine ⟨k, hk, ?_⟩
  by_contra hwhole
  have hnow := (h.timer hstores.1 expires htimer).1
  have hlate := hlater hwhole expires htimer
  rw [hk, map_some, due_iff] at hdue
  obtain ⟨_, ⟨⟩, hpast⟩ := hdue
  omega

private theorem idle_iff (h : s.idle = true) :
    (∀ i < Isakmp.maxVpnConnection, due s.now (s.ipsec i).timer = false) ∧
      ∀ i < Esp.maxPorts, due s.now (s.esp i).timer = false := by
  simp only [State.idle, and_eq_true, List.all_eq_true, List.mem_range, not_eq_true'] at h
  exact ⟨h.1.1, h.1.2⟩

theorem Guarded.elapse {period : Nat} (h : Guarded period esp now conns slot)
    (hidle : slot.inuse = true → due now slot.timer = false) :
    Guarded period esp (now + 1) conns slot := by
  refine ⟨?_, h.conn⟩
  intro huse expires htimer
  have hbounds := h.timer huse expires htimer
  have hahead := hidle huse
  rw [htimer] at hahead
  simp only [due, any_some, decide_eq_false_iff_not] at hahead
  omega

/-- Time passes only when no timer is due, so no timer gets overdue. -/
theorem Kept.elapse (h : Kept s) (hidle : s.idle = true) : Kept { s with now := s.now + 1 } := by
  obtain ⟨hipsec, hesp⟩ := idle_iff hidle
  refine ⟨fun i => (h.ipsec i).elapse ?_, fun i => (h.esp i).elapse ?_, h.running, h.sound, h.fresh⟩
  · intro huse
    exact hipsec i ((h.running i).slot huse)
  · intro huse
    exact hesp i ((h.sound i).live huse).1

/-! ### Every run -/

/-- One event that spares the remembered connections keeps all lifetimes in order. -/
theorem Kept.step (h : Kept s) (hspares : Spares event s) : Kept (step event s) := by
  cases event with
  | isakmpOut flow seenReply sport lanIp cookie =>
    exact h.isakmpOut flow seenReply sport lanIp cookie
  | isakmpIn flow seenReply dport cookie => exact h.isakmpIn flow seenReply dport cookie
  | esp flow stream src dst spi => exact h.espPacket flow stream src dst spi
  | ipsecTimer i =>
    simp only [IpsecConnections.step]
    split
    next hdue =>
      exact h.ipsecTimer hdue
    · exact h
  | espTimer i =>
    simp only [IpsecConnections.step]
    split
    next hdue =>
      exact h.espTimer hdue
    · exact h
  | connTimeout c =>
    simp only [IpsecConnections.step]
    split
    next hdue =>
      refine h.dropOne (fun i => ⟨?_, ?_⟩)
      · intro hstores
        have hpending := (h.running i).timer.trans hstores.1
        exact ((hspares hdue i).1 ((h.ipsec i).cut_of_due hstores hpending hdue)).1 hstores
      intro hstores
      cases htimer : (s.esp i).timer with
      | none => exact (hspares hdue i).2 htimer hstores
      | some expires =>
        have hpending : (espSlot (s.esp i)).timer.isSome = true := by
          rw [espSlot, htimer]
          rfl
        exact ((hspares hdue i).1 ((h.esp i).cut_of_due hstores hpending hdue)).2 hstores
    · exact h
  | evict c => exact h.dropOne hspares
  | cleanup kill =>
    refine h.drop ?_ ?_
    · intro c
      split
      · exact .inl rfl
      · exact .inr rfl
    · intro i c hstores
      simp only [hspares i c hstores, false_eq_true, if_false]
  | elapse =>
    simp only [IpsecConnections.step]
    split
    next hidle =>
      exact h.elapse hidle
    · exact h

/-- An event after which all remembered connections exist has spared them. -/
theorem spares_of_remembered (hremembered : Remembered (step event s)) : Spares event s := by
  cases event with
  | evict c =>
    intro i
    constructor
    · intro hstores
      have hsome := hremembered i c (Or.inl hstores)
      simp [step] at hsome
    · intro hstores
      have hsome := hremembered i c (Or.inr hstores)
      simp [step] at hsome
  | cleanup kill =>
    intro i c hstores
    have hsome := hremembered i c hstores
    by_contra hkill
    simp [step, eq_true_of_not_eq_false hkill] at hsome
  | connTimeout c =>
    intro hdue i
    simp only [step, if_pos hdue] at hremembered
    have hipsec : ¬(ipsecSlot (s.ipsec i)).Stores c := by
      intro hstores
      simpa using hremembered i c (Or.inl hstores)
    have hesp : ¬(espSlot (s.esp i)).Stores c := by
      intro hstores
      simpa using hremembered i c (Or.inr hstores)
    exact ⟨fun _ => ⟨hipsec, hesp⟩, fun _ => hesp⟩
  | _ => exact trivial

private theorem kept_empty : Kept .empty :=
  ⟨fun _ => .idle rfl, fun _ => .idle rfl, fun _ => ⟨by rintro ⟨⟩, rfl⟩,
    Esp.sound_empty, fun _ _ => rfl⟩

/-- In every run all remembered connections exist in every state exactly if eviction and cleanup
spare them, and timeouts spare those that were last taken for a DNS query and those of ESP entries
whose timer has stopped. A timeout meets no other one. -/
theorem remembered_connections_iff (events : List Event) :
    Allowed step (fun event s => Remembered (step event s)) events .empty ↔
      Allowed step Spares events .empty := by
  symm
  refine Allowed.iff_of_invariant (P := Kept) ?_ ?_ kept_empty
  · intro event s h
    exact ⟨fun hspares => (h.step hspares).remembered, spares_of_remembered⟩
  · intro event s h hspares
    exact h.step hspares

/-- A host has opened a session, and the table of connections is flushed. -/
theorem flushed_connection_remembered :
    ¬Remembered (run step
      [.isakmpOut .fresh false 500 3232235778 77, .cleanup (fun _ => true)] .empty) := by
  intro hremembered
  have hsome := hremembered 0 0 (Or.inl ⟨rfl, rfl⟩)
  cases hsome

end EchoLife.Netfilter.IpsecConnections
