import EchoLife.Netfilter.Esp
import EchoLife.Netfilter.Isakmp

/-!
The connections that the ISAKMP table and the ESP table remember. An entry stores a pointer to a
connection without a reference; what keeps the connection is that the timer of the entry extends
its lifetime, each time for longer than until it expires again. The two tables, the connections
and the clock are one system. The clock goes on when no timer is due.
-/

namespace EchoLife.Netfilter.IpsecConnections

open Function List Run Slots

/-- A connection that is not destroyed: whether it is one of ESP, when it times out, and the
timeout that it was last given. -/
structure Conn where
  esp : Bool
  expires : Nat
  extra : Nat
  deriving DecidableEq

abbrev Conns := Nat → Option Conn

structure State where
  now : Nat
  ipsec : Isakmp.Table
  esp : Esp.Table
  conns : Conns
  /-- The name of the next connection. -/
  next : Nat

def State.empty : State :=
  ⟨0, fun _ => .zero, .empty, fun _ => none, 0⟩

/-! ### Connections -/

/-- `nf_ct_refresh_acct`: the timeout is left if it is less than a second short. -/
def Conn.refreshAcct (k : Conn) (now extra : Nat) : Conn :=
  if k.expires ≤ now + extra ∧ now + extra < k.expires + hz then { k with extra := extra }
  else { k with expires := now + extra, extra := extra }

section
variable (period : Nat) (esp : Bool) (now : Nat) (conns : Conns)

/-- The refresh through a stored pointer. What a pointer to a destroyed connection
refreshes is not modelled. -/
def refreshStored (now extra : Nat) (ct : Option Nat) : Conns :=
  match ct with
  | none => conns
  | some c =>
    match conns c with
    | none => conns
    | some k => update conns c (some (k.refreshAcct now extra))

inductive Flow where
  /-- There is none: it cannot be allocated. -/
  | untracked
  | existing (c : Nat)
  | fresh

/-- The connections after a packet of the protocol, with the timeout it asks for, and
the connection of the packet. -/
def resolve (s : State) (esp : Bool) (timeout : Nat) : Flow → Option (State × Nat)
  | .untracked => none
  | .existing c =>
    match s.conns c with
    | none => none
    | some k =>
      if k.esp = esp then
        some ({ s with
          conns := update s.conns c (some (k.refreshAcct s.now timeout)) }, c)
      else none
  | .fresh =>
    some ({ s with
      conns := update s.conns s.next (some ⟨esp, s.now + timeout, timeout⟩)
      next := s.next + 1 }, s.next)

def Flow.isFresh : Flow → Bool
  | .fresh => true
  | _ => false

def udpUnreplieddnsTimeout : Nat := 1 * hz

/-- The timeout that `udp_packet` gives to a connection, by whether it has seen a reply and by
the ports of the packet. -/
def udpTimeout (seenReply : Bool) (sport dport : Nat) : Nat :=
  if seenReply then 180 * hz
  else if dport = 53 then udpUnreplieddnsTimeout
  else if dport = 5060 ∨ sport = 5060 then 180 * hz
  else 30 * hz

def ipsecPort : Nat := 500

/-- `ESP_TIMEOUT`, or the one of a stream. -/
def espTimeout (stream : Bool) : Nat :=
  if stream then 6000 * hz else 3000 * hz

/-! ### Steps -/

inductive Event where
  /-- A packet to port 500 of the peer, from any port of the host. -/
  | isakmpOut (flow : Flow) (seenReply : Bool) (sport lanIp cookie : Nat)
  /-- A packet back, from port 500 of the peer. -/
  | isakmpIn (flow : Flow) (seenReply : Bool) (dport cookie : Nat)
  | esp (flow : Flow) (stream : Bool) (src dst spi : Nat)
  | ipsecTimer (index : Nat)
  | espTimer (index : Nat)
  /-- `death_by_timeout`, called by the timer of the connection. -/
  | connTimeout (c : Nat)
  /-- Forced eviction, or the end of a connection that is not confirmed. -/
  | evict (c : Nat)
  /-- `nf_ct_iterate_cleanup`. -/
  | cleanup (kill : Nat → Bool)
  | elapse

def due (timer : Option Nat) : Bool :=
  timer.any (· ≤ now)

def isakmpOut (s : State) (flow : Flow) (seenReply : Bool) (sport lanIp cookie : Nat) : State :=
  match resolve s false (udpTimeout seenReply sport ipsecPort) flow with
  | none => s
  | some (s', c) =>
    match Isakmp.outbound s.now s.ipsec lanIp cookie c with
    | some table => { s' with ipsec := table }
    -- the packet is dropped, and a new connection is not confirmed
    | none => if flow.isFresh then s else s'

def isakmpIn (s : State) (flow : Flow) (seenReply : Bool) (dport cookie : Nat) : State :=
  match resolve s false (udpTimeout seenReply ipsecPort dport) flow with
  | none => s
  | some (s', _) => { s' with ipsec := Isakmp.inbound s.ipsec cookie }

def espPacket (s : State) (flow : Flow) (stream : Bool) (src dst spi : Nat) : State :=
  match Esp.espPktToTuple s.now s.esp src dst spi with
  | none => s
  | some (i, e) =>
    match resolve s true (espTimeout stream) flow with
    | none => { s with esp := update s.esp i e.count }
    | some (s', c) =>
      { s' with
        esp := Esp.newConnection (update s.esp i e.count) spi
          (if flow.isFresh then some c else none) }

def ipsecTimer (s : State) (i : Nat) : State :=
  { s with
    ipsec := update s.ipsec i (Isakmp.ipsecRefreshCt s.now (s.ipsec i))
    conns :=
      if (Isakmp.ipsecRefreshCt s.now (s.ipsec i)).timer.isSome then
        refreshStored s.conns s.now Isakmp.ctRefreshTimeout (s.ipsec i).ct
      else s.conns }

def espTimer (s : State) (i : Nat) : State :=
  { s with
    esp := update s.esp i (Esp.espRefreshCt s.now (s.esp i))
    conns :=
      if (Esp.espRefreshCt s.now (s.esp i)).timer.isSome then
        refreshStored s.conns s.now Esp.espConnTmout (s.esp i).ct
      else s.conns }

def State.idle (s : State) : Bool :=
  (range Isakmp.maxVpnConnection).all (fun i => !due s.now (s.ipsec i).timer) &&
    (range Esp.maxPorts).all (fun i => !due s.now (s.esp i).timer) &&
    (range s.next).all (fun c => !due s.now ((s.conns c).map (·.expires)))

def step : Event → State → State
  | .isakmpOut flow seenReply sport lanIp cookie, s =>
    isakmpOut s flow seenReply sport lanIp cookie
  | .isakmpIn flow seenReply dport cookie, s => isakmpIn s flow seenReply dport cookie
  | .esp flow stream src dst spi, s => espPacket s flow stream src dst spi
  | .ipsecTimer i, s => if due s.now (s.ipsec i).timer then ipsecTimer s i else s
  | .espTimer i, s => if due s.now (s.esp i).timer then espTimer s i else s
  | .connTimeout c, s =>
    if due s.now ((s.conns c).map (·.expires)) then
      { s with conns := update s.conns c none }
    else s
  | .evict c, s => { s with conns := update s.conns c none }
  | .cleanup kill, s => { s with conns := fun c => if kill c then none else s.conns c }
  | .elapse, s => if s.idle then { s with now := s.now + 1 } else s

/-! ### The property and its condition -/

/-- What the entries of both tables have in common. -/
structure Slot where
  inuse : Bool
  timer : Option Nat
  ct : Option Nat
  deriving DecidableEq

def ipsecSlot (e : Isakmp.Entry) : Slot :=
  ⟨e.inuse, e.timer, e.ct⟩

def espSlot (e : Esp.Entry) : Slot :=
  ⟨e.inuse, e.timer, e.ct⟩

def Slot.Stores (slot : Slot) (c : Nat) : Prop :=
  slot.inuse = true ∧ slot.ct = some c

def Remembered (s : State) : Prop :=
  ∀ i c, (ipsecSlot (s.ipsec i)).Stores c ∨ (espSlot (s.esp i)).Stores c → (s.conns c).isSome = true

/-- The last packet took the connection for a DNS query without a reply. -/
def Conn.Cut (k : Conn) : Prop :=
  k.extra = udpUnreplieddnsTimeout

/-- No remembered connection is destroyed: by eviction and cleanup from either table, by a timeout
if it is cut, or from an ESP entry whose timer has stopped. -/
def Spares : Event → State → Prop
  | .evict c, s =>
    ∀ i, ¬(ipsecSlot (s.ipsec i)).Stores c ∧ ¬(espSlot (s.esp i)).Stores c
  | .cleanup kill, s =>
    ∀ i c, (ipsecSlot (s.ipsec i)).Stores c ∨ (espSlot (s.esp i)).Stores c → kill c = false
  | .connTimeout c, s =>
    due s.now ((s.conns c).map (·.expires)) = true → ∀ i,
      ((∃ k, s.conns c = some k ∧ k.Cut) →
        ¬(ipsecSlot (s.ipsec i)).Stores c ∧ ¬(espSlot (s.esp i)).Stores c) ∧
      ((s.esp i).timer = none → ¬(espSlot (s.esp i)).Stores c)
  | _, _ => True

/-! ### Lifetimes -/

/-- An entry in use has a timer that is not overdue and not further than its period, if
it is pending, and its connection lives longer than that unless it is cut. -/
structure Guarded (period : Nat) (esp : Bool) (now : Nat) (conns : Conns) (slot : Slot) : Prop where
  timer : slot.inuse = true → ∀ expires, slot.timer = some expires →
    now ≤ expires ∧ expires ≤ now + period
  conn : ∀ c, slot.Stores c → ∃ k, conns c = some k ∧ k.esp = esp ∧
    (¬k.Cut → ∀ expires, slot.timer = some expires → expires < k.expires)

/-- Connections of the kind stay. Those that are not cut afterwards end no sooner, or later than
any timer. -/
def Extends (conns' : Conns) : Prop :=
  ∀ c k, conns c = some k → k.esp = esp →
    ∃ k', conns' c = some k' ∧ k'.esp = esp ∧
      (¬k'.Cut → ¬k.Cut ∧ k.expires ≤ k'.expires ∨ now + period < k'.expires)

theorem Extends.refl : Extends period esp now conns conns :=
  fun _ k hk hesp => ⟨k, hk, hesp, fun hlong => .inl ⟨hlong, le_refl _⟩⟩

end

variable {esp : Bool} {conns : Conns}

/-- An entry stays guarded when connections are only extended or cut. -/
theorem Guarded.extend {period now : Nat} {conns' : Conns} {slot : Slot}
    (h : Guarded period esp now conns slot) (hextends : Extends period esp now conns conns') :
    Guarded period esp now conns' slot := by
  refine ⟨h.timer, ?_⟩
  intro c hstores
  obtain ⟨k, hk, hesp, hlater⟩ := h.conn c hstores
  obtain ⟨k', hk', hesp', hexpires⟩ := hextends c k hk hesp
  refine ⟨k', hk', hesp', ?_⟩
  intro hlong expires htimer
  rcases hexpires hlong with ⟨hbefore, hsooner⟩ | hlate
  · exact (hlater hbefore expires htimer).trans_le hsooner
  · exact (h.timer hstores.1 expires htimer).2.trans_lt hlate

variable (k : Conn) (now extra : Nat)

/-- After a refresh less than a second is missing from the timeout that was asked for. -/
theorem refreshAcct_expires : now + extra < (k.refreshAcct now extra).expires + hz := by
  unfold Conn.refreshAcct
  split
  next hclose =>
    exact hclose.2
  · exact Nat.lt_add_of_pos_right (by decide)

@[simp] theorem refreshAcct_esp : (k.refreshAcct now extra).esp = k.esp := by
  unfold Conn.refreshAcct
  split
  · rfl
  · rfl

@[simp] theorem refreshAcct_extra : (k.refreshAcct now extra).extra = extra := by
  unfold Conn.refreshAcct
  split
  · rfl
  · rfl

/-- A timeout that keeps a connection until after the next expiry of an entry's timer, or else is
the one that cuts it. -/
def LongOrCut (period timeout : Nat) : Prop :=
  timeout ≠ udpUnreplieddnsTimeout → period + hz ≤ timeout

/-- A refresh extends its connection if its timeout is a long one, or cuts it. -/
theorem refresh_extends {c : Nat} {k : Conn} (hk : conns c = some k) {period : Nat}
    (now extra : Nat) (henough : k.esp = esp → LongOrCut period extra) :
    Extends period esp now conns (update conns c (some (k.refreshAcct now extra))) := by
  intro c' k' hk' hesp
  rcases eq_or_ne c' c with rfl | hne
  · obtain rfl := Option.some_inj.mp (hk.symm.trans hk')
    refine ⟨k.refreshAcct now extra, update_self .., by simpa using hesp, ?_⟩
    intro hwhole
    have hlate := refreshAcct_expires k now extra
    have hlong := henough hesp (by simpa [Conn.Cut] using hwhole)
    omega
  · exact ⟨k', by rw [update_of_ne hne, hk'], hesp, fun hlong => .inl ⟨hlong, le_refl _⟩⟩

private theorem fresh_extends {c : Nat} (hnone : conns c = none) (k : Conn) (period now : Nat)
    (esp : Bool) : Extends period esp now conns (update conns c (some k)) := by
  intro c' k' hk' hesp
  have hne : c' ≠ c := by
    rintro rfl
    rw [hnone] at hk'
    cases hk'
  exact ⟨k', by rw [update_of_ne hne, hk'], hesp, fun hlong => .inl ⟨hlong, le_refl _⟩⟩

theorem refreshStored_extends {ct : Option Nat} {period : Nat}
    (henough : ∀ c k, ct = some c → conns c = some k → k.esp = esp → LongOrCut period extra) :
    Extends period esp now conns (refreshStored conns now extra ct) := by
  unfold refreshStored
  cases ct with
  | none => exact Extends.refl _ _ _ _
  | some c =>
    dsimp only
    cases hk : conns c with
    | none => exact Extends.refl _ _ _ _
    | some k => exact refresh_extends hk now extra (henough c k rfl hk)

/-! ### What holds of the system -/

def period (esp : Bool) : Nat :=
  if esp then Esp.espRefTmout else Isakmp.refreshTimeout

structure Running (i : Nat) (e : Isakmp.Entry) : Prop where
  slot : e.inuse = true → i < Isakmp.maxVpnConnection
  timer : e.timer.isSome = e.inuse

structure Kept (s : State) : Prop where
  ipsec : ∀ i, Guarded (period false) false s.now s.conns (ipsecSlot (s.ipsec i))
  esp : ∀ i, Guarded (period true) true s.now s.conns (espSlot (s.esp i))
  running : ∀ i, Running i (s.ipsec i)
  sound : Esp.TableSound s.esp
  fresh : ∀ c, s.next ≤ c → s.conns c = none

theorem Kept.remembered {s : State} (h : Kept s) : Remembered s := by
  rintro i c (hstores | hstores)
  · obtain ⟨k, hk, _⟩ := (h.ipsec i).conn c hstores
    rw [hk]
    rfl
  · obtain ⟨k, hk, _⟩ := (h.esp i).conn c hstores
    rw [hk]
    rfl

/-- The connection of a packet, in a state that differs in the connections only. -/
structure Resolved (s s' : State) (esp : Bool) (timeout c : Nat) : Prop where
  now : s'.now = s.now
  ipsecTable : s'.ipsec = s.ipsec
  espTable : s'.esp = s.esp
  conns : ∀ kind, Extends (period kind) kind s.now s.conns s'.conns
  conn : ∃ k, s'.conns c = some k ∧ k.esp = esp ∧ k.extra = timeout ∧
    s.now + timeout < k.expires + hz
  fresh : ∀ c, s'.next ≤ c → s'.conns c = none

/-- What a packet does to the connections: it extends or cuts one of its protocol, or adds one. -/
theorem Kept.resolve_cases {s s' : State} (h : Kept s) {timeout c : Nat} {flow : Flow}
    (hlong : LongOrCut (period esp) timeout)
    (hresolve : resolve s esp timeout flow = some (s', c)) :
    Resolved s s' esp timeout c := by
  cases flow with
  | untracked => cases hresolve
  | existing d =>
    simp only [resolve] at hresolve
    cases hk : s.conns d with
    | none =>
      rw [hk] at hresolve
      cases hresolve
    | some k =>
      rw [hk] at hresolve
      dsimp only at hresolve
      split at hresolve
      next hesp =>
        cases hresolve
        refine ⟨rfl, rfl, rfl, ?_, ?_, ?_⟩
        · intro kind
          refine refresh_extends hk s.now timeout ?_
          intro hkind
          rw [← hkind, hesp]
          exact hlong
        · exact ⟨_, update_self .., by simpa using hesp, refreshAcct_extra ..,
            refreshAcct_expires k s.now timeout⟩
        · intro c' hc'
          have hnone := h.fresh c' hc'
          have hne : c' ≠ c := by
            rintro rfl
            rw [hk] at hnone
            cases hnone
          dsimp only
          rw [update_of_ne hne]
          exact hnone
      · cases hresolve
  | fresh =>
    cases hresolve
    have hnone := h.fresh s.next (le_refl _)
    refine ⟨rfl, rfl, rfl, ?_, ?_, ?_⟩
    · intro kind
      exact fresh_extends hnone _ _ _ _
    · exact ⟨_, update_self .., rfl, rfl, Nat.lt_add_of_pos_right (by decide)⟩
    intro c' hc'
    dsimp only at hc' ⊢
    rw [update_of_ne (by omega)]
    exact h.fresh c' (by omega)

end EchoLife.Netfilter.IpsecConnections
